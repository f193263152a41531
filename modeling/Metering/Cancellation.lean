set_option autoImplicit false

/-! # Cancellation

A caller may ask at any time that the running operation stops. The request is seen once: the
channel that reports it calls `CancelHandle.reset`, and what comes later runs normally. A token
stands for the request of one generation; it stays cancelled when the handle goes on to the next.

While a `Window` is open the channel does not look at requests. Windows nest. -/

namespace Metering

/-- What a caller asks to stop with. -/
structure CancelHandle where
  /-- How often a request was reported. -/
  generation : Nat := 0
  cancelled : Bool := false
  deriving DecidableEq, Repr

/-- A handle of one generation, taken to be looked at later. -/
structure CancelToken where
  generation : Nat
  deriving DecidableEq, Repr

namespace CancelHandle

/-- Asks the running operation to stop. -/
def cancel (h : CancelHandle) : CancelHandle := { h with cancelled := true }

/-- Goes on to the next generation after a request; without one nothing changes. -/
def reset (h : CancelHandle) : CancelHandle :=
  if h.cancelled then { generation := h.generation + 1, cancelled := false } else h

/-- The token of the current generation. -/
def token (h : CancelHandle) : CancelToken := ⟨h.generation⟩

/-- A token is cancelled when its own generation was. Only cancelled generations are left. -/
def hasCancelled (h : CancelHandle) (t : CancelToken) : Bool :=
  if t.generation = h.generation then h.cancelled else true

@[simp] theorem cancelled_reset (h : CancelHandle) : h.reset.cancelled = false := by
  unfold reset
  split <;> simp_all

@[simp] theorem cancelled_cancel (h : CancelHandle) : h.cancel.cancelled = true := rfl

end CancelHandle

/-- The number of open windows in which requests to stop wait. -/
structure Window where
  depth : Nat := 0
  deriving DecidableEq, Repr

namespace Window

/-- A window is open. -/
def isActive (w : Window) : Bool := w.depth > 0

/-- Opens a window within those that are open. -/
def enter (w : Window) : Window := ⟨w.depth + 1⟩

/-- Closes the newest window. -/
def leave (w : Window) : Window := ⟨w.depth - 1⟩

@[simp] theorem isActive_enter (w : Window) : w.enter.isActive = true := by simp [enter, isActive]

@[simp] theorem leave_enter (w : Window) : w.enter.leave = w := by simp [enter, leave]

end Window

end Metering
