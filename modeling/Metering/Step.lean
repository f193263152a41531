import Metering.Fault
set_option autoImplicit false

/-! # Steps over a state

A step reads and changes a state and either gives a value or a fault. The state it reached is
kept in both cases: bytes that were consumed before a failure stay consumed, and what was sent
stays sent.

Layers lie inside each other, and `Step.within` runs a step of an inner layer as a step of the
outer one. -/

namespace Metering

/-- A computation over a state of type `σ` that may fail. -/
abbrev Step (σ : Type) (α : Type) : Type := ExceptT Fault (StateM σ) α

namespace Step

variable {σ τ α β : Type}

/-- Runs a step: how it ended, and the state it left. -/
def run (x : Step σ α) (s : σ) : Except Fault α × σ := x s

/-- A step given by what it does to every state. -/
def ofRun (f : σ → Except Fault α × σ) : Step σ α := f

/-- A computation without state as a step. -/
def ofExcept : Except Fault α → Step σ α
  | .ok a => pure a
  | .error e => throw e

/-- How a step ended, as a value; it does not fail. -/
def outcome (x : Step σ α) : Step σ (Except Fault α) :=
  fun s => let (r, s) := x.run s; (.ok r, s)

/-- Runs a step of an inner layer, found by `get` and put back by `set`. -/
def within (get : τ → σ) (set : τ → σ → τ) (x : Step σ α) : Step τ α :=
  fun t => let (r, s) := x.run (get t); (r, set t s)

/-! ## Repetition

A loop that only reads ends because the line holds finitely many bytes, and a loop that also
sends ends because the far end has finitely many answers left. Both bounds are counted
explicitly, so that every loop is a recursion on a number. A loop that outlives its bound has
nothing left to read. -/

/-- Repeats `next` until it gives a result, at most `fuel` times. -/
def repeatUpTo (next : α → Step σ (α ⊕ β)) : (fuel : Nat) → α → Step σ β
  | 0, _ => throw (.readTimeout 0)
  | fuel + 1, a => do
    match ← next a with
    | .inl a => repeatUpTo next fuel a
    | .inr b => pure b

/-- Repeats `next` at most `fuel` times, going on with `again` as soon as fewer than `left`
answers are left. -/
def repeatUntilFewer (answers : σ → Nat) (next : α → Step σ (α ⊕ β)) (again : α → Step σ β)
    (left : Nat) : (fuel : Nat) → α → Step σ β
  | 0, _ => throw (.readTimeout 0)
  | fuel + 1, a => do
    match ← next a with
    | .inr b => pure b
    | .inl a =>
      if answers (← get) < left then again a
      else repeatUntilFewer answers next again left fuel a

/-- Repeats `next` until it gives a result. Whenever the far end has given an answer, the bound
is counted anew from what waits then. -/
def repeatWhileFed (answers waiting : σ → Nat) (next : α → Step σ (α ⊕ β)) :
    (rounds : Nat) → α → Step σ β
  | 0, a => do
    let s ← get
    repeatUntilFewer answers next (fun _ => throw (.readTimeout 0)) (answers s) (waiting s + 1) a
  | rounds + 1, a => do
    let s ← get
    repeatUntilFewer answers next (repeatWhileFed answers waiting next rounds) (answers s)
      (waiting s + 1) a

/-! ## What a step leaves -/

@[simp] theorem run_ofRun (f : σ → Except Fault α × σ) (s : σ) : (ofRun f).run s = f s := rfl

@[simp] theorem run_pure (a : α) (s : σ) : (pure a : Step σ α).run s = (.ok a, s) := rfl

@[simp] theorem run_throw (e : Fault) (s : σ) : (throw e : Step σ α).run s = (.error e, s) := rfl

/-- A sequence stops at the first fault and hands the state on. -/
theorem run_bind (x : Step σ α) (f : α → Step σ β) (s : σ) :
    (x >>= f).run s = match x.run s with
      | (.ok a, s) => (f a).run s
      | (.error e, s) => (.error e, s) := by
  show (ExceptT.bind x f) s = _
  simp only [ExceptT.bind, ExceptT.mk, run, bind, StateT.bind]
  cases h : x s with
  | mk r s' => cases r <;> rfl

@[simp] theorem run_within (get : τ → σ) (set : τ → σ → τ) (x : Step σ α) (t : τ) :
    (within get set x).run t = ((x.run (get t)).1, set t (x.run (get t)).2) := rfl

@[simp] theorem run_outcome (x : Step σ α) (s : σ) :
    x.outcome.run s = (.ok (x.run s).1, (x.run s).2) := rfl

end Step

end Metering
