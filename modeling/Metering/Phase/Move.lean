import Metering.Fault
set_option autoImplicit false

/-! # Moving between phases

A move that the phases do not allow is refused, and the session stays where it is. -/

namespace Metering.Phase

/-- The phase after a move. -/
def moveTo (old new : Phase) : Except Fault Phase :=
  if mayFollow old new then .ok new else .error (.invalidState (.badTransition old new))

/-- Every phase may move to `disconnected`. -/
@[simp] theorem moveTo_disconnected (old : Phase) : old.moveTo .disconnected = .ok .disconnected := by
  cases old <;> rfl

end Metering.Phase
