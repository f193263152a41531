set_option autoImplicit false

/-! # Phases of a session

A session is brought up through identify, negotiate and security, is then active, and ends
through terminating. A failure may end it from any phase. Every move between phases goes
through `Phase.mayFollow`. -/

namespace Metering

/-- Where a session stands. -/
inductive Phase where
  | disconnected
  | identifying
  | negotiating
  | securityHandshake
  | active
  | terminating
  deriving DecidableEq, Repr

namespace Phase

/-- The name of the phase. -/
def name : Phase → String
  | disconnected => "Disconnected"
  | identifying => "Identifying"
  | negotiating => "Negotiating"
  | securityHandshake => "SecurityHandshake"
  | active => "SessionActive"
  | terminating => "Terminating"

/-- All phases. -/
def all : List Phase := [disconnected, identifying, negotiating, securityHandshake, active, terminating]

/-- The phase with a name. -/
def named? (name : String) : Option Phase := all.find? fun p => p.name == name

/-- Reads, writes and procedures are allowed. -/
def isActive : Phase → Bool
  | active => true
  | _ => false

/-- The session is on its way up. -/
def isStarting : Phase → Bool
  | identifying | negotiating | securityHandshake => true
  | _ => false

/-- The moves between phases. An active session may stay active: a failed transaction can keep
it. -/
def mayFollow : (old new : Phase) → Bool
  | _, disconnected => true
  | disconnected, identifying => true
  | identifying, negotiating | identifying, securityHandshake | identifying, active => true
  | negotiating, securityHandshake | negotiating, active => true
  | securityHandshake, active => true
  | active, terminating | active, active => true
  | _, _ => false

end Phase

end Metering
