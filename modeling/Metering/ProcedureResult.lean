set_option autoImplicit false

/-! # Results of procedures

A meter reports in table 8 how a procedure went. Only "not completed" is a passing state:
reading the table again may show another result. -/

namespace Metering

/-- How a meter says a procedure went. -/
inductive ProcedureResult where
  | completed
  | notCompleted
  | invalidParameter
  | setupConflict
  | ignoredDueToTiming
  | noAuthorization
  | unknownProcedure
  | other (code : UInt8)
  deriving DecidableEq, Repr

namespace ProcedureResult

/-- The result that a code byte stands for. -/
def ofByte (b : UInt8) : ProcedureResult :=
  match b.toNat with
  | 0 => completed
  | 1 => notCompleted
  | 2 => invalidParameter
  | 3 => setupConflict
  | 4 => ignoredDueToTiming
  | 5 => noAuthorization
  | 6 => unknownProcedure
  | _ => other b

/-- The code byte on the wire. -/
def byte : ProcedureResult → UInt8
  | completed => 0
  | notCompleted => 1
  | invalidParameter => 2
  | setupConflict => 3
  | ignoredDueToTiming => 4
  | noAuthorization => 5
  | unknownProcedure => 6
  | other code => code

/-- The procedure ran to its end. -/
def isSuccess : ProcedureResult → Bool
  | completed => true
  | _ => false

/-- Reading the result again may show another one. -/
def isRetryable : ProcedureResult → Bool
  | notCompleted => true
  | _ => false

/-- The result in words. -/
def phrase : ProcedureResult → String
  | completed => "completed"
  | notCompleted => "not completed"
  | invalidParameter => "invalid parameter"
  | setupConflict => "setup conflict"
  | ignoredDueToTiming => "ignored due to timing"
  | noAuthorization => "no authorization"
  | unknownProcedure => "unknown procedure"
  | other _ => "unknown result"

/-- The result in words with its code. -/
def text (r : ProcedureResult) : String :=
  r.phrase ++ " (" ++ toString r.byte.toNat ++ ")"

end ProcedureResult

end Metering
