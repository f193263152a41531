import Metering.Fault
set_option autoImplicit false

/-! # Procedures

A procedure is started by writing table 7 and its result is read from table 8. The meter repeats
the procedure's number and the caller's sequence byte before the result. -/

namespace Metering

/-- The table that starts procedures. -/
def procedureRequestTable : UInt32 := 7

/-- The table that shows their results. -/
def procedureResponseTable : UInt32 := 8

/-- Contents of table 7. -/
structure ProcedureRequest where
  number : UInt16
  sequence : UInt8
  parameters : Bytes
  deriving DecidableEq, Repr

/-- The contents as they are written. Some meters expect the number low byte first. -/
def ProcedureRequest.bytes (r : ProcedureRequest) (littleEndian : Bool) : Bytes :=
  (if littleEndian then Bytes.littleEndian 2 r.number.toNat else Bytes.bigEndian 2 r.number.toNat)
    ++ r.sequence :: r.parameters

/-- Contents of table 8. -/
structure ProcedureResponse where
  /-- The number as the meter repeats it. -/
  number : Bytes
  sequence : UInt8
  result : ProcedureResult
  data : Bytes
  deriving DecidableEq, Repr

namespace ProcedureResponse

/-- Number, sequence and result. -/
def minLength : Nat := 4

/-- Reads the contents of table 8. -/
def ofTable (table : Bytes) : Except Fault ProcedureResponse :=
  match table with
  | a :: b :: sequence :: result :: data =>
    .ok { number := [a, b], sequence, result := ProcedureResult.ofByte result, data }
  | _ => .error (.protocol (.procedureTableShort table.length minLength))

/-- What a completed procedure returned. -/
def completedData (r : ProcedureResponse) : Except Fault Bytes :=
  if r.result.isSuccess then .ok r.data else .error (.badProcedure r.result)

end ProcedureResponse

end Metering
