import Metering.Client.Basic
import Metering.Procedure
set_option autoImplicit false

/-! # Tables, procedures and waits

A transfer that does not fit the wire is cut into pieces with offsets. A read that comes back short
ends a table of unknown length, and fails a range. A procedure is a write of table 7 and reads of
table 8 until its result is there. -/

namespace Metering.Client

/-! ## What fits the wire -/

/-- The most bytes of one read. -/
def maxRead (c : Client) : Nat :=
  match c.wire with
  | .packets link => link.limits.maxRead
  | .apdus a => a.maxResponse - readOverhead

/-- The most bytes of one write of a whole table. -/
def maxWrite (c : Client) : Nat :=
  match c.wire with
  | .packets link => link.limits.maxWrite
  | .apdus a => a.maxRequest - writeOverhead

/-- The most bytes of one write to a range. -/
def maxPartialWrite (c : Client) : Nat :=
  match c.wire with
  | .packets link => link.limits.maxPartialWrite
  | .apdus a => a.maxRequest - partialWriteOverhead

/-- The answers that the far end has left. -/
def answersLeft (c : Client) : Nat := c.channel.line.answers.length

/-- The number of bytes still to be read. -/
def waiting (c : Client) : Nat := c.channel.line.waiting + c.channel.input.length

/-! ## Reading -/

/-- A read in pieces. -/
structure PieceRead where
  number : UInt16
  offset : UInt32
  count : Nat
  /-- The most bytes of one piece. -/
  limit : Nat
  /-- A range was asked for, so all of it has to come. -/
  isRange : Bool
  deriving DecidableEq, Repr

/-- What was read so far, and whether all checksums agreed. -/
abbrev PiecesRead := Bytes × Bool

/-- The result of a read in pieces. -/
def PieceRead.result (r : PieceRead) (read : PiecesRead) : TableData where
  number := r.number
  offset := if r.isRange then some r.offset else none
  data := read.1
  declared := read.1.length
  checksumValid := read.2

/-- Reads one piece. -/
def readPiece (r : PieceRead) (read : PiecesRead) : Step Client (PiecesRead ⊕ PiecesRead) := do
  let (data, valid) := read
  if data.length ≥ r.count then return .inr read
  let place := r.offset + UInt32.ofNat data.length
  let size := min (r.count - data.length) r.limit
  let request ← Step.ofExcept (Request.readPartial r.number place.toNat (size % 0x10000))
  let results ← transactReporting request
  let piece ← Step.ofExcept (Reader.parse (TableData.take r.number (some place)) results)
  modify fun c => { c with progress := c.progress.finishPiece piece.data.length }
  let read := (data ++ piece.data, valid && piece.checksumValid)
  if piece.data.length < size then
    if r.isRange then throw (.partialData r.count read.1.length)
    return .inr read
  return .inl read

/-- Reads in pieces. A round that goes on has come nearer to the end, or it has read what waited, so the
bound counts both. -/
def readPieces (r : PieceRead) : Step Client TableData := do
  beginProgress r.count
  let read ← Step.repeatWhileFed answersLeft (fun c => c.waiting + r.count) (readPiece r)
    (answersLeft (← get)) ([], true)
  follow Progress.complete
  return r.result read

/-- Reads with one request. -/
def readAtOnce (number : UInt16) (offset : Option UInt32) (total : Nat) (request : Request) :
    Step Client TableData := do
  beginProgress total
  let results ← transactReporting request
  let table ← Step.ofExcept (Reader.parse (TableData.take number offset) results)
  follow Progress.complete
  return table

/-- Reads a table of an active session. -/
def readActive (d : Descriptor) : Step Client TableData := do
  Step.ofExcept d.validate
  ensureActive
  let number := d.wireNumber
  let limit := (← get).maxRead
  match d.access with
  | .full =>
    let expected := (d.expectedSize.map (·.toNat)).getD 0
    if expected > limit then readPieces ⟨number, 0, expected, limit, false⟩
    else readAtOnce number none expected (.readFull number)
  | .range offset count =>
    if count.toNat > limit then readPieces ⟨number, offset, count.toNat, limit, true⟩
    else
      let request ← Step.ofExcept (Request.readPartial number offset.toNat (count.toNat % 0x10000))
      readAtOnce number (some offset) count.toNat request

/-- Reads a table. -/
def readTable (d : Descriptor) : Step Client TableData := settle (readActive d)

/-! ## Writing -/

/-- Writes pieces one after the other, from a place on. -/
def writePieces (number : UInt16) : (place : Nat) → List Bytes → Step Client Unit
  | _, [] => return ()
  | place, piece :: rest => do
    let request ← Step.ofExcept (Request.writePartial number place piece)
    let _ ← transact request
    modify fun c => { c with progress := c.progress.finishPiece piece.length }
    follow (·.report 0)
    writePieces number (place + piece.length) rest

/-- Writes in pieces of at most `limit` bytes. -/
def writeInPieces (number : UInt16) (offset : Nat) (data : Bytes) (limit : Nat) : Step Client Unit := do
  if limit = 0 then throw (.invalidState .noRoomForData)
  beginProgress data.length
  writePieces number offset (Bytes.chunks limit data)
  follow Progress.complete

/-- Writes a table of an active session. -/
def writeActive (d : Descriptor) (data : Bytes) : Step Client Unit := do
  Step.ofExcept (d.validateWrite data)
  ensureActive
  let number := d.wireNumber
  let c ← get
  match d.access with
  | .full =>
    if data.length ≤ c.maxWrite then
      let _ ← transact (← Step.ofExcept (Request.writeFull number data))
    else writeInPieces number 0 data c.maxPartialWrite
  | .range offset _ =>
    if data.length ≤ c.maxPartialWrite then
      let _ ← transact (← Step.ofExcept (Request.writePartial number offset.toNat data))
    else writeInPieces number offset.toNat data c.maxPartialWrite

/-- Writes a table. -/
def writeTable (d : Descriptor) (data : Bytes) : Step Client Unit := settle (writeActive d data)

/-! ## Procedures -/

/-- Reads the result of a procedure that was started with `request`. -/
def procedureResult (number : UInt16) (sequence : UInt8) (request : Bytes) :
    Step Client (Except Fault Bytes) := do
  let table ← readActive (.full procedureResponseTable)
  let response ← Step.ofExcept (ProcedureResponse.ofTable table.data)
  if response.number ≠ request.take 2 ∨ response.sequence ≠ sequence then
    throw (.protocol (.procedureMismatch (response.number.getD 0 0) (response.number.getD 1 0)
      response.sequence number.toNat sequence.toNat))
  return response.completedData

/-- Reads the result of a procedure, again up to `retries` times while it is not completed. -/
def awaitProcedure (number : UInt16) (sequence : UInt8) (request : Bytes) :
    (retries : Nat) → Step Client Bytes
  | 0 => do Step.ofExcept (← procedureResult number sequence request)
  | retries + 1 => do
    match ← procedureResult number sequence request with
    | .ok data => return data
    | .error e =>
      if !e.isRetryable then throw e
      onChannel (Channel.sleep (← get).config.procedureRetryDelay)
      awaitProcedure number sequence request retries

/-- Runs a procedure of an active session. -/
def procedureActive (number : UInt16) (parameters : Bytes) : Step Client Bytes := do
  ensureActive
  let c ← get
  let sequence := c.procedureSequence
  set { c with procedureSequence := sequence + 1 }
  let request := (ProcedureRequest.mk number sequence parameters).bytes c.config.procedureNumberLittleEndian
  writeActive (.full procedureRequestTable) request
  awaitProcedure number sequence request c.config.procedureRetries.toNat

/-- Runs a procedure and returns what it gave. -/
def runProcedure (number : UInt16) (parameters : Bytes) : Step Client Bytes :=
  settle (procedureActive number parameters)

/-! ## Waiting -/

/-- Asks the meter to keep an active session for a number of seconds. -/
def waitActive (seconds : Nat) : Step Client Unit := do
  let request ← Step.ofExcept (Request.wait seconds)
  ensureActive
  let _ ← transact request

/-- Asks the meter to keep the session for a number of seconds. -/
def wait (seconds : Nat) : Step Client Unit := settle (waitActive seconds)

end Metering.Client
