import Metering.Medium
set_option autoImplicit false

/-! # Pairs of ends

Two ends within one program are joined by two pipes, one each way. A pipe holds a limited number of
bytes. An end that is closed, or gone, closes the pipe it writes to; the other end can still read
what is in it. An end that is gone also closes the pipe it reads from. -/

namespace Metering

/-- Bytes on their way from one end to the other. -/
structure Pipe where
  contents : Bytes := []
  /-- Nothing more can be written. -/
  closed : Bool := false
  deriving DecidableEq, Repr

namespace Pipe

/-- The most bytes in a pipe. -/
def capacity : Nat := 64 * 1024

/-- Takes up to `max` bytes out: none while there may still come some, no bytes at the end. -/
def read (max : Nat) (p : Pipe) : Option Bytes × Pipe :=
  if !p.contents.isEmpty then
    (some (p.contents.take max), { p with contents := p.contents.drop max })
  else if p.closed then (some [], p)
  else (none, p)

/-- Puts in as many bytes as fit and says how many; none while the pipe is full. -/
def write (bytes : Bytes) (p : Pipe) : Except Fault (Option Nat × Pipe) :=
  if p.closed then .error (.connection .brokenPipe)
  else
    let room := capacity - p.contents.length
    if room = 0 then .ok (none, p)
    else .ok (some (min bytes.length room), { p with contents := p.contents ++ bytes.take room })

/-- Ends the writing. -/
def close (p : Pipe) : Pipe := { p with closed := true }

end Pipe

/-- One of the two ends. -/
inductive Side where
  | first
  | second
  deriving DecidableEq, Repr

/-- The other end. -/
def Side.other : Side → Side
  | first => second
  | second => first

/-- Two ends and the pipes between them. -/
structure MemoryPair where
  /-- The pipe an end reads from. -/
  inbox : Side → Pipe := fun _ => {}
  isClosed : Side → Bool := fun _ => false
  /-- The end is no longer there. -/
  gone : Side → Bool := fun _ => false

namespace MemoryPair

variable {α : Type}

/-- The kind of the medium. -/
def kind : MediumKind := .memory

/-- A function changed at one end. -/
def updated (f : Side → α) (side : Side) (a : α) : Side → α := fun s => if s = side then a else f s

/-- Reads at an end. No bytes count as the end of the stream, also where none were asked for. -/
def read (side : Side) (max : Nat) (p : MemoryPair) : Option Bytes × MemoryPair :=
  let (bytes, pipe) := (p.inbox side).read max
  let p := { p with inbox := updated p.inbox side pipe }
  if bytes = some [] then (bytes, { p with isClosed := updated p.isClosed side true }) else (bytes, p)

/-- Writes at an end. -/
def write (side : Side) (bytes : Bytes) (p : MemoryPair) : Except Fault (Option Nat) × MemoryPair :=
  match (p.inbox side.other).write bytes with
  | .error e => (.error e, p)
  | .ok (count, pipe) => (.ok count, { p with inbox := updated p.inbox side.other pipe })

/-- Writes all bytes at an end: whether they fitted. -/
def writeAll (side : Side) (bytes : Bytes) (p : MemoryPair) : Except Fault Bool × MemoryPair :=
  if bytes.isEmpty then (.ok true, p)
  else match p.write side bytes with
    | (.error e, p) => (.error e, p)
    | (.ok count, p) => (.ok (count = some bytes.length), p)

/-- Closes an end; the other one reads the end of the stream after what is in the pipe. -/
def close (side : Side) (p : MemoryPair) : MemoryPair :=
  { p with inbox := updated p.inbox side.other (p.inbox side.other).close
           isClosed := updated p.isClosed side true }

/-- An end counts as open again; its pipes stay as they are. -/
def openUp (side : Side) (p : MemoryPair) : MemoryPair :=
  { p with isClosed := updated p.isClosed side false }

/-- An end goes away and closes both pipes. -/
def leave (side : Side) (p : MemoryPair) : MemoryPair :=
  { p with inbox := fun s => (p.inbox s).close, gone := updated p.gone side true }

end MemoryPair

end Metering
