import Metering.Ber.Length
import Metering.Ber.Uid
import Metering.Step
set_option autoImplicit false

/-! # Reading elements back

A reader is a place in a run of received bytes. Reading moves it forward. A read that finds too
few bytes reports how many there would have to be and how many there are, and takes none of
them; a read of several parts may fail after some of them were taken. -/

namespace Metering

/-- A place in received bytes. -/
structure Reader where
  /-- The number of bytes already read. -/
  position : Nat
  /-- The bytes still to be read. -/
  rest : Bytes
  deriving DecidableEq, Repr

namespace Reader

/-- A reader at the start of `bytes`. -/
def ofBytes (bytes : Bytes) : Reader := ⟨0, bytes⟩

/-- The number of bytes still to be read. -/
def remaining : Step Reader Nat := do return (← get).rest.length

/-- What a read of `wanted` bytes reports when they are not there. -/
def short (r : Reader) (wanted : Nat) : Fault :=
  .partialData (r.position + wanted) (r.position + r.rest.length)

/-- Takes `count` bytes. -/
def take (count : Nat) : Step Reader Bytes := do
  let r ← get
  if r.rest.length < count then throw (r.short count)
  set (Reader.mk (r.position + count) (r.rest.drop count))
  return r.rest.take count

/-- Passes over `count` bytes. -/
def skip (count : Nat) : Step Reader Unit := do
  let _ ← take count

/-- Takes one byte. -/
def byte : Step Reader UInt8 := do return (← take 1).getD 0 0

/-- Takes a number of `width` bytes. -/
def number (width : Nat) : Step Reader Nat := do return Bytes.ofBigEndian (← take width)

/-- Takes a length; it may have up to three bytes after the first. -/
def length : Step Reader Nat := do
  let first ← byte
  if first < 0x80 then return first.toNat
  let octets := first.toNat % 128
  if octets = 0 ∨ octets > 3 then throw (.invalidData (.lengthOctets octets))
  number octets

/-- Takes an identifier: kind, length, identifier. -/
def uid : Step Reader String := do
  let kind ← byte
  if kind ≠ Uid.absoluteTag ∧ kind ≠ Uid.relativeTag ∧ kind ≠ Uid.otherRelativeTag then
    throw (.invalidData (.identifierTag kind))
  let n ← length
  let bytes ← take n
  Step.ofExcept (Uid.decode bytes (kind ≠ Uid.absoluteTag))

/-- Takes an integer of one to four bytes: tag, length, value. -/
def integer : Step Reader UInt32 := do
  let kind ← byte
  let n ← length
  if kind ≠ Ber.integerTag ∨ n = 0 ∨ n > 4 then throw (.invalidData (.badInteger kind n))
  return UInt32.ofNat (← number n)

/-- What a step of reading makes of `bytes`. -/
def parse {α : Type} (x : Step Reader α) (bytes : Bytes) : Except Fault α := (x.run (ofBytes bytes)).1

end Reader

end Metering
