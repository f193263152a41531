import Metering.Channel.Write
import Metering.Acse.Parameters
set_option autoImplicit false

/-! # APDUs on a stream

An APDU on a stream is its start tag, its length and that many bytes. One timeout holds for all of
it, except that an APDU which started in time gets a little longer for its remainder. -/

namespace Metering.Channel

/-- The time for the remainder of an APDU that started at the deadline. -/
def lateRemainder : Duration := Duration.ofMillis 1000

/-- The most bytes a length may have after its first. -/
def maxLengthOctets : Nat := 3

/-- The deadline for the next part of an APDU. -/
def remainderDeadline (deadline : Moment) : Step Channel Moment := do
  let now := (← get).now
  return if deadline ≤ now then now + lateRemainder else deadline

/-- The bytes after the first of a length, and the length. -/
def readLengthOctets (first : UInt8) (deadline : Moment) : Step Channel (Bytes × Nat) := do
  if first < 0x80 then return ([], first.toNat)
  let octets := first.toNat % 128
  if octets = 0 ∨ octets > maxLengthOctets then throw (.frameInvalid (.lengthOctets octets))
  let bytes ← readExactUntil octets (← remainderDeadline deadline)
  return (bytes, Bytes.ofBigEndian bytes)

/-- Reads one complete APDU with its start tag and length. -/
def readApdu (timeout : Duration) : Step Channel Bytes := do
  let deadline := (← get).now + timeout
  let _ ← readStart [Acse.apduTag] timeout
  let first := (← readExactUntil 1 (← remainderDeadline deadline)).getD 0 0
  let (octets, length) ← readLengthOctets first deadline
  let elements ←
    if length > 0 then readExactUntil length (← remainderDeadline deadline) else pure []
  return [Acse.apduTag, first] ++ octets ++ elements

/-- Writes one complete APDU after a delay. -/
def writeApdu (apdu : Bytes) (turnaround timeout : Duration) : Step Channel Unit := do
  if turnaround ≠ 0 then sleep turnaround
  let _ ← write apdu timeout

end Metering.Channel
