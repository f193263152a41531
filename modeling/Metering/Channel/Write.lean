import Metering.Channel.Read
set_option autoImplicit false

/-! # Writing to a channel

A write runs within a window from its first byte to the last byte of its echo. On a medium that
echoes, the bytes heard after a write have to be the bytes written; others are those of another
station that transmitted at the same time. -/

namespace Metering.Channel

/-- One round of handing bytes to the line: those that are left, after `written` ones. -/
def writeRound (deadline : Moment) : Bytes × Nat → Step Channel ((Bytes × Nat) ⊕ Nat)
  | (left, written) => do
    if left.isEmpty then return .inr written
    match ← orDrop (Line.write (some deadline) left) with
    | none => throw (.writeTimeout written)
    | some 0 =>
      drop
      throw .disconnected
    | some n => return .inl (left.drop n, written + n)

/-- One round of reading the echo of `sent`. -/
def echoRound (sent : Bytes) (timeout : Duration) (deadline : Moment) : Step Channel (Moment ⊕ Unit) := do
  let c ← get
  let available := min c.input.length sent.length
  if c.input.peek available ≠ sent.take available then
    clearRing
    count fun s => { s with collisions := s.collisions + 1 }
    throw .collision
  if available = sent.length then
    let _ ← discard available
    return .inr ()
  match ← fill deadline with
  | .data => return .inl ((← get).now + timeout)
  | .elapsed => throw (.writeTimeout available)

/-- Reads the echo of `sent` and compares it. -/
def checkEcho (sent : Bytes) (timeout : Duration) : Step Channel Unit := do
  rounds (echoRound sent timeout) ((← get).now + timeout)

/-- Hands bytes to the line and flushes it, within a timeout, and reads the echo. -/
def transmit (bytes : Bytes) (timeout : Duration) : Step Channel Nat := do
  let deadline := (← get).now + timeout
  let written ← Step.repeatUpTo (writeRound deadline) (bytes.length + 1) (bytes, 0)
  if !(← onLine (Line.flush (some deadline))) then throw (.writeTimeout written)
  count fun s => { s with sent := s.sent + bytes.length }
  let c ← get
  if c.line.echoes then
    checkEcho bytes (if c.intercharacter = 0 then timeout else c.intercharacter)
  return written

/-- Writes all bytes within a timeout and says how many those were. -/
def write (bytes : Bytes) (timeout : Duration) : Step Channel Nat := do
  ensureConnected
  checkCancelled
  inWindow (transmit bytes timeout)

end Metering.Channel
