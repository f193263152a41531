import Metering.Channel.Basic
set_option autoImplicit false

/-! # Reading from a channel

Every read is a loop around `fill`, which waits for the line once and moves what arrives into the
ring. A round that goes on has taken at least one byte from the line, so a loop has at most one
round more than there are bytes to come. -/

namespace Metering.Channel

/-- How a wait for the line ended. -/
inductive Fill where
  | data
  | elapsed
  deriving DecidableEq, Repr

/-- Waits for the line until a deadline and keeps what arrives. The channel is lost when the far
end closes or the line fails. -/
def fill (deadline : Moment) : Step Channel Fill := do
  let c ← get
  let (deadline, byOperation) := c.capped deadline
  match ← orDrop (Line.read deadline (!c.window.isActive) readChunk) with
  | .cancelled => honourCancel
  | .elapsed =>
    noteDeadline byOperation
    return .elapsed
  | .ended =>
    drop
    throw .disconnected
  | .data bytes =>
    modify fun c => { c with input := c.input.put bytes }
    count fun s => { s with received := s.received + bytes.length }
    return .data

/-- Repeats a round of reading until it gives a result. -/
def rounds {α β : Type} (round : α → Step Channel (α ⊕ β)) (a : α) : Step Channel β := do
  Step.repeatUpTo round ((← get).line.waiting + 1) a

/-- Counts a read that ran out of time. -/
def failTimeout {α : Type} (bytesRead : Nat) : Step Channel α := do
  count fun s => { s with readTimeouts := s.readTimeouts + 1 }
  throw (.readTimeout bytesRead)

/-- How long a read may take: all of it until one moment, or each byte some time after the one
before. -/
inductive Patience where
  | whole (deadline : Moment)
  | each (timeout : Duration)
  deriving DecidableEq, Repr

/-- The deadline of the first byte, from a given moment on. -/
def Patience.first (now : Moment) : Patience → Moment
  | .whole deadline => deadline
  | .each timeout => now + timeout

/-- One round of waiting for `wanted` bytes in the ring. -/
def fillRound (wanted : Nat) (patience : Patience) (deadline : Moment) : Step Channel (Moment ⊕ Unit) := do
  if (← get).input.length ≥ wanted then return .inr ()
  match ← fill deadline with
  | .elapsed => failTimeout (← get).input.length
  | .data =>
    let c ← get
    match patience with
    | .whole _ => return .inl deadline
    | .each _ => return .inl (if c.intercharacter = 0 then deadline else c.now + c.intercharacter)

/-- Waits until `wanted` bytes are in the ring. The first byte has to come within the timeout and
each further one within the silence the channel allows, unless that is zero. -/
def fillTo (wanted : Nat) (patience : Patience) : Step Channel Unit := do
  rounds (fillRound wanted patience) (patience.first (← get).now)

/-- Takes up to `count` bytes out of the ring. -/
def take (count : Nat) : Step Channel Bytes := do
  let c ← get
  let (bytes, input) := c.input.get count
  set { c with input }
  return bytes

/-- Reads what there is, up to `max` bytes; waits for the first one. -/
def read (max : Nat) (timeout : Duration) : Step Channel Bytes := do
  ensureConnected
  fillTo 1 (.each timeout)
  take max

/-- Reads exactly `count` bytes. What had arrived before a timeout is dropped. -/
def readExactly (count : Nat) (patience : Patience) : Step Channel Bytes := do
  ensureConnected
  match ← (fillTo count patience).outcome with
  | .ok () => take count
  | .error e =>
    if e.isTimeout then clearRing
    throw e

/-- Reads exactly `count` bytes within a timeout. -/
def readExact (count : Nat) (timeout : Duration) : Step Channel Bytes := readExactly count (.each timeout)

/-- Reads exactly `count` bytes, all of them before a deadline. -/
def readExactUntil (count : Nat) (deadline : Moment) : Step Channel Bytes :=
  readExactly count (.whole deadline)

/-- Waits for `count` bytes and leaves them unread. -/
def peekExact (count : Nat) (timeout : Duration) : Step Channel Bytes := do
  ensureConnected
  fillTo count (.each timeout)
  return (← get).input.peek count

/-- Drops up to `count` received bytes and says how many. -/
def discard (count : Nat) : Step Channel Nat := do
  let c ← get
  set { c with input := c.input.discard count }
  return c.input.discarded count

/-- Pushes bytes back; the next read gives them first. -/
def unread (bytes : Bytes) : Step Channel Unit := modify fun c => { c with input := c.input.unget bytes }

/-! ## Start bytes -/

/-- One round of looking for a wanted byte, when `garbage` bytes were passed over. -/
def startRound (wanted : Bytes) (deadline : Moment) (garbage : Nat) : Step Channel (Nat ⊕ UInt8) := do
  let c ← get
  let ((dropped, found), input) := c.input.discardUntil wanted
  set { c with input }
  let garbage := garbage + dropped
  match found, input.peekByte? 0 with
  | true, some byte => return .inr byte
  | _, _ =>
    match ← fill deadline with
    | .elapsed => failTimeout garbage
    | .data => return .inl garbage

/-- Passes over garbage until a wanted byte arrives, and leaves that one unread. -/
def waitStart (wanted : Bytes) (timeout : Duration) : Step Channel UInt8 := do
  ensureConnected
  rounds (startRound wanted ((← get).now + timeout)) 0

/-- Passes over garbage until a wanted byte arrives, and takes it. -/
def readStart (wanted : Bytes) (timeout : Duration) : Step Channel UInt8 := do
  let byte ← waitStart wanted timeout
  let _ ← discard 1
  return byte

/-! ## Dropping input -/

/-- One round of dropping what is ready on the line. -/
def clearRound (_ : Unit) : Step Channel (Unit ⊕ Unit) := do
  match ← onLine (Line.read (← get).now false readChunk) with
  | .data _ => return .inl ()
  | .ended =>
    drop
    throw .disconnected
  | _ => return .inr ()

/-- Drops what was received and what is ready on the line. -/
def clearInput : Step Channel Unit := do
  ensureConnected
  clearRing
  rounds clearRound ()

/-- One round of dropping what arrives. -/
def silenceRound (silence : Duration) (_ : Unit) : Step Channel (Unit ⊕ Unit) := do
  match ← fill ((← get).now + silence) with
  | .data =>
    clearRing
    return .inl ()
  | .elapsed => return .inr ()

/-- Drops everything until the line is silent for a while. -/
def clearUntilSilence (silence : Duration) : Step Channel Unit := do
  ensureConnected
  clearRing
  rounds (silenceRound silence) ()

end Metering.Channel
