import Metering.Link.Send
set_option autoImplicit false

/-! # Receiving messages

Every good packet is acknowledged. A damaged one is refused, and then expected again. A repeat of the
last accepted packet, known by its toggle bit and checksum, is acknowledged and dropped. A packet
with the toggle bit of the last accepted one and another checksum, or with a sequence number that does
not follow, spoils the response: the rest of it is received and the request has to be repeated. -/

namespace Metering.Linked

/-! ## One packet -/

/-- How long the line is left alone after a bad length, at most. -/
def maxBadLengthPause : Duration := Duration.ofMillis 1000

/-- Leaves the line alone after a bad length and drops what arrives. -/
def refuseLength (length : Nat) : Step Linked Unit := do
  count fun s => { s with lengthErrors := s.lengthErrors + 1 }
  onChannel (Channel.sleep (min (← parameters).acknowledgement maxBadLengthPause))
  onChannel Channel.clearInput
  throw (.frameInvalid (.inboundLength length))

/-- Reads one packet with its checksum. A wrong checksum is passed where it does not matter any
more. -/
def receivePacket (acceptDamaged : Bool) : Step Linked (Packet × UInt16) := do
  let p ← parameters
  let _ ← onChannel (Channel.readStart [startByte] p.acknowledgement)
  let header ← onChannel (Channel.readExact (packetHeaderLength - 1) p.intercharacter)
  let length := announcedLength header
  if length = 0 ∨ length > (← get).link.maxData then refuseLength length
  let rest ← onChannel (Channel.readExact (length + 2) p.intercharacter)
  let data := rest.take length
  let crc := UInt16.ofNat (Bytes.ofLittleEndian (rest.drop length))
  if crc ≠ Crc.ofBytes ([startByte] ++ header ++ data) ∧ !acceptDamaged then
    count fun s => { s with checksumErrors := s.checksumErrors + 1 }
    throw (.frameInvalid .checksum)
  turnAround
  return ({ identity := header.getD 0 0, control := ⟨header.getD 1 0⟩,
            sequence := header.getD 2 0, data }, crc)

/-! ## Assembling -/

/-- What is known of a response while it is received. -/
structure Assembly where
  message : Bytes := []
  /-- The response is spoiled; only its end is awaited. -/
  spoiled : Bool := false
  /-- The sequence number of the last packet. -/
  previous : Option UInt8 := none
  /-- The length of the message, as estimated from its first packet. -/
  declared : Option Nat := none
  deriving DecidableEq, Repr

/-- What came of receiving. -/
inductive Received where
  | message (bytes : Bytes)
  /-- The request has to be sent again. -/
  | repeatRequest
  deriving DecidableEq, Repr

/-- How a packet stands to the last accepted one. -/
inductive Standing where
  | new
  /-- The last accepted packet once more. -/
  | duplicate
  /-- Another packet with the same toggle bit. -/
  | misplaced
  deriving DecidableEq, Repr

/-- The standing of a packet with a checksum. -/
def standing (last : Option (Bool × UInt16)) (toggle : Bool) (crc : UInt16) : Standing :=
  match last with
  | none => .new
  | some (lastToggle, lastCrc) =>
    if lastToggle ≠ toggle then .new else if lastCrc = crc then .duplicate else .misplaced

/-- What a fault is reported as when nothing more is tried: silence after part of a message means
that the rest is missing. -/
def lastFault (a : Assembly) (e : Fault) : Fault :=
  match a.declared, e with
  | some declared, .readTimeout _ =>
    if a.spoiled then e else .partialData declared a.message.length
  | _, _ => e

/-- An accepted packet with its checksum; none if the request has to be repeated. -/
abbrev Accepted := Option (Packet × UInt16 × Assembly)

/-- Asks for a packet again after a pause, unless the channel is lost. -/
def refuse : Step Linked Unit := do
  turnAround
  if (← get).channel.connected then writeControl nakByte

/-- One try at a packet. `lost` says that a repeat of a whole earlier response was heard, and
`again` is what follows if there is a try left. -/
def tryPacket (a : Assembly) (lost : Bool) (again : Option (Bool → Step Linked Accepted)) :
    Step Linked Accepted := do
  match ← (receivePacket a.spoiled).outcome with
  | .ok (packet, crc) =>
    if a.spoiled then return some (packet, crc, a)
    match standing (← get).link.lastReceived packet.control.toggle crc with
    | .new => return some (packet, crc, a)
    | .duplicate =>
      count fun s => { s with duplicates := s.duplicates + 1 }
      writeControl ackByte
      match again with
      | none => throw (.protocol .toggleFailure)
      | some next => next (!packet.control.isMulti)
    | .misplaced =>
      changeLink Link.forget
      count fun s => { s with sequenceErrors := s.sequenceErrors + 1 }
      return some (packet, crc, { a with spoiled := true })
  | .error e =>
    if (← get).channel.deadlineHit then throw e
    if lost then
      changeLink fun l => { l with nextToggle := !l.nextToggle }
      return none
    if again.isNone && a.spoiled then return none
    if !e.allowsPacketAgain then throw e
    refuse
    match again with
    | none => throw (lastFault a e)
    | some next => next lost

/-- Waits for a packet that is not a repeat, and tries again up to `retries` times. -/
def awaitPacket (a : Assembly) : (retries : Nat) → (lost : Bool) → Step Linked Accepted
  | 0, lost => tryPacket a lost none
  | retries + 1, lost => tryPacket a lost (some (awaitPacket a retries))

/-- A packet does not follow the one before. -/
def breaksSequence (a : Assembly) (p : Packet) : Bool :=
  if p.control.isMulti && !p.control.isFirst then
    match a.previous with
    | none => true
    | some previous => previous - 1 ≠ p.sequence
  else a.previous.isSome

/-- The assembly with one more packet. -/
def Assembly.add (a : Assembly) (p : Packet) : Assembly :=
  { a with
    message := a.message ++ p.data
    previous := some p.sequence
    declared :=
      if p.control.isMulti && p.control.isFirst then some ((p.sequence.toNat + 1) * p.data.length)
      else a.declared }

/-- Adds an acknowledged packet to what is assembled. -/
def place (a : Assembly) (p : Packet) (crc : UInt16) : Step Linked Assembly := do
  if a.spoiled then return a
  if breaksSequence a p then
    changeLink Link.forget
    count fun s => { s with sequenceErrors := s.sequenceErrors + 1 }
    return { a with spoiled := true }
  let a := a.add p
  changeLink fun l =>
    { l with reports := l.reports ++ [a.message.length], lastReceived := some (p.control.toggle, crc) }
  return a

/-- Receives one packet of a message and acknowledges it. -/
def receiveRound (a : Assembly) : Step Linked (Assembly ⊕ Received) := do
  match ← awaitPacket a (← parameters).retries.toNat false with
  | none => return .inr .repeatRequest
  | some (packet, crc, a) =>
    count fun s => { s with received := s.received + 1 }
    changeLink fun l => { l with incomingIdentity := packet.identity }
    writeControl ackByte
    let a ← place a packet crc
    if packet.isLast then
      return .inr (if a.spoiled then .repeatRequest else .message a.message)
    else return .inl a

/-- Receives one message. -/
def receiveMessage : Step Linked Received := do
  Step.repeatWhileFed answersLeft waiting receiveRound (answersLeft (← get)) {}

end Metering.Linked
