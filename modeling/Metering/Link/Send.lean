import Metering.Link.Basic
set_option autoImplicit false

/-! # Sending messages

A packet that was sent is awaited to be acknowledged. A packet that comes instead belongs to an
earlier exchange: it is acknowledged and dropped, a limited number of times. After silence or a
refusal the packet is sent again. The toggle bit changes with every packet that got through. -/

namespace Metering.Linked

/-- The length that the bytes behind a start byte announce. -/
def announcedLength (header : Bytes) : Nat := Bytes.ofBigEndian ((header.drop 3).take 2)

/-- Reads what follows the start byte of a packet that is to be dropped. -/
def readStray : Step Linked Unit := do
  let timeout := (← parameters).intercharacter
  let header ← onChannel (Channel.readExact (packetHeaderLength - 1) timeout)
  let length := announcedLength header
  if length ≤ (← get).link.maxData then
    let _ ← onChannel (Channel.readExact (length + 2) timeout)

/-- Drops a packet; that it cannot be read is no matter, unless the line is gone or the caller asks
to stop. -/
def skipStray : Step Linked Unit := do
  match ← readStray.outcome with
  | .error .cancelled => throw .cancelled
  | .error .disconnected => throw .disconnected
  | _ => return ()

/-- Waits for an acknowledgement: whether it came, or a packet instead. -/
def acknowledged : Step Linked Bool := do
  let byte ← onChannel (Channel.readStart [ackByte, nakByte, startByte] (← parameters).acknowledgement)
  if byte = ackByte then return true
  if byte = nakByte then
    onChannel Channel.clearInput
    throw (.protocol (.unexpectedCharacter ackByte nakByte))
  return false

/-- Waits for an acknowledgement and drops up to `strays` packets that come before it. -/
def awaitAcknowledgement : (strays : Nat) → Step Linked Unit
  | 0 => do
    if !(← acknowledged) then throw (.protocol (.unexpectedCharacter ackByte startByte))
  | strays + 1 => do
    if !(← acknowledged) then
      skipStray
      turnAround
      writeControl ackByte
      awaitAcknowledgement strays

/-- Sends the bytes of a packet and waits for the acknowledgement. -/
def sendPacket (bytes : Bytes) : Step Linked Unit := do
  let p ← parameters
  turnAround
  let _ ← onChannel (Channel.write bytes p.traffic)
  count fun s => { s with sent := s.sent + 1 }
  awaitAcknowledgement p.retries.toNat

/-- The packet may be sent once more after a fault. -/
def mayResend (e : Fault) : Step Linked Bool :=
  return e.allowsPacketAgain && !(← get).channel.deadlineHit

/-- Sends the bytes of a packet, again up to `retries` times. -/
def sendRepeatedly (bytes : Bytes) : (retries : Nat) → Step Linked Unit
  | 0 => sendPacket bytes
  | retries + 1 => do
    match ← (sendPacket bytes).outcome with
    | .ok () => return ()
    | .error e =>
      if ← mayResend e then
        count fun s => { s with retransmissions := s.retransmissions + 1 }
        sendRepeatedly bytes retries
      else throw e

/-- Sends packets one after the other, with alternating toggle bits. -/
def sendPackets : List Packet → Step Linked Unit
  | [] => return ()
  | packet :: rest => do
    let l := (← get).link
    let bytes ← Step.ofExcept { packet with control := packet.control.withToggle l.nextToggle }.encode
    sendRepeatedly bytes l.parameters.retries.toNat
    changeLink fun l => { l with nextToggle := !l.nextToggle }
    sendPackets rest

/-- Sends a message. -/
def sendMessage (message : Bytes) : Step Linked Unit := do
  let l := (← get).link
  let packets ←
    Step.ofExcept (Packet.split l.parameters.identity l.parameters.dataFormat message l.packetSize.toNat)
  sendPackets packets

end Metering.Linked
