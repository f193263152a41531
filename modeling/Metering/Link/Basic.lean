import Metering.Channel.Write
import Metering.Config
import Metering.Packet
set_option autoImplicit false

/-! # The packet link

A link sends a message as packets, each acknowledged by the other side, and puts the packets of a
response together again. It knows what was agreed on with the meter (`Link.packetSize`,
`Link.maxPackets`), the toggle bit of the next packet to send, and the toggle bit and checksum of the
last packet it accepted, by which it tells a repeat from something new.

A `Linked` is a link at work on a channel. -/

namespace Metering

/-! ## Parameters -/

/-- What a link goes by, as configured or as agreed with the meter. -/
structure LinkParameters where
  identity : UInt8
  dataFormat : UInt8
  packetSize : UInt16
  maxPackets : UInt8
  acknowledgement : Duration
  intercharacter : Duration
  traffic : Duration
  turnaround : Duration
  retries : UInt8
  deriving DecidableEq, Repr

/-- The parameters of a configuration. -/
def LinkParameters.ofConfig (c : Config) : LinkParameters where
  identity := c.identity
  dataFormat := c.dataFormat
  packetSize := c.packetSize
  maxPackets := c.maxPackets
  acknowledgement := c.acknowledgementTimeout
  intercharacter := c.intercharacterTimeout
  traffic := c.channelTrafficTimeout
  turnaround := c.turnaroundDelay
  retries := c.linkRetries

/-! ## Limits -/

/-- Code, count and checksum around the data of a read. -/
def readOverhead : Nat := 4

/-- Service, table, count and checksum around the data of a write. -/
def writeOverhead : Nat := 7

/-- Service, table, offset, count and checksum around the data of a write to a range. -/
def partialWriteOverhead : Nat := 9

/-- The most table data that one request or response carries. -/
structure LinkLimits where
  maxRead : Nat
  maxWrite : Nat
  maxPartialWrite : Nat
  deriving DecidableEq, Repr

/-- The limits of a packet size and count. -/
def LinkLimits.ofPackets (packetSize maxPackets : Nat) : LinkLimits :=
  let capacity := (packetSize - packetOverhead) * maxPackets
  let limit := fun overhead => min (capacity - overhead) 0xFFFF
  { maxRead := limit readOverhead, maxWrite := limit writeOverhead,
    maxPartialWrite := limit partialWriteOverhead }

/-! ## Links -/

/-- What a link has counted. -/
structure LinkStatistics where
  sent : Nat := 0
  received : Nat := 0
  retransmissions : Nat := 0
  checksumErrors : Nat := 0
  lengthErrors : Nat := 0
  duplicates : Nat := 0
  sequenceErrors : Nat := 0
  deriving DecidableEq, Repr

/-- The counters in their order. -/
def LinkStatistics.toList (s : LinkStatistics) : List Nat :=
  [s.sent, s.received, s.retransmissions, s.checksumErrors, s.lengthErrors, s.duplicates, s.sequenceErrors]

/-- The packet link of one session. -/
structure Link where
  parameters : LinkParameters
  /-- The agreed packet size. -/
  packetSize : UInt16
  /-- The agreed number of packets of a message. -/
  maxPackets : UInt8
  nextToggle : Bool := false
  /-- Toggle bit and checksum of the last accepted packet. -/
  lastReceived : Option (Bool × UInt16) := none
  incomingIdentity : UInt8 := 0
  statistics : LinkStatistics := {}
  /-- The lengths of the response after each accepted packet, oldest first. -/
  reports : List Nat := []
  deriving DecidableEq, Repr

namespace Link

/-- A link on which nothing was agreed yet. -/
def ofParameters (p : LinkParameters) : Link :=
  { parameters := p, packetSize := p.packetSize, maxPackets := p.maxPackets }

/-- The limits of what was agreed on. -/
def limits (l : Link) : LinkLimits := .ofPackets l.packetSize.toNat l.maxPackets.toNat

/-- The most data bytes of a packet to be accepted. -/
def maxData (l : Link) : Nat := l.packetSize.toNat - packetOverhead

/-- Back to the parameters, with no toggle bit known. -/
def reset (l : Link) : Link :=
  { l with
    packetSize := l.parameters.packetSize
    maxPackets := l.parameters.maxPackets
    nextToggle := false
    lastReceived := none }

/-- Forgets the toggle bit of the meter. -/
def forget (l : Link) : Link := { l with lastReceived := none }

/-- Takes on what the meter answered to negotiate. It may only lower what was asked for; a packet
size below the least one or no packets at all are refused, and then nothing changes. -/
def applyNegotiated (packetSize : UInt16) (maxPackets : UInt8) : Step Link UInt16 := do
  let l ← get
  let requested := l.parameters.packetSize
  let size := min requested packetSize
  if size.toNat < minPacketSize then
    throw (.numberOutOfRange .negotiatedPacketSize size.toNat minPacketSize
      (min requested.toNat maxPacketSize))
  if maxPackets = 0 then
    throw (.numberOutOfRange .negotiatedPacketCount 0 1 l.parameters.maxPackets.toNat)
  set { l with packetSize := size, maxPackets := min maxPackets (max l.parameters.maxPackets 1) }
  return size

/-- Takes on timing values. -/
def applyTiming (traffic intercharacter acknowledgement : Duration) (retries : UInt8) (l : Link) : Link :=
  { l with parameters := { l.parameters with traffic, intercharacter, acknowledgement, retries } }

end Link

/-! ## Links at work -/

/-- A link and the channel it works on. -/
structure Linked where
  channel : Channel
  link : Link

namespace Linked

variable {α : Type}

/-- Runs a step of the channel. -/
def onChannel (x : Step Channel α) : Step Linked α :=
  Step.within Linked.channel (fun s channel => { s with channel }) x

/-- Runs a step of the link. -/
def onLink (x : Step Link α) : Step Linked α :=
  Step.within Linked.link (fun s link => { s with link }) x

/-- Changes the link. -/
def changeLink (f : Link → Link) : Step Linked Unit := modify fun s => { s with link := f s.link }

/-- Changes the counters. -/
def count (f : LinkStatistics → LinkStatistics) : Step Linked Unit :=
  changeLink fun l => { l with statistics := f l.statistics }

/-- The parameters of the link. -/
def parameters : Step Linked LinkParameters := return (← get).link.parameters

/-- Sends an acknowledgement, or asks for a packet again. -/
def writeControl (byte : UInt8) : Step Linked Unit := do
  let _ ← onChannel (Channel.write [byte] (← parameters).acknowledgement)

/-- Leaves the line alone before sending. -/
def turnAround : Step Linked Unit := do onChannel (Channel.sleep (← parameters).turnaround)

/-- The answers that the far end has left. -/
def answersLeft (s : Linked) : Nat := s.channel.line.answers.length

/-- The number of bytes still to be read. -/
def waiting (s : Linked) : Nat := s.channel.line.waiting + s.channel.input.length

end Linked

/-- Faults after which the same packet may be tried again. -/
def Fault.allowsPacketAgain : Fault → Bool
  | .readTimeout _ | .writeTimeout _ | .frameInvalid _ | .protocol _ => true
  | _ => false

end Metering
