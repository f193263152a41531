import Metering.Crc
set_option autoImplicit false

/-! # Packets

A packet is a start byte, an identity, a control byte, a sequence number, the length of the
data, the data and a checksum over all of it. A message longer than a packet is cut into
several; the sequence number counts the packets still to come, so the last one has zero. -/

namespace Metering

/-- The byte every packet starts with. -/
def startByte : UInt8 := 0xEE

/-- The byte that acknowledges a packet. -/
def ackByte : UInt8 := 0x06

/-- The byte that asks for a packet again. -/
def nakByte : UInt8 := 0x15

/-- Start, identity, control, sequence and length. -/
def packetHeaderLength : Nat := 6

/-- The header and the checksum. -/
def packetOverhead : Nat := 8

/-! ## The control byte -/

/-- The control byte of a packet. -/
structure Control where
  byte : UInt8
  deriving DecidableEq, Repr

namespace Control

/-- The packet is one of several. -/
def isMulti (c : Control) : Bool := c.byte &&& 0x80 ≠ 0

/-- The packet is the first of several. -/
def isFirst (c : Control) : Bool := c.byte &&& 0x40 ≠ 0

/-- The bit that changes from packet to packet. -/
def toggle (c : Control) : Bool := c.byte &&& 0x20 ≠ 0

/-- The data format. -/
def dataFormat (c : Control) : UInt8 := c.byte &&& 0x03

/-- The control byte with the toggle bit as given. -/
def withToggle (c : Control) (toggle : Bool) : Control :=
  if toggle then ⟨c.byte ||| 0x20⟩ else ⟨c.byte &&& 0xDF⟩

end Control

/-! ## Packets -/

/-- One packet. -/
structure Packet where
  identity : UInt8
  control : Control
  sequence : UInt8
  data : Bytes
  deriving DecidableEq, Repr

namespace Packet

/-- The bytes up to the checksum. -/
def body (p : Packet) : Bytes :=
  [startByte, p.identity, p.control.byte, p.sequence] ++ Bytes.bigEndian 2 p.data.length ++ p.data

/-- The bytes on the wire. The length field holds two bytes. -/
def encode (p : Packet) : Except Fault Bytes :=
  if p.data.length > 0xFFFF then
    .error (.numberOutOfRange .packetDataLength p.data.length 0 0xFFFF)
  else .ok (p.body ++ Bytes.littleEndian 2 (Crc.ofBytes p.body).toNat)

/-- The packet that is exactly `bytes`. Start byte, length and checksum have to be right. -/
def decode (bytes : Bytes) : Except Fault Packet := do
  if bytes.length < packetOverhead then
    throw (.frameInvalid (.packetShort bytes.length))
  if bytes.getD 0 0 ≠ startByte then
    throw (.frameInvalid (.packetStart (bytes.getD 0 0) startByte))
  let length := Bytes.ofBigEndian ((bytes.drop 4).take 2)
  if bytes.length ≠ length + packetOverhead then
    throw (.frameInvalid (.packetLength length bytes.length))
  (Crc.start.update bytes).validate
  return {
    identity := bytes.getD 1 0
    control := ⟨bytes.getD 2 0⟩
    sequence := bytes.getD 3 0
    data := (bytes.drop packetHeaderLength).take length }

/-- The checksum at the end of the encoded packet. -/
def crc (p : Packet) : Except Fault Nat := do
  let bytes ← p.encode
  return Bytes.ofLittleEndian (bytes.drop (bytes.length - 2))

/-- Nothing follows in the message. -/
def isLast (p : Packet) : Bool := !p.control.isMulti || p.sequence = 0

/-- The text for diagnostics. -/
def text (p : Packet) : String :=
  "Packet \x7b identity: " ++ toString p.identity.toNat ++ ", control: 0x" ++
    Bytes.hexByte p.control.byte ++ ", sequence: " ++ toString p.sequence.toNat ++ ", data: \"" ++
    Bytes.dump p.data ++ "\" \x7d"

/-! ## Cutting a message -/

/-- The control byte of packet number `index` of `count`, toggle bit clear. -/
def controlOf (dataFormat : UInt8) (count index : Nat) : Control :=
  if count ≤ 1 then ⟨dataFormat &&& 0x03⟩ else if index = 0 then ⟨0xC0⟩ else ⟨0x80⟩

/-- Cuts a message into packets of at most `packetSize` bytes. An empty message is one packet;
more than 256 packets cannot be counted. -/
def split (identity dataFormat : UInt8) (message : Bytes) (packetSize : Nat) :
    Except Fault (List Packet) :=
  if packetSize ≤ packetOverhead then
    .error (.numberOutOfRange .packetSize packetSize (packetOverhead + 1) 0xFFFF)
  else
    let pieces := if message.isEmpty then [message] else Bytes.chunks (packetSize - packetOverhead) message
    let count := pieces.length
    if count > 256 then .error (.numberOutOfRange .packetsOfMessage count 1 256)
    else .ok (pieces.mapIdx fun index piece =>
      { identity, control := controlOf dataFormat count index,
        sequence := UInt8.ofNat (count - 1 - index), data := piece })

end Packet

end Metering
