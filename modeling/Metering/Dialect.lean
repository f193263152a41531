set_option autoImplicit false

/-! # Dialects

Three standards share the services and the tables and differ in how they frame a request, how
they check a frame and how they open a session. Everything that differs is in one record,
`Capabilities`. -/

namespace Metering

/-- A member of the protocol family. -/
inductive Dialect where
  /-- Optical port and direct serial line. -/
  | c1218
  /-- Telephone modem: packets, with authentication and timing setup. -/
  | c1221
  /-- Networks: application protocol data units that can be secured. -/
  | c1222
  deriving DecidableEq, Repr

/-- How requests are framed. -/
inductive Framing where
  | packet
  | apdu
  deriving DecidableEq, Repr

/-- How a received frame is checked. -/
inductive Checksum where
  | crc16
  /-- Only where the frame is secured. -/
  | eaxTag
  deriving DecidableEq, Repr

/-- How the client proves who it is while a session starts. -/
inductive Handshake where
  | password
  | passwordOrAuthenticate
  | eaxPrime
  deriving DecidableEq, Repr

/-- The way of framing in program text. -/
def Framing.identifier : Framing → String
  | packet => "Packet"
  | apdu => "Apdu"

/-- The check in program text. -/
def Checksum.identifier : Checksum → String
  | crc16 => "Crc16"
  | eaxTag => "EaxTag"

/-- The proof in program text. -/
def Handshake.identifier : Handshake → String
  | password => "Password"
  | passwordOrAuthenticate => "PasswordOrAuthenticate"
  | eaxPrime => "EaxPrime"

/-- Everything in which dialects differ. -/
structure Capabilities where
  framing : Framing
  checksum : Checksum
  handshake : Handshake
  /-- The session passes through a phase of its own for security. -/
  securityPhase : Bool
  identify : Bool
  negotiate : Bool
  /-- Negotiate may ask for a line speed. -/
  negotiateBaud : Bool
  timingSetup : Bool
  /-- Sequence numbers count modulo this: the toggle bit or the invocation id. -/
  sequenceModulus : Nat
  deriving DecidableEq, Repr

namespace Dialect

/-- What a dialect can do. -/
def capabilities : Dialect → Capabilities
  | c1218 =>
    { framing := .packet, checksum := .crc16, handshake := .password, securityPhase := false,
      identify := true, negotiate := true, negotiateBaud := true, timingSetup := false,
      sequenceModulus := 2 }
  | c1221 =>
    { framing := .packet, checksum := .crc16, handshake := .passwordOrAuthenticate,
      securityPhase := false, identify := true, negotiate := true, negotiateBaud := false,
      timingSetup := true, sequenceModulus := 2 }
  | c1222 =>
    { framing := .apdu, checksum := .eaxTag, handshake := .eaxPrime, securityPhase := true,
      identify := false, negotiate := false, negotiateBaud := false, timingSetup := false,
      sequenceModulus := 4294967296 }

/-- All dialects. -/
def all : List Dialect := [c1218, c1221, c1222]

/-- The name of the standard. -/
def name : Dialect → String
  | c1218 => "C12.18"
  | c1221 => "C12.21"
  | c1222 => "C12.22"

/-- The name in program text. -/
def identifier : Dialect → String
  | c1218 => "C1218"
  | c1221 => "C1221"
  | c1222 => "C1222"

end Dialect

end Metering
