import Metering.Fault
import Metering.Time
set_option autoImplicit false

/-! # Configuration

What a caller chooses before a session: who logs on, how packets are cut and timed, how often
things are tried, and what belongs to one dialect only. `Config.validate` accepts exactly the
configurations whose fields fit the wire; it names the first field that does not. -/

namespace Metering

/-! ## Security modes -/

/-- How the body of an APDU is protected. -/
inductive SecurityMode where
  | clear
  | authenticated
  | encrypted
  deriving DecidableEq, Repr

/-- When the meter is to answer. -/
inductive ResponseControl where
  | always
  | onException
  | never
  deriving DecidableEq, Repr

namespace SecurityMode

/-- The two bits of the mode. -/
def bits : SecurityMode → Nat
  | clear => 0
  | authenticated => 1
  | encrypted => 2

/-- The mode of two bits; the value three is not used. -/
def ofBits? : Nat → Option SecurityMode
  | 0 => some clear
  | 1 => some authenticated
  | 2 => some encrypted
  | _ => none

/-- The body carries a tag. -/
def isSecure : SecurityMode → Bool
  | clear => false
  | _ => true

end SecurityMode

namespace ResponseControl

/-- The two bits of the control. -/
def bits : ResponseControl → Nat
  | always => 0
  | onException => 1
  | never => 2

/-- The control of two bits; the value three is not used. -/
def ofBits? : Nat → Option ResponseControl
  | 0 => some always
  | 1 => some onException
  | 2 => some never
  | _ => none

end ResponseControl

/-! ## Limits -/

/-- The smallest packet a link may agree on. -/
def minPacketSize : Nat := 32

/-- The largest packet a link may agree on. -/
def maxPacketSize : Nat := 8192

/-- The length of the user field of logon. -/
def userLength : Nat := 10

/-- The length of the password field of the security service. -/
def passwordLength : Nat := 20

/-- The length of the device class field. -/
def edClassLength : Nat := 4

/-- The application context of the network standard. -/
def standardContext : String := "2.16.124.113620.1.22"

/-- Where relative titles hang when no application context is given. -/
def standardNetwork : String := "2.16.124.113620.1.22.0"

/-! ## Options -/

/-- Options of sessions over a telephone line. -/
structure TelephoneOptions where
  /-- Ask for link timing after identify. -/
  issueTimingSetup : Bool := false
  /-- Prove the key with a ticket instead of sending the password. -/
  enableAuthentication : Bool := false
  /-- A key of 8 bytes for DES or 16 bytes for AES. -/
  authenticationKey : Bytes := List.replicate 8 0
  authenticationKeyId : UInt8 := 0
  deriving DecidableEq, Repr

/-- Options of sessions over a network. -/
structure NetworkOptions where
  /-- An absolute identifier; empty to leave the element out. -/
  applicationContext : String := standardContext
  /-- The identifier of the meter; a relative one starts with a period. -/
  calledTitle : String := ""
  /-- The identifier of this client. -/
  callingTitle : String := ""
  callingQualifier : Option UInt32 := none
  securityMode : SecurityMode := .clear
  responseControl : ResponseControl := .always
  /-- A key of 16 bytes. -/
  securityKey : Bytes := List.replicate 16 0
  securityKeyId : UInt8 := 0
  /-- Every request stands alone: no logon, no logoff. -/
  sessionless : Bool := false
  /-- End sessions with terminate instead of logoff. -/
  issueTerminate : Bool := false
  /-- How long the meter is asked to keep an idle session, in seconds. -/
  sessionIdleTimeout : UInt16 := 60
  /-- The time for a whole response. -/
  responseTimeout : Duration := Duration.ofSeconds 300
  maxOutgoing : UInt32 := 0x7FFF
  /-- The largest APDU to accept; zero means the same as outgoing. -/
  maxIncoming : UInt32 := 0
  /-- Up to four bytes of device class. -/
  edClass : Bytes := []
  /-- The first initialization vector, instead of the clock. -/
  initializationVector : Option UInt32 := none
  deriving DecidableEq, Repr

/-- The largest APDU to accept. -/
def NetworkOptions.effectiveMaxIncoming (o : NetworkOptions) : UInt32 :=
  if o.maxIncoming = 0 then o.maxOutgoing else o.maxIncoming

/-- Everything a caller chooses for a session. -/
structure Config where
  user : String := ""
  userId : UInt16 := 0
  password : Bytes := List.replicate passwordLength 0x30
  /-- The identity byte of packets. -/
  identity : UInt8 := 0
  /-- The data format bits of a packet's control byte. -/
  dataFormat : UInt8 := 0
  packetSize : UInt16 := 1024
  maxPackets : UInt8 := 255
  /-- The line speed to ask for; zero keeps the current one. -/
  sessionBaud : UInt32 := 0
  acknowledgementTimeout : Duration := Duration.ofMillis 2000
  intercharacterTimeout : Duration := Duration.ofMillis 500
  channelTrafficTimeout : Duration := Duration.ofMillis 6000
  turnaroundDelay : Duration := Duration.ofMillis 20
  linkRetries : UInt8 := 3
  /-- How often a busy meter is asked again. -/
  applicationRetries : UInt8 := 2
  applicationRetryDelay : Duration := Duration.ofMillis 2000
  /-- How often an uncompleted procedure is looked at again. -/
  procedureRetries : UInt8 := 20
  procedureRetryDelay : Duration := Duration.ofMillis 500
  /-- Some meters expect the procedure number low byte first. -/
  procedureNumberLittleEndian : Bool := false
  issueNegotiate : Bool := true
  issueSecurity : Bool := true
  issueLogoff : Bool := true
  telephone : TelephoneOptions := {}
  network : NetworkOptions := {}
  deriving DecidableEq, Repr

namespace Config

/-- Succeeds when `value` lies between `min` and `max`. -/
def checkRange (what : Quantity) (value min max : Nat) : Except Fault Unit :=
  if min ≤ value ∧ value ≤ max then .ok () else .error (.numberOutOfRange what value min max)

/-- Checks that every field fits its place on the wire. -/
def validate (c : Config) : Except Fault Unit := do
  checkRange .packetSize c.packetSize.toNat minPacketSize maxPacketSize
  checkRange .packetCount c.maxPackets.toNat 1 255
  checkRange .userNameLength c.user.utf8ByteSize 0 userLength
  checkRange .passwordLength c.password.length 0 passwordLength
  checkRange .dataFormat c.dataFormat.toNat 0 3
  if c.telephone.enableAuthentication ∧ c.telephone.authenticationKey.length ≠ 8
      ∧ c.telephone.authenticationKey.length ≠ 16 then
    throw (.invalidData (.authenticationKeyLength c.telephone.authenticationKey.length))
  if c.network.securityMode.isSecure ∧ c.network.securityKey.length ≠ 16 then
    throw (.invalidData (.securityKeyLength c.network.securityKey.length))
  checkRange .edClassLength c.network.edClass.length 0 edClassLength

/-- `bytes` cut or filled with blanks to `width`. -/
def padded (width : Nat) (bytes : Bytes) : Bytes :=
  bytes.take width ++ List.replicate (width - bytes.length) 0x20

/-- The password field. -/
def paddedPassword (c : Config) : Bytes := padded passwordLength c.password

/-- The user field. -/
def paddedUser (c : Config) : Bytes := padded userLength c.user.toUTF8.toList

@[simp] theorem length_padded (width : Nat) (bytes : Bytes) : (padded width bytes).length = width := by
  simp [padded]
  omega

end Config

end Metering
