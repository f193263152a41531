import Metering.Epsem
set_option autoImplicit false

/-! # Associations

An APDU is a start tag and a length followed by elements, each a tag, a length and a value. The
elements name the application context and the two sides, number the invocation, and carry the
key and vector of a secured body and the body itself. Where a body is secured, relative titles
count as hanging off the application context. -/

namespace Metering.Acse

/-! ## Tags -/

/-- The tag every APDU starts with. -/
def apduTag : UInt8 := 0x60

/-- The application context. -/
def contextTag : UInt8 := 0xA1

/-- The title of the side that is called. -/
def calledTitleTag : UInt8 := 0xA2

/-- The invocation that is answered. -/
def calledIdTag : UInt8 := 0xA4

/-- The title of the side that calls. -/
def callingTitleTag : UInt8 := 0xA6

/-- The qualifier of the side that calls. -/
def callingQualifierTag : UInt8 := 0xA7

/-- The invocation. -/
def callingIdTag : UInt8 := 0xA8

/-- The key and vector. -/
def authenticationTag : UInt8 := 0xAC

/-- The body. -/
def bodyTag : UInt8 := 0xBE

/-- The wrapper within the body element. -/
def externalTag : UInt8 := 0x28

/-- An indirect reference within the wrapper, passed over. -/
def referenceTag : UInt8 := 0x02

/-- The bytes within the wrapper. -/
def octetsTag : UInt8 := 0x81

/-! ## The key and vector -/

/-- Which key secures an APDU, and under which vector. -/
structure Authentication where
  keyId : UInt8
  vector : UInt32
  deriving DecidableEq, Repr

/-- No key and vector was received yet. -/
def Authentication.unknown : Authentication := ⟨0, 0⟩

/-- What comes before the key id in the element's value. -/
def authenticationFront : Bytes := [0xA2, 0x0D, 0xA0, 0x0B, 0xA1, 0x09, 0x80, 0x01]

/-- What comes between the key id and the vector. -/
def authenticationMiddle : Bytes := [0x81, 0x04]

/-- The number of bytes in the element's value. -/
def authenticationLength : Nat := 15

/-- The whole element. -/
def Authentication.element (a : Authentication) : Bytes :=
  [authenticationTag, UInt8.ofNat authenticationLength] ++ authenticationFront ++ [a.keyId] ++
    authenticationMiddle ++ Bytes.bigEndian 4 a.vector.toNat

/-- Key id and vector, as they end the secured cleartext. -/
def Authentication.trailer (a : Authentication) : Bytes := a.keyId :: Bytes.bigEndian 4 a.vector.toNat

/-- Reads the value of the element back. -/
def Authentication.ofValue (value : Bytes) : Except Fault Authentication :=
  if value.length = authenticationLength ∧ value.take 8 = authenticationFront
      ∧ (value.drop 9).take 2 = authenticationMiddle then
    .ok ⟨value.getD 8 0, UInt32.ofNat (Bytes.ofBigEndian (value.drop 11))⟩
  else .error (.protocol (.badElement authenticationTag))

/-! ## The two sides -/

/-- Addressing and protection of one association. -/
structure Parameters where
  context : String
  calledTitle : String
  callingTitle : String
  callingQualifier : Option UInt32
  mode : SecurityMode
  response : ResponseControl
  edClass : Bytes
  maxOutgoing : UInt32
  maxIncoming : UInt32
  deriving DecidableEq, Repr

namespace Parameters

/-- The association a configuration asks for. -/
def ofOptions (o : NetworkOptions) : Parameters where
  context := o.applicationContext
  calledTitle := o.calledTitle
  callingTitle := o.callingTitle
  callingQualifier := o.callingQualifier
  mode := o.securityMode
  response := o.responseControl
  edClass := o.edClass
  maxOutgoing := o.maxOutgoing
  maxIncoming := o.effectiveMaxIncoming

/-- The association as the other side sees it. -/
def swapped (p : Parameters) : Parameters :=
  { p with calledTitle := p.callingTitle, callingTitle := p.calledTitle }

end Parameters

/-- A title with its context in front, if it is relative. -/
def absoluteTitle (context title : String) : String :=
  if !Uid.isRelative title then title
  else if context.isEmpty then standardNetwork ++ title
  else context ++ title

/-- The element of an identifier; nothing for an empty one. -/
def uidElement (tag : UInt8) (text : String) : Except Fault Bytes :=
  if text.isEmpty then .ok [] else Uid.tagged tag text

/-- The element of a title made absolute; nothing for an empty one. -/
def absoluteElement (tag : UInt8) (context title : String) : Except Fault Bytes :=
  if title.isEmpty then .ok [] else Uid.tagged tag (absoluteTitle context title)

/-- The element of a number that may be missing. -/
def numberElement (tag : UInt8) : Option UInt32 → Bytes
  | none => []
  | some n => Ber.taggedUnsigned tag n

end Metering.Acse
