import Metering.Ber.Reader
import Metering.Config
set_option autoImplicit false

/-! # The body of an APDU

The body starts with a control byte: how it is protected, when to answer and whether a device
class follows. Then come the services, each after its length. A length of zero ends the
list. -/

namespace Metering.Epsem

/-! ## The control byte -/

/-- The control byte of a body. -/
structure Control where
  mode : SecurityMode
  response : ResponseControl
  /-- A device class comes before the services. -/
  edClass : Bool
  deriving DecidableEq, Repr

namespace Control

/-- The control as a byte; the top bit is always set. -/
def byte (c : Control) : UInt8 :=
  UInt8.ofNat (0x80 + c.response.bits + 4 * c.mode.bits + if c.edClass then 0x10 else 0)

/-- The control of a byte; two of its bit patterns have no meaning. -/
def ofByte (b : UInt8) : Except Fault Control :=
  match SecurityMode.ofBits? (b.toNat / 4 % 4), ResponseControl.ofBits? (b.toNat % 4) with
  | none, _ => .error (.protocol (.badSecurityMode b))
  | some _, none => .error (.protocol (.badResponseControl b))
  | some mode, some response => .ok { mode, response, edClass := b &&& 0x10 ≠ 0 }

end Control

/-! ## Services -/

/-- A device class filled with blanks to its field. -/
def paddedEdClass (edClass : Bytes) : Except Fault Bytes :=
  if edClass.length > edClassLength then
    .error (.numberOutOfRange .edClassLength edClass.length 0 edClassLength)
  else .ok (Config.padded edClassLength edClass)

/-- A service after its length. -/
def serviceBytes (service : Bytes) : Bytes := Ber.lengthBytes service.length ++ service

/-- A body: the device class, if any, and the services. -/
def encode (edClass : Option Bytes) (services : List Bytes) : Except Fault Bytes := do
  let front ← match edClass with
    | none => pure []
    | some c => paddedEdClass c
  return front ++ services.flatMap serviceBytes

/-- Takes services until the bytes or the list end; `fuel` bounds their number. -/
def takeServices : (fuel : Nat) → Step Reader (List Bytes)
  | 0 => pure []
  | fuel + 1 => do
    if (← Reader.remaining) = 0 then return []
    let length ← Reader.length
    if length = 0 then return []
    let left ← Reader.remaining
    if length > left then throw (.protocol (.serviceTooLong length left))
    let service ← Reader.take length
    return service :: (← takeServices fuel)

/-- The services of a received body without its device class. -/
def split (body : Bytes) : Except Fault (List Bytes) := Reader.parse (takeServices body.length) body

end Metering.Epsem
