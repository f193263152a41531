import Metering.Service.Request
set_option autoImplicit false

/-! # Responses

A response starts with a code; zero and the codes from `0x20` to `0x7F` mean that the service was
carried out, and its results follow. -/

namespace Metering

namespace Response

/-- A code that reports a failure. -/
def isNok (code : UInt8) : Bool := code ≠ 0 && (code < 0x20 || code ≥ 0x80)

/-- Takes the code; a failure carries what follows it. -/
def checkCode : Step Reader Unit := do
  let code ← Reader.byte
  if isNok code then throw (.nok (NokCode.ofByte code) (← get).rest)

/-- What a step of reading makes of the results behind the code. Places count from the code on. -/
def parse {α : Type} (x : Step Reader α) (response : Bytes) : Except Fault α :=
  Reader.parse (do checkCode; x) response

/-- The results of a service that was carried out. -/
def results (response : Bytes) : Except Fault Bytes := parse (do return (← get).rest) response

end Response

/-! ## Identify -/

/-- What a meter says about tickets. -/
structure TicketFeature where
  canAuthenticate : Bool := false
  algorithm : UInt8 := 0
  ticket : Bytes := []
  deriving DecidableEq, Repr

/-- Who a meter is. -/
structure Identification where
  standard : UInt8
  version : UInt8
  revision : UInt8
  /-- Known where the features were read. -/
  tickets : Option TicketFeature
  deriving DecidableEq, Repr

namespace Identification

/-- The shortest result of identify after its code. -/
def minLength : Nat := 3

/-- Takes standard, version and revision and leaves the features. -/
def take : Step Reader Identification := do
  return { standard := ← Reader.byte, version := ← Reader.byte, revision := ← Reader.byte,
           tickets := none }

/-- Takes features up to the zero that ends them; `fuel` bounds their number. -/
def takeFeatures : (fuel : Nat) → TicketFeature → Step Reader TicketFeature
  | 0, _ => do throw ((← get).short 1)
  | fuel + 1, f => do
    let code ← Reader.byte
    if code = 0x00 then return f
    else if code = 0x01 then
      let bits ← Reader.byte
      let algorithm ← Reader.byte
      takeFeatures fuel { f with canAuthenticate := bits &&& 1 ≠ 0, algorithm }
    else if code = 0x02 then
      let bits ← Reader.byte
      let algorithm ← Reader.byte
      let length ← Reader.byte
      let ticket ← Reader.take length.toNat
      takeFeatures fuel { canAuthenticate := bits &&& 1 ≠ 0, algorithm, ticket }
    else if code = 0x06 then
      let _ ← Reader.byte
      let length ← Reader.byte
      Reader.skip length.toNat
      takeFeatures fuel f
    else if code = 0x07 then
      let length ← Reader.byte
      Reader.skip length.toNat
      takeFeatures fuel f
    else throw (.protocol (.unknownFeature code))

/-- Takes standard, version, revision and the features. -/
def takeWithFeatures : Step Reader Identification := do
  let who ← take
  let tickets ← takeFeatures (← Reader.remaining) {}
  return { who with tickets := some tickets }

end Identification

/-! ## Other services -/

/-- What a meter agrees to. -/
structure Agreement where
  packetSize : UInt16
  maxPackets : UInt8
  /-- The line speed, if one was asked for and given. -/
  baud : Option Nat
  deriving DecidableEq, Repr

/-- Takes the results of negotiate. -/
def Agreement.take (baudRequested : Bool) : Step Reader Agreement := do
  let packetSize := UInt16.ofNat (← Reader.number 2)
  let maxPackets ← Reader.byte
  let left ← Reader.remaining
  if baudRequested ∧ left > 0 then
    let index ← Reader.byte
    let baud ← Step.ofExcept (Baud.ofIndex index)
    return { packetSize, maxPackets, baud := some baud }
  return { packetSize, maxPackets, baud := none }

/-- The meter's answer to a ticket. -/
structure TicketAnswer where
  length : UInt8
  keyId : UInt8
  data : Bytes
  deriving DecidableEq, Repr

/-- Takes the results of authenticate. -/
def TicketAnswer.take : Step Reader TicketAnswer := do
  let length ← Reader.byte
  if length = 0 then throw (.authentication .emptyResponse)
  let keyId ← Reader.byte
  let data ← Reader.take (length.toNat - 1)
  return { length, keyId, data }

/-- Takes table contents: count, bytes, checksum. A wrong checksum is noted and fails nothing;
too few bytes fail. -/
def TableData.take (number : UInt16) (offset : Option UInt32) : Step Reader TableData := do
  let declared ← Reader.number 2
  let left ← Reader.remaining
  if left < declared + 1 then throw (.partialData declared (min left declared))
  let data ← Reader.take declared
  let checksum ← Reader.byte
  return { number, offset, data, declared, checksumValid := checksum = tableChecksum data }

/-- Takes the idle timeout, in seconds, that a meter may grant at logon. -/
def takeGrantedIdle : Step Reader (Option Nat) := do
  let left ← Reader.remaining
  if left ≥ 2 then return some (← Reader.number 2) else return none

end Metering
