import Metering.Acse.Cleartext
import Metering.Eax
set_option autoImplicit false

/-! # Received APDUs

An APDU is taken apart into its elements; unknown elements are passed over and the body element
ends it. Whether it answers a request is checked against the association, and a secured body is
opened under a key only when its tag agrees. -/

namespace Metering.Acse

/-- A received APDU. -/
structure Incoming where
  context : String := ""
  calledTitle : String := ""
  calledId : Option UInt32 := none
  callingTitle : String := ""
  callingQualifier : Option UInt32 := none
  callingId : Option UInt32 := none
  /-- The key and vector, if they were sent. -/
  authentication : Option Authentication := none
  /-- The control byte of the body; none without a body. -/
  control : Option Epsem.Control := none
  /-- The device class, once the body was opened. -/
  edClass : Option Bytes := none
  /-- The body element up to the control byte. -/
  bodyHeader : Bytes := []
  /-- What follows the control byte. -/
  body : Bytes := []
  deriving DecidableEq, Repr

namespace Incoming

/-! ## Taking an APDU apart -/

/-- Takes the rest of a body element whose tag and length were read; `start` is what the
element starts with, and `length` is the length of the whole APDU. -/
def takeBody (maxSize : UInt32) (length : Nat) (start : Bytes) (a : Incoming) : Step Reader Incoming := do
  if length > maxSize.toNat then throw (.nok .responseTooLarge (Bytes.bigEndian 4 maxSize.toNat))
  let bad : Fault := .protocol (.badElement bodyTag)
  if (← Reader.byte) ≠ externalTag then throw bad
  let _ ← Reader.length
  let mut next ← Reader.byte
  if next = referenceTag then
    let skipped ← Reader.length
    Reader.skip skipped
    next ← Reader.byte
  if next ≠ octetsTag then throw bad
  let octets ← Reader.length
  if octets = 0 ∨ octets ≠ (← Reader.remaining) then throw bad
  let control ← Step.ofExcept (Epsem.Control.ofByte (← Reader.byte))
  let left := (← get).rest
  if control.mode.isSecure ∧ left.length < tagLength then
    throw (.authentication .epsemShorterThanTag)
  return { a with
    bodyHeader := start.take (start.length - left.length)
    control := some control
    body := left }

/-- Takes elements until the bytes end or the body was taken; `fuel` bounds their number. -/
def takeElements (maxSize : UInt32) (length : Nat) : (fuel : Nat) → Incoming → Step Reader Incoming
  | 0, a => pure a
  | fuel + 1, a => do
    let start := (← get).rest
    if start.isEmpty then return a
    let tag ← Reader.byte
    let elementLength ← Reader.length
    let more := takeElements maxSize length fuel
    if tag = contextTag then more { a with context := ← Reader.uid }
    else if tag = calledTitleTag then more { a with calledTitle := ← Reader.uid }
    else if tag = calledIdTag then more { a with calledId := some (← Reader.integer) }
    else if tag = callingTitleTag then more { a with callingTitle := ← Reader.uid }
    else if tag = callingQualifierTag then more { a with callingQualifier := some (← Reader.integer) }
    else if tag = callingIdTag then more { a with callingId := some (← Reader.integer) }
    else if tag = authenticationTag then
      let value ← Reader.take authenticationLength
      more { a with authentication := some (← Step.ofExcept (Authentication.ofValue value)) }
    else if tag = bodyTag then takeBody maxSize length start a
    else
      Reader.skip elementLength
      more a

/-- Takes a whole APDU. -/
def takeApdu (maxSize : UInt32) : Step Reader Incoming := do
  if (← Reader.byte) ≠ apduTag then throw (.frameInvalid .noApduStart)
  let length ← Reader.length
  let left ← Reader.remaining
  if length ≠ left then throw (.frameInvalid .apduLength)
  takeElements maxSize length left {}

/-- Takes a complete APDU apart. One with a body may not be longer than `maxSize`. -/
def parse (bytes : Bytes) (maxSize : UInt32) : Except Fault Incoming :=
  Reader.parse (takeApdu maxSize) bytes

/-! ## Checking it against a request -/

/-- How the body is protected; no body counts as clear. -/
def mode (a : Incoming) : SecurityMode := (a.control.map (·.mode)).getD .clear

/-- There is a body. -/
def hasBody (a : Incoming) : Bool := a.control.isSome

/-- The APDU answers another invocation. It is late and not suspicious. -/
def isStale (a : Incoming) (id : UInt32) : Bool :=
  match a.calledId with
  | none => false
  | some called => called ≠ id

/-- Checks that the APDU answers our invocation: both invocation ids are there, the called one is
ours, and the titles are ours with the sides changed. -/
def verifyResponse (a : Incoming) (p : Parameters) (id : UInt32) : Except Fault Unit :=
  if a.calledId.isNone then .error (.authentication .calledIdMissing)
  else if a.callingId.isNone then .error (.authentication .callingIdMissing)
  else if a.calledId ≠ some id then .error (.authentication .invocationIdMismatch)
  else if p.callingTitle ≠ a.calledTitle ∨ p.calledTitle ≠ a.callingTitle then
    .error (.authentication .titleMismatch)
  else .ok ()

/-! ## Opening the body -/

/-- The addressing of the APDU. -/
def address (a : Incoming) : Addressing where
  context := a.context
  calledTitle := a.calledTitle
  calledId := a.calledId
  callingTitle := a.callingTitle
  callingQualifier := a.callingQualifier
  callingId := a.callingId

/-- The cleartext a secured body is bound to. -/
def clear (a : Incoming) (auth : Authentication) : Except Fault Bytes :=
  cleartext a.address a.authentication.isSome a.bodyHeader auth

/-- The plain contents of a secured body, if its tag agrees. -/
def openSecured (a : Incoming) (mode : SecurityMode) (eax : Eax) (auth : Authentication) :
    Except Fault Bytes := do
  let clear ← a.clear auth
  let body := a.body.take (a.body.length - tagLength)
  let received := a.body.drop (a.body.length - tagLength)
  let (plain, tag) :=
    if mode = .encrypted then eax.decryptBody clear body
    else (body, eax.authenticate (clear ++ body))
  if Eax.tagsAgree tag received then return plain
  else throw (.authentication .tagMismatch)

/-- The services of the body, the device class taken off and noted. `auth` is the key and vector
in force: those that were sent along, or the last ones received. -/
def openBody (a : Incoming) (eax : Option Eax) (auth : Authentication) : Except Fault (Bytes × Incoming) := do
  match a.control with
  | none => return ([], a)
  | some control =>
    let plain ← match control.mode, eax with
      | .clear, _ => pure a.body
      | _, none => throw (.authentication .noKeyForResponse)
      | mode, some eax => a.openSecured mode eax auth
    if control.edClass then
      if plain.length < edClassLength then throw (.protocol (.badElement bodyTag))
      return (plain.drop edClassLength, { a with edClass := some (plain.take edClassLength) })
    else return (plain, a)

end Incoming

end Metering.Acse
