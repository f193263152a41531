import Metering.Acse.Cleartext
import Metering.Buffer.Frame
import Metering.Eax
set_option autoImplicit false

/-! # APDUs to send

An APDU is assembled from the inside out: the services, the body header around them, the tag of
a secured body behind them, and the addressing elements in front. The lengths in the body header
count the tag before it is there. -/

namespace Metering.Acse

/-- What secures an APDU. -/
structure Seal where
  eax : Eax
  authentication : Authentication
  /-- The key and vector are sent along. -/
  sendAuthentication : Bool

/-- An APDU to send. -/
structure Outgoing where
  callingId : UInt32
  /-- The invocation that is answered. -/
  calledId : Option UInt32
  services : List Bytes
  deriving DecidableEq, Repr

namespace Outgoing

/-- An APDU without services. -/
def ofId (callingId : UInt32) : Outgoing := ⟨callingId, none, []⟩

/-- The APDU with one more service. -/
def push (o : Outgoing) (service : Bytes) : Outgoing := { o with services := o.services ++ [service] }

/-- The APDU has no services. -/
def isEmpty (o : Outgoing) : Bool := o.services.isEmpty

/-- The addressing of the APDU under an association. -/
def address (o : Outgoing) (p : Parameters) : Addressing where
  context := p.context
  calledTitle := p.calledTitle
  calledId := o.calledId
  callingTitle := p.callingTitle
  callingQualifier := p.callingQualifier
  callingId := some o.callingId

/-- The services with the body header in front; `tail` bytes will follow. -/
def bodyFrame (control : Epsem.Control) (body : Bytes) (tail : Nat) : FrameBuffer :=
  let b := (FrameBuffer.withReserve 128).append body
  let b := b.prepend [control.byte]
  let b := b.prependLength (b.length + tail)
  let b := b.prepend [octetsTag]
  let b := b.prependLength (b.length + tail)
  let b := b.prepend [externalTag]
  let b := b.prependLength (b.length + tail)
  b.prepend [bodyTag]

/-- The body of the APDU under an association, with its header; `tail` bytes will follow. -/
def framed (o : Outgoing) (p : Parameters) (tail : Nat) : Except Fault FrameBuffer := do
  let edClass := if p.edClass.isEmpty then none else some p.edClass
  let body ← Epsem.encode edClass o.services
  return bodyFrame { mode := p.mode, response := p.response, edClass := edClass.isSome } body tail

/-- A body as it is sent under a seal, and its tag: in the clear or encrypted. -/
def sealedBody (p : Parameters) (s : Seal) (clear body : Bytes) : Bytes × Bytes :=
  if p.mode = .authenticated then (body, s.eax.authenticate (clear ++ body))
  else s.eax.encryptBody clear body

/-- The body secured: its tag behind it, and the key and vector element in front if it is
sent. -/
def secure (o : Outgoing) (p : Parameters) (s : Seal) (b : FrameBuffer) : Except Fault FrameBuffer := do
  let clear ← cleartext (o.address p) s.sendAuthentication b.header s.authentication
  let secured := sealedBody p s clear b.body
  let b := (b.setBody secured.1).append secured.2
  return if s.sendAuthentication then b.prepend s.authentication.element else b

/-- What secures an APDU under an association: nothing in the clear, and a seal otherwise. -/
def sealFor (p : Parameters) (secured : Option Seal) : Except Fault (Option Seal) :=
  match p.mode.isSecure, secured with
  | false, _ => .ok none
  | true, some s => .ok (some s)
  | true, none => .error (.security .noKeyDefined)

/-- The bytes of the APDU under an association. A secured mode needs a seal; a clear one uses
none. An APDU longer than the association allows is refused with the limit. -/
def build (o : Outgoing) (p : Parameters) (secured : Option Seal) : Except Fault Bytes := do
  let secured ← sealFor p secured
  let b ← match secured with
    | none => framed o p 0
    | some s => do secure o p s (← framed o p tagLength)
  let b := b.prepend (← addressing (o.address p))
  let b := b.prependLength b.length
  let b := b.prepend [apduTag]
  if b.length > p.maxOutgoing.toNat then
    throw (.nok .requestTooLarge (Bytes.bigEndian 4 p.maxOutgoing.toNat))
  return b.toList

end Outgoing

end Metering.Acse
