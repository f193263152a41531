import Metering.Acse.Incoming
import Metering.Acse.Outgoing
import Metering.Line
import Metering.SecretKey
set_option autoImplicit false

/-! # The far end of an association

A meter takes requests apart with the key of the association, remembers the key and vector it was
told last, and answers under the same association with its sides changed. What it knows is a
function of the messages it was sent (`Responder.after`), so an answer is one too. -/

namespace Metering.Acse

/-- What a meter knows. -/
structure Responder where
  /-- Authenticated encryption under the key of the association, if it has one. -/
  eax : Option Eax
  /-- The key and vector it was told last. -/
  authentication : Authentication := .unknown
  /-- The last message, if it could be taken apart. -/
  request : Option Incoming := none

/-- A request as a meter understands it: the APDU, and its services if the body could be
opened. -/
abbrev Understood := Incoming × Except Fault (List Bytes)

namespace Responder

/-- A meter that was sent nothing yet; only a key of sixteen bytes is one. -/
def ofKey (key : Bytes) : Responder :=
  { eax := (SecretKey.aes128 key >>= SecretKey.eax).toOption }

/-- What a meter makes of a message. -/
def hear (message : Bytes) (r : Responder) : Except Fault Understood × Responder :=
  match Incoming.parse message 0xFFFFFFFF with
  | .error e => (.error e, { r with request := none })
  | .ok a =>
    let authentication := a.authentication.getD r.authentication
    let r := { r with authentication, request := some a }
    match a.openBody r.eax authentication with
    | .error e => (.ok (a, .error e), r)
    | .ok (body, opened) => (.ok (opened, Epsem.split body), r)

/-- What a meter knows after some messages, oldest first. -/
def after (messages : List Bytes) (r : Responder) : Responder :=
  messages.foldl (fun r m => (r.hear m).2) r

end Responder

/-- Which invocation an answer says it answers. -/
inductive AnsweredId where
  | absent
  | fixed (id : UInt32)
  /-- The id of the request moved by an offset, or none where the request had none. -/
  | ofRequest (offset : UInt32)
  deriving DecidableEq, Repr

/-- An answer of a meter; it may be damaged on its way. -/
structure Reply where
  parameters : Parameters
  callingId : UInt32
  answered : AnsweredId
  services : List Bytes
  key : Bytes
  /-- Another key id than the one the meter was told. -/
  keyId : Option UInt8
  /-- Another vector than the one the meter was told. -/
  vector : Option UInt32
  sendAuthentication : Bool
  /-- What becomes of the bytes on their way. -/
  altered : Bytes → Bytes

namespace Reply

/-- The seal of an answer; only a key of sixteen bytes makes one. -/
def secured (a : Reply) (r : Responder) : Option Seal := do
  let eax ← (SecretKey.aes128 a.key >>= SecretKey.eax).toOption
  return { eax, sendAuthentication := a.sendAuthentication
           authentication := ⟨a.keyId.getD r.authentication.keyId, a.vector.getD r.authentication.vector⟩ }

/-- The invocation an answer names. -/
def calledId (a : Reply) (r : Responder) : Option UInt32 :=
  match a.answered with
  | .absent => none
  | .fixed id => some id
  | .ofRequest offset => (r.request.bind (·.callingId)).map (· + offset)

/-- The bytes of an answer as they arrive. An answer that cannot be built has none to alter. -/
def bytes (a : Reply) (r : Responder) : Bytes :=
  let o : Outgoing := { callingId := a.callingId, calledId := a.calledId r, services := a.services }
  a.altered ((o.build a.parameters (a.secured r)).toOption.getD [])

/-- The answer to the last of some messages, as an event. -/
def event (a : Reply) (start : Responder) (messages : List Bytes) : Event :=
  .arrival (.data (a.bytes (start.after messages)))

end Reply

end Metering.Acse
