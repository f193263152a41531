import Metering.Association.Basic
import Metering.Service.Response
set_option autoImplicit false

/-! # Exchanges

An exchange sends services in one APDU and returns their responses. An APDU that answers an earlier
invocation is late and is passed over; any other one has to answer this request (`receive`). Over
datagrams a request is sent again when its response is lost or damaged. Where the meter is not
expected to answer, success is taken for granted. -/

namespace Metering.Associated

/-- The response that is taken for granted. -/
def impliedOk : Bytes := [0x00]

/-- One look at what the meter sends, until a deadline. -/
def receiveRound (deadline : Moment) (_ : Unit) : Step Associated (Unit ⊕ Acse.Incoming) := do
  let s ← get
  let timeout := deadline - s.channel.now
  if timeout = 0 then throw (.readTimeout 0)
  let bytes ← onChannel (Channel.readApdu timeout)
  let incoming ← Step.ofExcept (Acse.Incoming.parse bytes s.association.parameters.maxIncoming)
  if incoming.isStale s.association.invocationId then return .inl ()
  Step.ofExcept (incoming.verifyResponse s.association.parameters s.association.invocationId)
  return .inr incoming

/-- Receives the APDU that answers the present request. -/
def receive : Step Associated Acse.Incoming := do
  let s ← get
  Step.repeatUpTo (receiveRound (s.channel.now + s.association.options.responseTimeout))
    (s.channel.line.waiting + s.channel.input.length + 1) ()

/-- Faults after which the same APDU may be sent again. -/
def allowsResend : Fault → Bool
  | .readTimeout _ | .writeTimeout _ | .frameInvalid _ => true
  | _ => false

/-- Nothing at all was heard. -/
def isSilence : Fault → Bool
  | .readTimeout 0 => true
  | _ => false

/-- Writes an APDU after the turnaround delay; one that is not answered is written at once. -/
def send (apdu : Bytes) : Step Associated Unit := do
  let a := (← get).association
  let delay := if a.parameters.response = .never then 0 else a.turnaround
  onChannel (Channel.writeApdu apdu delay a.writeTimeout)

/-- One wait for the answer to an APDU; `again` is what follows if it may be sent again. None means
that the meter had nothing to object. -/
def awaitOnce (again : Option (Step Associated (Option Acse.Incoming))) :
    Step Associated (Option Acse.Incoming) := do
  match ← receive.outcome with
  | .ok incoming => return some incoming
  | .error e =>
    let s ← get
    if s.channel.deadlineHit then throw e
    if isSilence e && s.association.parameters.response = .onException then return none
    match again with
    | none => throw e
    | some next => if allowsResend e then next else throw e

/-- Waits for the answer to an APDU, which is sent again up to `retries` times. -/
def awaitAnswer (apdu : Bytes) : (retries : Nat) → Step Associated (Option Acse.Incoming)
  | 0 => awaitOnce none
  | retries + 1 => awaitOnce (some (do
    send apdu
    awaitAnswer apdu retries))

/-- The services of a request: where there are no sessions, the security service leads. -/
def withLeading (a : Association) (services : List Bytes) : List Bytes :=
  if a.options.sessionless then a.leadingSecurity.toList ++ services else services

/-- The responses to the services asked for; the response to a leading security service has to be a
success and is taken off. -/
def takeLeading (a : Association) (responses : List Bytes) : Except Fault (List Bytes) :=
  if a.options.sessionless && a.leadingSecurity.isSome then
    match responses with
    | [] => .error (.protocol .noSecurityResponse)
    | first :: rest => (Response.results first).map fun _ => rest
  else .ok responses

/-- Prepares the association for a request. Without sessions nothing was announced, and a request
that may stay unanswered gets an id of its own. -/
def prepare (a : Association) : Association :=
  if a.options.sessionless then
    let a := { a with authentication := none }
    if a.parameters.response = .always then a else a.renewId
  else a

/-- Packs services in one APDU under the present id. -/
def pack (services : List Bytes) : Step Associated Bytes := do
  change prepare
  let a := (← get).association
  onAssociation (Association.build ⟨a.invocationId, none, withLeading a services⟩)

/-- Waits for the answer to an APDU that was sent, unless there will be none. -/
def awaitReply (apdu : Bytes) : Step Associated (Option Acse.Incoming) := do
  let s ← get
  if s.association.parameters.response = .never then return none
  awaitAnswer apdu (if s.channel.kind = .udp then s.association.linkRetries.toNat else 0)

/-- Sends services in one APDU and waits for its answer. -/
def attempt (services : List Bytes) : Step Associated (Option Acse.Incoming) := do
  let apdu ← pack services
  send apdu
  awaitReply apdu

/-- The responses to services: those in the answer, or the ones taken for granted. -/
def openAnswer (services : List Bytes) : Option Acse.Incoming → Step Associated (List Bytes)
  | none => return services.map fun _ => impliedOk
  | some incoming => do
    let body ← onAssociation (Association.openBody incoming)
    let responses ← Step.ofExcept (Epsem.split body)
    Step.ofExcept (takeLeading (← get).association responses)

/-- Sends services in one APDU and returns their responses. -/
def exchange (services : List Bytes) : Step Associated (List Bytes) := do
  let answer ← attempt services
  change Association.advanceId
  openAnswer services answer

/-- Sends one service and returns its response. -/
def request (service : Bytes) : Step Associated Bytes := do
  match ← exchange [service] with
  | response :: _ => return response
  | [] => throw (.protocol .noServiceResponse)

end Metering.Associated
