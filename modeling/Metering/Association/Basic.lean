import Metering.Acse.Incoming
import Metering.Acse.Outgoing
import Metering.Channel.Apdu
import Metering.SecurityContext
import Metering.Service.Request
set_option autoImplicit false

/-! # Associations at work

An association sends services in APDUs, secures them where that is configured, and numbers them: the
invocation id of a request comes back in its response. Before logon, and without a session for every
request, ids are drawn at random; after logon they count from zero. The key and vector that secure a
session are sent along with its first APDU only.

An `Associated` is an association at work on a channel. -/

namespace Metering

/-- The APDU exchange of one session. -/
structure Association where
  parameters : Acse.Parameters
  /-- The options, without the key. -/
  options : NetworkOptions
  security : Option SecurityContext
  invocationId : UInt32
  /-- The key and vector announced in this session; none before the first secured APDU. -/
  authentication : Option Acse.Authentication := none
  /-- The key and vector last received. -/
  incomingAuthentication : Acse.Authentication := .unknown
  /-- The security service that leads every request where there are no sessions. -/
  leadingSecurity : Option Bytes
  linkRetries : UInt8
  turnaround : Duration
  writeTimeout : Duration
  /-- Random numbers, by the count of those drawn before. -/
  entropy : Nat → UInt32
  drawn : Nat

namespace Association

/-! ## Invocation ids -/

/-- A random number as an invocation id: not zero, and not the present one. -/
def freshId (random present : UInt32) : UInt32 :=
  (([random, random + 1, random + 2].find? fun id => id ≠ 0 && id ≠ present).getD random)

/-- Takes on a new random id. -/
def renewId (a : Association) : Association :=
  { a with invocationId := freshId (a.entropy a.drawn) a.invocationId, drawn := a.drawn + 1 }

/-- Goes on to the id of the next request. -/
def advanceId (a : Association) : Association :=
  if a.options.sessionless then a.renewId else { a with invocationId := a.invocationId + 1 }

/-! ## Setting up -/

/-- The security context that options ask for. -/
def contextOf (o : NetworkOptions) (clock : UInt64) : Except Fault (Option SecurityContext) :=
  if o.securityMode.isSecure then do
    let key ← SecretKey.aes128 o.securityKey
    let context ← SecurityContext.ofKey key o.securityKeyId clock
    return some (match o.initializationVector with
      | some iv => context.choose iv
      | none => context)
  else return none

/-- The association of a configuration. The key stays in the security context only. -/
def ofConfig (c : Config) (clock : UInt64) (entropy : Nat → UInt32) : Except Fault Association := do
  let security ← contextOf c.network clock
  return {
    parameters := .ofOptions c.network
    options := { c.network with securityKey := [] }
    security
    invocationId := freshId (entropy 0) 0
    leadingSecurity :=
      if c.network.sessionless && c.issueSecurity then
        some (Request.securityWithUser c.paddedPassword c.userId).bytes
      else none
    linkRetries := c.linkRetries
    turnaround := c.turnaroundDelay
    writeTimeout := c.channelTrafficTimeout
    entropy
    drawn := 1 }

/-- Room for the elements around the services of a full APDU. -/
def envelope : Nat := 128

/-- The most bytes of services in a response. -/
def maxResponse (a : Association) : Nat := min (a.parameters.maxIncoming.toNat - envelope) 0xFFFF

/-- The most bytes of services in a request. -/
def maxRequest (a : Association) : Nat := min (a.parameters.maxOutgoing.toNat - envelope) 0xFFFF

/-- Forgets everything of an earlier session. -/
def beginSession (a : Association) : Association :=
  { a.renewId with authentication := none, incomingAuthentication := .unknown }

/-- Ids start over once logon succeeded. -/
def afterLogon (a : Association) : Association :=
  if a.options.sessionless then a else { a with invocationId := 0 }

/-- Wipes the key; nothing can be secured afterwards. -/
def endSession (a : Association) : Association :=
  { a with security := a.security.map SecurityContext.clear, authentication := none }

/-! ## Building and opening -/

/-- The key and vector to secure an APDU with, and whether they are sent along: the first time in
a session they are new and sent. -/
def chooseAuthentication (s : SecurityContext) : Step Association (Acse.Authentication × Bool) := do
  match (← get).authentication with
  | some authentication => return (authentication, false)
  | none =>
    let (r, s) := SecurityContext.nextVector.run s
    modify ({ · with security := some s })
    let authentication : Acse.Authentication := ⟨s.keyId, ← Step.ofExcept r⟩
    modify ({ · with authentication := some authentication })
    return (authentication, true)

/-- What the next APDU is secured with; none where the association asks for no security. -/
def chooseSeal : Step Association (Option Acse.Seal) := do
  let a ← get
  match a.security, a.parameters.mode.isSecure with
  | some s, true =>
    if s.isCleared then throw (.security .contextCleared)
    let (authentication, send) ← chooseAuthentication s
    return some ⟨s.eax, authentication, send⟩
  | _, _ => return none

/-- The bytes of an APDU, secured where the association asks for it. -/
def build (o : Acse.Outgoing) : Step Association Bytes := do
  let secured ← chooseSeal
  Step.ofExcept (o.build (← get).parameters secured)

/-- Notes the key and vector that came with an APDU; another key than ours is refused. -/
def adoptAuthentication (authentication : Acse.Authentication) : Step Association Unit := do
  if let some s := (← get).security then
    if authentication.keyId ≠ s.keyId then throw (.protocol .keyIdMismatch)
  modify ({ · with incomingAuthentication := authentication })

/-- The body of a response. A secured request may not be answered in the clear. -/
def openBody (incoming : Acse.Incoming) : Step Association Bytes := do
  if let some authentication := incoming.authentication then adoptAuthentication authentication
  let a ← get
  if a.parameters.mode.isSecure && incoming.hasBody && !incoming.mode.isSecure then
    throw (.authentication .cleartextAnswer)
  let (body, _) ←
    Step.ofExcept (incoming.openBody (a.security.map (·.eax)) a.incomingAuthentication)
  return body

end Association

/-- An association and the channel it works on. -/
structure Associated where
  channel : Channel
  association : Association

namespace Associated

variable {α : Type}

/-- Runs a step of the channel. -/
def onChannel (x : Step Channel α) : Step Associated α :=
  Step.within Associated.channel (fun s channel => { s with channel }) x

/-- Runs a step of the association. -/
def onAssociation (x : Step Association α) : Step Associated α :=
  Step.within Associated.association (fun s association => { s with association }) x

/-- Changes the association. -/
def change (f : Association → Association) : Step Associated Unit :=
  modify fun s => { s with association := f s.association }

end Associated

end Metering
