import Metering.Association.Exchange
import Metering.Client.Progress
import Metering.Dialect
import Metering.Link.Request
import Metering.Phase.Move
set_option autoImplicit false

/-! # The client of one meter

A client drives one channel. The dialect decides whether services travel in packets or in APDUs
(`Wire`), and how a session starts and ends; tables, procedures and waits are the same for all.

Every fault either keeps the session or ends it. `Client.settle` applies that to the result of an
operation: a fault that ends the session closes the channel. -/

namespace Metering

/-- How services travel. -/
inductive Wire where
  | packets (link : Link)
  | apdus (association : Association)

/-- What was agreed on with the meter. -/
structure Negotiated where
  packetSize : UInt16
  maxPackets : UInt8
  /-- The line speed that was changed to. -/
  baud : Option Nat
  deriving DecidableEq, Repr

/-- A service that was handed to the wire, and what came of it. -/
structure Transaction where
  request : Request
  result : Except Fault Bytes
  /-- Channel and wire before. -/
  before : Channel × Wire
  /-- Channel and wire after. -/
  after : Channel × Wire

/-- The client of one meter. -/
structure Client where
  dialect : Dialect
  /-- The configuration, without keys. -/
  config : Config
  channel : Channel
  phase : Phase := .disconnected
  /-- The number of moves between phases that were refused. -/
  refusals : Nat := 0
  wire : Wire
  /-- Someone wants to know of progress. -/
  watched : Bool := false
  /-- The transfer at hand. -/
  progress : Progress := {}
  /-- The percentages reported, oldest first. -/
  percents : List Nat := []
  identification : Option Identification := none
  negotiated : Option Negotiated := none
  /-- The key that answers the meter's ticket. -/
  authenticationKey : Option SecretKey := none
  procedureSequence : UInt8 := 0
  /-- The services handed to the wire, newest first. -/
  exchanges : List Transaction := []

namespace Client

variable {α : Type}

/-! ## Setting up -/

/-- The wire of a dialect. -/
def wireFor (dialect : Dialect) (c : Config) (clock : UInt64) (entropy : Nat → UInt32) :
    Except Fault Wire :=
  match dialect.capabilities.framing with
  | .packet => .ok (.packets (.ofParameters (.ofConfig c)))
  | .apdu => (Association.ofConfig c clock entropy).map .apdus

/-- A client for a channel. The configuration is checked first; its keys are taken out of it. -/
def ofConfig (channel : Channel) (dialect : Dialect) (c : Config) (clock : UInt64)
    (entropy : Nat → UInt32) : Except Fault Client := do
  c.validate
  let wire ← wireFor dialect c clock entropy
  let authenticationKey ←
    if c.telephone.enableAuthentication then
      (SecretKey.ofBytes [8, 16] c.telephone.authenticationKey).map some
    else pure none
  let config := { c with telephone.authenticationKey := [], network.securityKey := [] }
  return { dialect, config, channel, wire, authenticationKey }

/-- The text for diagnostics. -/
def text (c : Client) : String :=
  let negotiated := match c.negotiated with
    | none => "None"
    | some n =>
      "Some(Negotiated \x7b packet_size: " ++ toString n.packetSize.toNat ++ ", max_packets: " ++
        toString n.maxPackets.toNat ++ ", baud: " ++ (match n.baud with
          | none => "None"
          | some baud => "Some(" ++ toString baud ++ ")") ++ " \x7d)"
  "Protocol \x7b dialect: " ++ c.dialect.identifier ++ ", state: " ++ c.phase.name ++ ", channel: " ++
    c.channel.kind.identifier ++ ", negotiated: " ++ negotiated ++ " \x7d"

/-! ## Parts -/

/-- Runs a step of the channel. -/
def onChannel (x : Step Channel α) : Step Client α :=
  Step.within Client.channel (fun c channel => { c with channel }) x

/-- Runs a step of the packet link. -/
def onLinked (otherwise : Fault) (x : Step Linked α) : Step Client α := do
  let c ← get
  match c.wire with
  | .apdus _ => throw otherwise
  | .packets link =>
    let (r, s) := x.run ⟨c.channel, link⟩
    set { c with channel := s.channel, wire := .packets s.link }
    Step.ofExcept r

/-- Runs a step of the packet link of a dialect that has one. -/
def onLink (x : Step Linked α) : Step Client α := do
  onLinked (.invalidState (.noPacketLink (← get).dialect.name)) x

/-- Runs a step of the association of a dialect that has one. -/
def onAssociated (x : Step Associated α) : Step Client α := do
  let c ← get
  match c.wire with
  | .packets _ => throw (.invalidState (.noApduLink c.dialect.name))
  | .apdus association =>
    let (r, s) := x.run ⟨c.channel, association⟩
    set { c with channel := s.channel, wire := .apdus s.association }
    Step.ofExcept r

/-- Changes the packet link, if there is one. -/
def changeLink (f : Link → Link) : Step Client Unit := modify fun c =>
  match c.wire with
  | .packets link => { c with wire := .packets (f link) }
  | .apdus _ => c

/-- Changes the association, if there is one. -/
def changeAssociation (f : Association → Association) : Step Client Unit := modify fun c =>
  match c.wire with
  | .packets _ => c
  | .apdus association => { c with wire := .apdus (f association) }

/-- Moves on to a phase. -/
def moveTo (phase : Phase) : Step Client Unit := do
  match (← get).phase.moveTo phase with
  | .ok phase => modify ({ · with phase })
  | .error e =>
    modify fun c => { c with refusals := c.refusals + 1 }
    throw e

/-- Fails unless the session is active. -/
def ensureActive : Step Client Unit := do
  let c ← get
  if !c.phase.isActive then throw (.invalidState (.notActive c.phase))

/-! ## Progress -/

/-- Starts to follow a transfer. -/
def beginProgress (total : Nat) : Step Client Unit :=
  modify fun c => { c with progress := { watched := c.watched, total } }

/-- Follows the transfer at hand. -/
def follow (f : Progress → List Nat × Progress) : Step Client Unit := modify fun c =>
  let (percents, progress) := f c.progress
  { c with progress, percents := c.percents ++ percents }

/-! ## Services -/

/-- The lengths of the response that the link reported, taken over as progress. -/
def takeReports (reporting : Bool) : Step Client Unit := do
  if let .packets link := (← get).wire then
    if reporting then link.reports.forM fun received => follow (·.report received)
    changeLink ({ · with reports := [] })

/-- Sends the bytes of a service and receives the response. -/
def carry (reporting : Bool) (bytes : Bytes) : Step Client Bytes := do
  match (← get).wire with
  | .packets _ =>
    let r ← (onLink (Linked.request bytes)).outcome
    takeReports reporting
    Step.ofExcept r
  | .apdus _ =>
    let response ← onAssociated (Associated.request bytes)
    if reporting then follow (·.report response.length)
    return response

/-- Notes what came of a service that was handed to the wire of a client. -/
def note (request : Request) (before : Client) (r : Except Fault Bytes) : Step Client Unit := modify fun c =>
  { c with exchanges := ⟨request, r, (before.channel, before.wire), (c.channel, c.wire)⟩ :: c.exchanges }

/-- Sends a service, receives the response and notes both. -/
def exchange (reporting : Bool) (request : Request) : Step Client Bytes := do
  let before ← get
  let r ← (carry reporting request.bytes).outcome
  note request before r
  Step.ofExcept r

/-- Runs a service: its results. A busy meter is asked again up to `retries` times. -/
def transactRepeatedly (reporting : Bool) (request : Request) : (retries : Nat) → Step Client Bytes
  | 0 => do
    let response ← exchange reporting request
    Step.ofExcept (Response.results response)
  | retries + 1 => do
    let response ← exchange reporting request
    match Response.results response with
    | .ok results => return results
    | .error e =>
      if !e.isRetryable then throw e
      onChannel (Channel.sleep (← get).config.applicationRetryDelay)
      transactRepeatedly reporting request retries

/-- Runs a service whose response counts as progress of the transfer at hand. -/
def transactReporting (request : Request) : Step Client Bytes := do
  transactRepeatedly true request (← get).config.applicationRetries.toNat

/-- Runs a service: its results. -/
def transact (request : Request) : Step Client Bytes := do
  transactRepeatedly false request (← get).config.applicationRetries.toNat

/-! ## Ends -/

/-- Closes the channel and wipes the keys. -/
def shutdown : Step Client Unit := do
  changeAssociation Association.endSession
  modify fun c =>
    { c with authenticationKey := c.authenticationKey.map SecretKey.clear, phase := .disconnected }
  let _ ← (onChannel Channel.close).outcome

/-- Faults that a deadline does not explain. -/
def endsChannel : Fault → Bool
  | .disconnected | .cancelled | .connection _ => true
  | _ => false

/-- What an operation reports: what fails after the deadline is a timeout, and what the meter still
sends belongs to an abandoned request. -/
def excuse (e : Fault) : Step Client Fault := do
  if (← get).channel.deadlineHit && !endsChannel e then
    changeLink Link.forget
    return .readTimeout 0
  return e

/-- Runs an operation and applies the disposition of its fault. -/
def settle (x : Step Client α) : Step Client α := do
  match ← x.outcome with
  | .ok a => return a
  | .error e =>
    let e ← excuse e
    if e.disposition = .disconnect && (← get).phase ≠ .disconnected then shutdown
    throw e

/-- Lets time pass. -/
def idle (d : Duration) : Step Client Unit :=
  modify fun c => { c with channel.line := c.channel.line.advanceTo (c.channel.now + d) }

/-- Asks the running operation to stop. -/
def cancel (c : Client) : Client := { c with channel := c.channel.cancel }

/-- Bounds what waits by a moment, or takes the bound away. -/
def setDeadline (deadline : Option Moment) : Step Client Unit :=
  modify fun c => { c with channel := c.channel.setDeadline deadline }

/-- Runs an operation under a deadline. -/
def within (timeout : Duration) (x : Step Client α) : Step Client α := do
  setDeadline (some ((← get).channel.now + timeout))
  let r ← x.outcome
  setDeadline none
  Step.ofExcept r

end Client

end Metering
