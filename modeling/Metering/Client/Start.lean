import Metering.Client.Basic
set_option autoImplicit false

/-! # Starting and ending sessions

A session over packets starts with identify, negotiate, logon and security. One over a telephone line
also agrees on timing and may prove a key: the client encrypts the ticket that the meter gave, and
the meter has to answer with the encryption of that. A session over a network starts with logon and
security. Where the meter changed the line speed and then is not heard any more, the start is tried
once more at the speed before. -/

namespace Metering.Client

/-! ## Services of the start -/

/-- Asks the meter who it is, with nothing known of it. -/
def identify (withFeatures : Bool) : Step Client Unit := do
  let before ← get
  let r ← (onLinked (.invalidState .identifyNeedsPackets) (do
    Linked.changeLink Link.reset
    Linked.requestWithMinimum Request.identify.bytes (Identification.minLength + 1))).outcome
  note .identify before r
  let response ← Step.ofExcept r
  let identification ← Step.ofExcept
    (Response.parse (if withFeatures then Identification.takeWithFeatures else Identification.take) response)
  modify ({ · with identification := some identification })

/-- The index of the line speed to ask for. -/
def baudIndex (withBaud : Bool) : Step Client (Option UInt8) := do
  let c ← get
  if withBaud && c.channel.kind.hasLineSpeed && c.config.sessionBaud ≠ 0 then
    return some (← Step.ofExcept (Baud.index c.config.sessionBaud.toNat))
  else return none

/-- Agrees on packet size and count, and on the line speed if that is asked for. -/
def negotiate (withBaud : Bool) : Step Client Unit := do
  moveTo .negotiating
  let index ← baudIndex withBaud
  let c := (← get).config
  let results ← transact (.negotiate c.packetSize c.maxPackets index)
  let agreed ← Step.ofExcept (Reader.parse (Agreement.take index.isSome) results)
  let (packetSize, maxPackets) ← onLink (do
    let size ← Linked.onLink (Link.applyNegotiated agreed.packetSize agreed.maxPackets)
    return (size, (← get).link.maxPackets))
  if let some baud := agreed.baud then onChannel (Channel.setBaud baud)
  modify ({ · with negotiated := some { packetSize, maxPackets, baud := agreed.baud } })

/-- Logs the user on. -/
def logon : Step Client Unit := do
  let c := (← get).config
  let _ ← transact (.logon c.userId c.paddedUser)

/-- What a refused password is reported as. -/
def refusedPassword : Fault → Fault
  | .nok code extra =>
    if code.isRetryable then .nok code extra else .authentication (.securityRejected code)
  | e => e

/-- Sends the password. -/
def security : Step Client Unit := do
  let c ← get
  if c.dialect.capabilities.securityPhase then moveTo .securityHandshake
  match ← (transact (.security c.config.paddedPassword)).outcome with
  | .ok _ => return ()
  | .error e => throw (refusedPassword e)

/-- Negotiates, if that is configured, and logs on. -/
def negotiateAndLogon : Step Client Unit := do
  if (← get).config.issueNegotiate then negotiate true
  logon

/-! ## Direct lines -/

/-- How long the line is left alone before the start is tried at the line speed before. -/
def baudFallbackDelay : Duration := Duration.ofSeconds 7

/-- Faults after which the start may succeed at the line speed before. -/
def allowsFallback : Fault → Bool
  | .disconnected | .cancelled | .nok _ _ | .connection _ => false
  | _ => true

/-- The line speed to go back to after a fault, if it was to be changed. -/
def fallbackBaud (c : Config) (initial : Option Nat) (e : Fault) : Option Nat := do
  let initial ← initial
  if c.issueNegotiate && c.sessionBaud ≠ 0 && c.sessionBaud.toNat ≠ initial && allowsFallback e then
    some initial
  else none

/-- Tries the start once more at the line speed before. -/
def restartAt (baud : Nat) : Step Client Unit := do
  onChannel (Channel.sleep baudFallbackDelay)
  onChannel (Channel.setBaud baud)
  modify ({ · with negotiated := none, phase := .identifying })
  identify false
  negotiateAndLogon

/-- Starts a session on a direct line. -/
def startDirect : Step Client Unit := do
  let initial := (← get).channel.line.baud
  identify false
  match ← negotiateAndLogon.outcome with
  | .ok () => pure ()
  | .error e =>
    match fallbackBaud (← get).config initial e with
    | none => throw e
    | some baud => restartAt baud
  if (← get).config.issueSecurity then security
  moveTo .active

/-! ## Telephone lines -/

/-- The value a meter returned, or the configured one where it returned zero. -/
def adopted (returned configured : Duration) : Duration := if returned = 0 then configured else returned

/-- Proposes timing values and takes on what the meter returns; what it returns as zero stays as
configured. -/
def timingSetup : Step Client Unit := do
  let p ← onLink Linked.parameters
  let proposed := Timing.ofDurations p.traffic p.intercharacter p.acknowledgement p.retries
  match ← (transact (.timingSetup proposed)).outcome with
  | .error e =>
    changeLink Link.forget
    throw e
  | .ok results =>
    let agreed ← Step.ofExcept (Reader.parse Timing.take results)
    let intercharacter := adopted agreed.intercharacterTimeout p.intercharacter
    changeLink (Link.applyTiming (adopted agreed.trafficTimeout p.traffic) intercharacter
      (adopted agreed.acknowledgementTimeout p.acknowledgement)
      (if agreed.retries = 0 then p.retries else agreed.retries))
    modify fun c => { c with channel.intercharacter := intercharacter }

/-- The cipher that a key stands for: DES for eight bytes, AES for sixteen. -/
structure TicketCipher where
  blockSize : Nat
  encrypt : Bytes → Except Fault Bytes
  decrypt : Bytes → Except Fault Bytes

/-- One block of a DES ticket. -/
def desBlock (f : Vector UInt8 8 → Vector UInt8 8) (bytes : Bytes) : Except Fault Bytes :=
  if bytes.length = 8 then .ok (f (Vector.ofFn fun i => bytes.getD i.val 0)).toList
  else .error (.authentication (.desBlock bytes.length))

/-- The cipher of a key. -/
def TicketCipher.ofKey (key : SecretKey) : Except Fault TicketCipher :=
  if key.length = 8 then do
    let c ← key.des
    return { blockSize := 8, encrypt := desBlock c.encrypt, decrypt := desBlock c.decrypt }
  else if key.length = 16 then do
    let c ← key.aes
    return { blockSize := 16, encrypt := c.encryptAll, decrypt := c.decryptAll }
  else .error (.security (.authenticationKeyLength key.length))

/-- The ticket that the meter gave, if it takes part in authentication. -/
def ticket (c : Client) : Except Fault Bytes :=
  match c.identification.bind (·.tickets) with
  | some feature => if feature.canAuthenticate then .ok feature.ticket else .error (.authentication .notSupported)
  | none => .error (.authentication .notSupported)

/-- The key to prove, unless it was wiped. -/
def provenKey (c : Client) : Except Fault SecretKey :=
  match c.authenticationKey with
  | some key => if key.isCleared then .error (.security .authenticationKeyMissing) else .ok key
  | none => .error (.security .authenticationKeyMissing)

/-- What a refused ticket is reported as. -/
def refusedTicket : Fault → Fault
  | .nok .rejected _ => .authentication .ticketRejected
  | e => e

/-- The fault is an answer of the meter. -/
def isNok : Fault → Bool
  | .nok _ _ => true
  | _ => false

/-- The meter's answer to a ticket proves the key: it decrypts to the encrypted ticket. -/
def checkProof (cipher : TicketCipher) (keyId : UInt8) (encrypted : Bytes) (answer : TicketAnswer) :
    Except Fault Unit := do
  if answer.length.toNat ≠ cipher.blockSize + 1 ∨ answer.keyId ≠ keyId then
    throw (.authentication (.responseMismatch answer.length.toNat answer.keyId.toNat))
  if (← cipher.decrypt answer.data) ≠ encrypted then throw (.authentication .keyNotProven)

/-- Encrypts the meter's ticket and checks its answer. -/
def authenticate : Step Client Unit := do
  let c ← get
  let ticket ← Step.ofExcept c.ticket
  let key ← Step.ofExcept c.provenKey
  let keyId := c.config.telephone.authenticationKeyId
  let cipher ← Step.ofExcept (TicketCipher.ofKey key)
  if ticket.length ≠ cipher.blockSize then
    throw (.authentication (.ticketLength ticket.length cipher.blockSize))
  let encrypted ← Step.ofExcept (cipher.encrypt ticket)
  match ← (transact (.authenticate keyId encrypted)).outcome with
  | .error e =>
    if isNok e && cipher.blockSize = 8 then changeLink Link.forget
    throw (refusedTicket e)
  | .ok results =>
    let answer ← Step.ofExcept (Reader.parse TicketAnswer.take results)
    Step.ofExcept (checkProof cipher keyId encrypted answer)

/-- Starts a session on a telephone line. -/
def startTelephone : Step Client Unit := do
  let c := (← get).config
  identify true
  if c.telephone.issueTimingSetup then timingSetup
  if c.issueNegotiate then negotiate false
  logon
  if c.telephone.enableAuthentication then authenticate
  else if c.issueSecurity then security
  moveTo .active

/-! ## Networks -/

/-- Logs on and asks for an idle timeout. -/
def logonWithIdle : Step Client Unit := do
  let c := (← get).config
  let results ← transact (.logonWithIdle c.userId c.paddedUser c.network.sessionIdleTimeout)
  let _ ← Step.ofExcept (Reader.parse takeGrantedIdle results)

/-- Starts a session over a network. -/
def startNetwork : Step Client Unit := do
  let c := (← get).config
  onAssociated (Associated.change Association.beginSession)
  if !c.network.sessionless then logonWithIdle
  onAssociated (Associated.change Association.afterLogon)
  if c.issueSecurity && !c.network.sessionless then security
  else moveTo .securityHandshake
  moveTo .active

/-! ## Sessions -/

/-- Opens the channel if needed and brings the session up. -/
def bringUp : Step Client Unit := do
  let c ← get
  if !c.channel.connected then onChannel Channel.openUp
  moveTo .identifying
  match c.dialect with
  | .c1218 => startDirect
  | .c1221 => startTelephone
  | .c1222 => startNetwork

/-- Starts a session. Whatever fails closes the channel. -/
def startSession : Step Client Unit := do
  let c ← get
  if c.phase ≠ .disconnected then throw (.invalidState (.cannotStart c.phase))
  match ← bringUp.outcome with
  | .ok () => return ()
  | .error e =>
    shutdown
    throw e

/-- Takes leave of the meter. -/
def takeLeave : Step Client Unit := do
  let c ← get
  match c.dialect with
  | .c1222 =>
    if !c.config.network.sessionless then
      if c.config.network.issueTerminate then let _ ← transact .terminate
      else if c.config.issueLogoff then let _ ← transact .logoff
  | _ =>
    if c.config.issueLogoff then let _ ← transact .logoff
    let _ ← transact .terminate

/-- Ends the session, taking leave as well as it goes, and closes the channel. -/
def endSession : Step Client Unit := do
  if (← get).phase.isActive then
    modify ({ · with phase := .terminating })
    let _ ← takeLeave.outcome
  shutdown

end Metering.Client
