import Metering.Client.Start
import Metering.Proofs.Services

set_option autoImplicit false

/-! # The way up to an active session

A start moves from phase to phase, and the phases it meets are known: identifying, perhaps
negotiating, perhaps the phase of security, and at last active. So none of its moves is ever refused
(`bringUp_climbs`), not even where a failed start at one line speed goes back to identifying and is
tried once more at another. -/

namespace Metering.Client

open Step (Moves Same)

variable {α β : Type}

/-- From a phase with `P`, a step has no move refused and leaves the keys alone; if it gives a result,
it has reached a phase with `Q`. -/
def Climbs (P : Phase → Prop) (Q : α → Phase → Prop) (x : Step Client α) : Prop :=
  ∀ c, P c.phase → (x.run c).2.refusals = c.refusals ∧ (x.run c).2.secrets = c.secrets ∧
    ∀ a, (x.run c).1 = .ok a → Q a (x.run c).2.phase

namespace Climbs

variable {P P' : Phase → Prop} {Q Q' : α → Phase → Prop} {x y : Step Client α}

theorem of_core (h : Moves (Same core) x) : Climbs P (fun _ => P) x := by
  intro c hp
  obtain ⟨phase, refusals, secrets⟩ := core_eq_iff.1 (h c)
  refine ⟨refusals, secrets, fun _ _ => ?_⟩
  rw [phase]
  exact hp

theorem mono (h : Climbs P Q x) (hp : ∀ p, P' p → P p) (hq : ∀ a p, Q a p → Q' a p) : Climbs P' Q' x := by
  intro c start
  obtain ⟨refusals, secrets, reached⟩ := h c (hp _ start)
  exact ⟨refusals, secrets, fun a ha => hq a _ (reached a ha)⟩

theorem bind {R : β → Phase → Prop} {f : α → Step Client β} (h : Climbs P Q x)
    (hf : ∀ a, Climbs (Q a) R (f a)) : Climbs P R (x >>= f) := by
  intro c start
  obtain ⟨refusals, secrets, reached⟩ := h c start
  rw [Step.run_bind]
  rcases hx : x.run c with ⟨r, t⟩
  rw [hx] at refusals secrets reached
  cases r with
  | error e => exact ⟨refusals, secrets, fun a ha => by cases ha⟩
  | ok a =>
    obtain ⟨refusals', secrets', reached'⟩ := hf a t (reached a rfl)
    exact ⟨refusals'.trans refusals, secrets'.trans secrets, reached'⟩

theorem outcome (h : Climbs P Q x) : Climbs P (fun r p => ∀ a, r = .ok a → Q a p) x.outcome := by
  intro c start
  obtain ⟨refusals, secrets, reached⟩ := h c start
  refine ⟨refusals, secrets, fun r hr a ha => ?_⟩
  obtain rfl := Except.ok.inj hr
  exact reached a ha

theorem ite {p : Prop} [Decidable p] (hx : Climbs P Q x) (hy : Climbs P Q y) :
    Climbs P Q (if p then x else y) := by
  split
  · exact hx
  · exact hy

/-- A move that is allowed from every phase the step may start in. -/
theorem moveTo {q : Phase} (h : ∀ p, P p → p.mayFollow q = true) :
    Climbs P (fun _ p => p = q) (moveTo q) := by
  intro c start
  have moved : c.phase.moveTo q = .ok q := by rw [Phase.moveTo, if_pos (h _ start)]
  unfold Client.moveTo
  rw [Step.run_get_bind, moved]
  exact ⟨rfl, rfl, fun _ _ => rfl⟩

theorem throw (e : Fault) : Climbs P Q (MonadExcept.throw e : Step Client α) :=
  fun _ _ => ⟨rfl, rfl, fun _ h => by cases h⟩

end Climbs

/-! ## Services of the start -/

/-- A ticket of one block is encrypted to one block. -/
theorem length_encrypted {key : SecretKey} {cipher : TicketCipher} (known : TicketCipher.ofKey key = .ok cipher)
    {ticket encrypted : Bytes} (block : ticket.length = cipher.blockSize) (h : cipher.encrypt ticket = .ok encrypted) :
    encrypted.length ≤ 16 := by
  unfold TicketCipher.ofKey at known
  split at known
  · obtain ⟨c, -, made⟩ := Step.except_bind_ok.1 known
    obtain rfl := Except.ok.inj made
    dsimp only [desBlock] at block h
    rw [if_pos block] at h
    obtain rfl := Except.ok.inj h
    simp
  · split at known
    · obtain ⟨c, -, made⟩ := Step.except_bind_ok.1 known
      obtain rfl := Except.ok.inj made
      dsimp only [BlockCipher.encryptAll, BlockCipher.onBlocks] at block h
      split at h
      · cases h
      · obtain rfl := Except.ok.inj h
        have one : (Bytes.chunks 16 ticket).length ≤ 1 := Bytes.length_chunks_le (by omega)
        simp only [List.length_flatMap, Block.length_bytes, List.map_const', List.sum_replicate_nat]
        omega
    · cases known

/-- The link starts over and asks the meter who it is. -/
def askIdentity : Step Client Bytes :=
  onLinked (.invalidState .identifyNeedsPackets) (do
    Linked.changeLink Link.reset
    Linked.requestWithMinimum Request.identify.bytes (Identification.minLength + 1))

/-- A relation between clients that the services of a start respect. -/
structure SessionFrame (A : Request → Prop) (R : Client → Client → Prop) : Prop extends ServiceFrame A R where
  brief {r : Request} (h : r.Brief) : A r
  identified : Moves R askIdentity
  told {before after : Client} {r : Except Fault Bytes} (ran : askIdentity.run before = (r, after))
    (since : R before after) : R before { after with
      exchanges := ⟨.identify, r, (before.channel, before.wire), (after.channel, after.wire)⟩ :: after.exchanges }
  agreed (packetSize : UInt16) (maxPackets : UInt8) : Moves R (onLink (do
    let size ← Linked.onLink (Link.applyNegotiated packetSize maxPackets)
    return (size, (← get).link.maxPackets)))
  tuned (baud : Nat) : Moves R (onChannel (Channel.setBaud baud))
  forgot : Moves R (changeLink Link.forget)

section Respected

variable {A : Request → Prop} {R : Client → Client → Prop} [IsPreorder Client R]

theorem Frame.session (frame : Frame R) : SessionFrame (fun _ => True) R where
  toServiceFrame := frame.services
  brief _ := trivial
  told _ since := trans_of R since (frame.recorded _ _)
  identified := frame.linked _ <|
    .bind (Linked.changeLink_pace fun _ => rfl) fun _ => Linked.requestWithMinimum_pace _ _
  agreed _ _ := frame.onLink <|
    .bind (Linked.onLink_pace (Link.applyNegotiated_parameters _ _)) fun _ => .bind .get fun _ => .pure _
  tuned _ := frame.channel (Channel.setBaud_pace _)
  forgot := frame.changed fun _ => rfl

variable (frame : SessionFrame A R)

include frame

theorem identify_frame (recognised : ∀ (c : Client) (i : Option Identification), R c { c with identification := i })
    (withFeatures : Bool) : Moves R (identify withFeatures) := by
  have learnt (r : Except Fault Bytes) : Moves R (do
      let response ← Step.ofExcept r
      let identification ← Step.ofExcept
        (Response.parse (if withFeatures then Identification.takeWithFeatures else Identification.take) response)
      modify ({ · with identification := some identification })) :=
    .bind (.ofExcept _) fun _ => .bind (.ofExcept _) fun i => .modify fun c => recognised c (some i)
  refine .get_bind fun before => ?_
  have since := frame.identified before
  rcases ran : askIdentity.run before with ⟨r, after⟩
  rw [ran] at since
  unfold askIdentity at ran
  rw [Step.run_outcome_bind, ran]
  unfold note
  rw [Step.run_modify_bind]
  exact trans_of R (frame.told ran since) (learnt r _)

theorem logon_frame : Moves R logon := by
  refine .bind .get fun c => ?_
  have asked : A (.logon c.config.userId c.config.paddedUser) :=
    frame.brief (Request.brief_logon _ (Nat.le_of_eq c.config.length_paddedUser))
  exact .bind (transact_frame frame.toServiceFrame asked) fun _ => .pure _

/-- What is negotiated is agreed on, noted and applied. -/
theorem agree_frame (withBaud : Bool) : Moves R (do
    let index ← baudIndex withBaud
    let c := (← get).config
    let results ← transact (.negotiate c.packetSize c.maxPackets index)
    let agreed ← Step.ofExcept (Reader.parse (Agreement.take index.isSome) results)
    let (packetSize, maxPackets) ← onLink (do
      let size ← Linked.onLink (Link.applyNegotiated agreed.packetSize agreed.maxPackets)
      return (size, (← get).link.maxPackets))
    if let some baud := agreed.baud then onChannel (Channel.setBaud baud)
    modify ({ · with negotiated := some { packetSize, maxPackets, baud := agreed.baud } }) : Step Client Unit) := by
  have index : Moves R (baudIndex withBaud) :=
    .bind .get fun _ => .ite (.bind (.ofExcept _) fun _ => .pure _) (.pure _)
  refine .bind index fun index => .bind .get fun c => ?_
  refine .bind (transact_frame frame.toServiceFrame (frame.brief (Request.brief_negotiate _ _ _))) fun results => ?_
  refine .bind (.ofExcept _) fun agreed => .bind (frame.agreed _ _) fun sizes => ?_
  have kept (n : Negotiated) : Moves R (modify ({ · with negotiated := some n })) :=
    .modify fun c => frame.noted c { c.notes with negotiated := some n }
  cases agreed.baud with
  | none => exact kept _
  | some baud => exact .bind (frame.tuned _) fun _ => kept _

theorem sendPassword_frame (c : Config) : Moves R (do
    match ← (transact (.security c.paddedPassword)).outcome with
    | .ok _ => return ()
    | .error e => throw (refusedPassword e) : Step Client Unit) := by
  have asked : A (.security c.paddedPassword) :=
    frame.brief (Request.brief_security (Nat.le_of_eq c.length_paddedPassword))
  refine .bind (.outcome (transact_frame frame.toServiceFrame asked)) fun r => ?_
  cases r with
  | ok results => exact .pure _
  | error e => exact .throw _

theorem authenticate_frame : Moves R authenticate := by
  refine .bind .get fun c => .bind (.ofExcept _) fun ticket => .bind (.ofExcept _) fun key => ?_
  refine .ofExcept_bind fun cipher known => ?_
  dsimp only
  split
  · exact .throw_bind _ _
  next block =>
    refine .ofExcept_bind fun encrypted made => ?_
    have short : encrypted.length ≤ 16 := length_encrypted known (Decidable.not_not.1 block) made
    have asked (keyId : UInt8) : A (.authenticate keyId encrypted) :=
      frame.brief (Request.brief_authenticate keyId short)
    refine .bind (.outcome (transact_frame frame.toServiceFrame (asked _))) fun r => ?_
    cases r with
    | error e => exact .ite (.bind frame.forgot fun _ => .throw _) (.throw _)
    | ok results => exact .bind (.ofExcept _) fun _ => .ofExcept _

/-- Timing is asked for and taken over, by the link and by the channel. -/
theorem timingSetup_frame (parameters : Moves R (onLink Linked.parameters))
    (applied : ∀ (traffic intercharacter acknowledgement : Duration) (retries : UInt8),
      Moves R (changeLink (Link.applyTiming traffic intercharacter acknowledgement retries)))
    (takenOn : ∀ d : Duration, Moves R (modify fun c => { c with channel.intercharacter := d })) :
    Moves R timingSetup := by
  refine .bind parameters fun p => ?_
  refine .bind (.outcome (transact_frame frame.toServiceFrame (frame.brief (Request.brief_timingSetup _)))) fun r => ?_
  cases r with
  | error e => exact .bind frame.forgot fun _ => .throw _
  | ok results => exact .bind (.ofExcept _) fun _ => .bind (applied _ _ _ _) fun _ => takenOn _

end Respected

theorem timingSetup_same {γ : Type} {f : Client → γ} (aloof : Aloof f) : Moves (Same f) timingSetup :=
  timingSetup_frame (frame_same aloof).session ((frame_same aloof).onLink Linked.parameters_pace)
    (fun _ _ _ _ => changeLink_same aloof _) fun _ => .modify fun c => aloof c _ c.wire c.notes c.exchanges

/-- Phases before that of security. -/
def Early (p : Phase) : Prop := p = .identifying ∨ p = .negotiating

theorem Early.mayFollow {p q : Phase} (h : Early p) (hq : q = .securityHandshake ∨ q = .active) :
    p.mayFollow q = true := by
  rcases h with rfl | rfl <;> rcases hq with rfl | rfl <;> rfl

theorem negotiate_climbs (withBaud : Bool) :
    Climbs (· = .identifying) (fun _ p => p = .negotiating) (negotiate withBaud) :=
  .bind (.moveTo fun p hp => by rw [hp]; rfl) fun _ => .of_core (agree_frame frame_core.session withBaud)

theorem negotiateAndLogon_climbs : Climbs (· = .identifying) (fun _ => Early) negotiateAndLogon := by
  refine .bind (.of_core .get) fun c => ?_
  split
  · refine .bind (negotiate_climbs true) fun _ => ?_
    exact (Climbs.of_core (logon_frame frame_core.session)).mono (fun _ => id) fun _ _ => .inr
  · exact (Climbs.of_core (logon_frame frame_core.session)).mono (fun _ => id) fun _ _ => .inl

/-- Phases from which a session may become active. -/
def Ready (p : Phase) : Prop := p.mayFollow .active = true

theorem security_climbs : Climbs Early (fun _ => Ready) security := by
  refine .bind (.of_core .get) fun c => ?_
  split
  · refine .bind (.moveTo fun p early => early.mayFollow (.inl rfl)) fun _ => ?_
    exact (Climbs.of_core (sendPassword_frame frame_core.session _)).mono (fun _ => id) fun _ p hp => by rw [hp]; rfl
  · exact (Climbs.of_core (sendPassword_frame frame_core.session _)).mono (fun _ => id) fun _ p early =>
      early.mayFollow (.inr rfl)

/-! ## Dialects -/

/-- Wherever the first attempt stopped, the second one starts over. -/
theorem restartAt_climbs (baud : Nat) : Climbs (fun _ => True) (fun _ => Early) (restartAt baud) := by
  refine .bind (.of_core (onChannel_core _)) fun _ => .bind (.of_core (onChannel_core _)) fun _ => ?_
  have back : Climbs (fun _ => True) (fun _ p => p = .identifying)
      (modify ({ · with negotiated := none, phase := .identifying })) :=
    fun c _ => ⟨rfl, rfl, fun _ _ => rfl⟩
  exact .bind back fun _ => .bind (.of_core (identify_frame frame_core.session (fun _ _ => rfl) false)) fun _ => negotiateAndLogon_climbs

/-- The password is sent if that is configured, and then the session is active. -/
theorem secureAndActivate_climbs (issueSecurity : Bool) :
    Climbs Early (fun _ p => p = .active) (do
      if issueSecurity then security
      moveTo .active) := by
  cases issueSecurity with
  | true => exact .bind security_climbs fun _ => .moveTo fun _ => id
  | false => exact .moveTo fun _ early => early.mayFollow (.inr rfl)

theorem startDirect_climbs : Climbs (· = .identifying) (fun _ p => p = .active) startDirect := by
  refine .bind (.of_core .get) fun c => .bind (.of_core (identify_frame frame_core.session (fun _ _ => rfl) false)) fun _ => ?_
  have rest : Climbs Early (fun _ p => p = .active) (do
      if (← get).config.issueSecurity then security
      moveTo .active) :=
    .bind (.of_core .get) fun _ => secureAndActivate_climbs _
  refine .bind negotiateAndLogon_climbs.outcome fun r => ?_
  cases r with
  | ok u => exact rest.mono (fun p early => early () rfl) fun _ _ => id
  | error e =>
    -- the first attempt may have stopped in any phase
    refine .bind (.of_core .get) fun c' => ?_
    dsimp only
    cases fallbackBaud c'.config c.channel.line.baud e with
    | none => exact .bind (.throw e) fun _ => rest
    | some baud => exact .bind ((restartAt_climbs baud).mono (fun _ _ => trivial) fun _ _ => id) fun _ => rest

theorem timingSetup_core : Moves (Same core) timingSetup :=
  timingSetup_frame frame_core.session (onLink_core _) (fun _ _ _ _ => changeLink_core _) fun _ => .modify fun _ => rfl

theorem startTelephone_climbs : Climbs (· = .identifying) (fun _ p => p = .active) startTelephone := by
  refine .bind (.of_core .get) fun c => .bind (.of_core (identify_frame frame_core.session (fun _ _ => rfl) true)) fun _ => ?_
  have proof : Climbs Early (fun _ p => p = .active) (do
      if c.config.telephone.enableAuthentication then authenticate
      else if c.config.issueSecurity then security
      moveTo .active) := by
    split
    · exact .bind (.of_core (authenticate_frame frame_core.session)) fun _ =>
        .moveTo fun _ early => early.mayFollow (.inr rfl)
    · exact secureAndActivate_climbs _
  have rest : Climbs (· = .identifying) (fun _ p => p = .active) (do
      if c.config.issueNegotiate then negotiate false
      logon
      if c.config.telephone.enableAuthentication then authenticate
      else if c.config.issueSecurity then security
      moveTo .active) := by
    refine .ite (.bind (negotiate_climbs false) fun _ => ?_) ?_
    · exact .bind (.of_core (logon_frame frame_core.session)) fun _ => proof.mono (fun _ => .inr) fun _ _ => id
    · exact .bind (.of_core (logon_frame frame_core.session)) fun _ => proof.mono (fun _ => .inl) fun _ _ => id
  dsimp only
  split
  · exact .bind (.of_core timingSetup_core) fun _ => rest
  · exact rest

theorem change_core {f : Association → Association} (h : ∀ a, (f a).keys = a.keys) :
    Moves (Same core) (onAssociated (Associated.change f)) :=
  onAssociated_core (.modify fun s => h s.association)

theorem startNetwork_climbs : Climbs (· = .identifying) (fun _ p => p = .active) startNetwork := by
  refine .bind (.of_core .get) fun c => .bind (.of_core (change_core Association.beginSession_keys)) fun _ => ?_
  have logon : Moves (Same core) logonWithIdle :=
    .bind .get fun _ => .bind (transact_frame frame_core.services trivial) fun _ => .bind (.ofExcept _) fun _ => .pure _
  have rest : Climbs (· = .identifying) (fun _ p => p = .active) (do
      onAssociated (Associated.change Association.afterLogon)
      if c.config.issueSecurity && !c.config.network.sessionless then security
      else moveTo .securityHandshake
      moveTo .active) := by
    refine .bind (.of_core (change_core Association.afterLogon_keys)) fun _ => ?_
    split
    · exact .bind (security_climbs.mono (fun _ => .inl) fun _ _ => id) fun _ => .moveTo fun _ => id
    · exact .bind (.moveTo fun p hp => by rw [hp]; rfl) fun _ => .moveTo fun p hp => by rw [hp]; rfl
  dsimp only
  split
  · exact .bind (.of_core logon) fun _ => rest
  · exact rest

/-- **A session that is brought up** from the disconnected phase is active, and no move on the way is
refused. -/
theorem bringUp_climbs : Climbs (· = .disconnected) (fun _ p => p = .active) bringUp := by
  refine .bind (.of_core .get) fun c => ?_
  have onward {x : Step Client Unit} (h : Climbs (· = .identifying) (fun _ p => p = .active) x) :
      Climbs (· = .disconnected) (fun _ p => p = .active) (do
        if !c.channel.connected then onChannel Channel.openUp
        moveTo .identifying
        x) := by
    have rest : Climbs (· = .disconnected) (fun _ p => p = .active) (do
        moveTo .identifying
        x) := .bind (.moveTo fun p hp => by rw [hp]; rfl) fun _ => h
    exact .ite (.bind (.of_core (onChannel_core _)) fun _ => rest) rest
  cases c.dialect with
  | c1218 => exact onward startDirect_climbs
  | c1221 => exact onward startTelephone_climbs
  | c1222 => exact onward startNetwork_climbs

end Metering.Client
