import Metering.Proofs.Envelope

set_option autoImplicit false

/-! # Writes that are not refused

A write of a table is cut into requests that keep to the limit for services, and each of them is handed to an
association of the configuration (`Client.writeActive_hands`). So where the longest APDU of the configuration is
allowed, none of them is refused before it is sent, and a refusal that the write fails with is one that came of
an APDU that was built within the limit (`Client.writeTable_unrefused`). Where it is not allowed, as with long
titles, a write fails that was cut to fit (`Client.split_write_refused`). -/

namespace Metering

open Step (Moves Same)

namespace Request

/-- A request that keeps to limits is no longer than the room that the limits leave free. -/
theorem Keeps.length_le {limits : LinkLimits} {r : Request} {room : Nat} (h : r.Keeps limits)
    (write : limits.maxWrite + writeOverhead ≤ room) (pieces : limits.maxPartialWrite + partialWriteOverhead ≤ room) :
    r.bytes.length ≤ room := by
  simp only [writeOverhead, partialWriteOverhead] at write pieces
  cases h with
  | readFull table =>
    simp only [length_bytes, Request.readFull, Bytes.length_bigEndian]
    omega
  | readPartial made short =>
    rw [(readPartial_ok made).1]
    omega
  | writeFull made short =>
    rw [(writeFull_ok made).1]
    omega
  | writePartial made short =>
    rw [(writePartial_ok made).1]
    omega

theorem unrefused_tableContents (data : Bytes) : Unrefused (tableContents data) := by
  unfold tableContents
  split
  · exact unrefused_error rfl
  · exact unrefused_ok _

theorem unrefused_writeFull (table : UInt16) (data : Bytes) : Unrefused (writeFull table data) :=
  (unrefused_tableContents data).bind fun _ _ => unrefused_ok _

theorem unrefused_writePartial (table : UInt16) (offset : Nat) (data : Bytes) :
    Unrefused (writePartial table offset data) := by
  have place : Unrefused (offsetBytes offset) := by
    unfold offsetBytes
    split
    · exact unrefused_error rfl
    · exact unrefused_ok _
  exact place.bind fun _ _ => (unrefused_tableContents data).bind fun _ _ => unrefused_ok _

end Request

theorem Descriptor.unrefused_validateWrite (d : Descriptor) (data : Bytes) : Unrefused (d.validateWrite data) := by
  have number : Unrefused d.validate := by
    unfold validate
    repeat' split
    all_goals first | exact unrefused_ok _ | exact unrefused_error rfl
  refine number.bind fun _ _ => ?_
  split
  all_goals
    split
    · exact unrefused_error rfl
    · exact unrefused_ok _

namespace Client

variable {α β : Type} {config : Config} {c d c' : Client} {t : Transaction} {request : Request}

/-! ## What is handed to the wire -/

theorem not_made_of_exchanges (h : c'.exchanges = c.exchanges) : ¬ Made c c' t := by
  rintro ⟨made, found, mem⟩
  obtain rfl : made = [] := List.self_eq_append_left.1 (h.symm.trans found)
  cases mem

/-- What was made was made before or after a state between. -/
theorem Made.cases (h : Made c c' t) (first : c.exchanges <:+ d.exchanges) (second : d.exchanges <:+ c'.exchanges) :
    Made c d t ∨ Made d c' t := by
  obtain ⟨made, found, mem⟩ := h
  obtain ⟨before, hbefore⟩ := first
  obtain ⟨after, hafter⟩ := second
  have both : made ++ c.exchanges = after ++ before ++ c.exchanges := by
    rw [← found, ← hafter, ← hbefore, List.append_assoc]
  rw [List.append_cancel_right both] at mem
  rcases List.mem_append.1 mem with later | earlier
  · exact .inr ⟨after, hafter.symm, later⟩
  · exact .inl ⟨before, hbefore.symm, earlier⟩

/-- A service that is short enough was handed to an association of the configuration. -/
structure Handed (config : Config) (t : Transaction) : Prop where
  short : t.request.bytes.length ≤ config.maxRequest
  associated : ∃ channel a, t.before = (channel, .apdus a) ∧ a.Serves config ∧
    t.result = ((Associated.request t.request.bytes).run ⟨channel, a⟩).1

/-- All services between two states of a client were handed to its association. -/
def Hands (config : Config) (c c' : Client) : Prop :=
  c.GoesBy .c1222 config → Continues .c1222 config c c' ∧ ∀ t, Made c c' t → Handed config t

instance : IsPreorder Client (Hands config) where
  refl c _ := ⟨refl_of _ c, fun _ made => absurd made (not_made_of_exchanges rfl)⟩
  trans _ _ _ h h' goes := by
    obtain ⟨first, handed⟩ := h goes
    obtain ⟨second, handed'⟩ := h' (first.goesBy goes)
    refine ⟨trans_of _ first second, fun t made => ?_⟩
    exact (made.cases first.grown second.grown).elim (handed t) (handed' t)

/-- What hands over nothing. -/
theorem hands_of_continues {x : Step Client α} (continues : Moves (Continues .c1222 config) x)
    (silent : Moves (Same exchanges) x) : Moves (Hands config) x :=
  fun c _ => ⟨continues c, fun _ made => absurd made (not_made_of_exchanges (silent c))⟩

theorem onLinked_exchanges (otherwise : Fault) (x : Step Linked α) : Moves (Same exchanges) (onLinked otherwise x) := by
  refine .get_bind fun c => ?_
  rcases hw : c.wire with link | a
  · dsimp only
    rw [Step.run_set_bind, Step.run_ofExcept]
  · exact refl_of (Same exchanges) c

theorem onAssociated_exchanges (x : Step Associated α) : Moves (Same exchanges) (onAssociated x) := by
  refine .get_bind fun c => ?_
  rcases hw : c.wire with link | a
  · exact refl_of (Same exchanges) c
  · dsimp only
    rw [Step.run_set_bind, Step.run_ofExcept]

theorem changeLink_exchanges (f : Link → Link) : Moves (Same exchanges) (changeLink f) := by
  refine .modify fun c => ?_
  rcases hw : c.wire with link | a <;> rfl

theorem shutdown_exchanges : Moves (Same exchanges) shutdown := by
  intro c
  rw [shutdown_run]

/-- What an association makes of a service is what a client makes of it. -/
theorem carry_of_apdus (reporting : Bool) (bytes : Bytes) {a : Association} (h : c.wire = .apdus a) :
    ((carry reporting bytes).run c).1 = ((Associated.request bytes).run ⟨c.channel, a⟩).1 := by
  unfold carry
  rw [Step.run_get_bind, h]
  dsimp only
  rw [Step.run_bind, onAssociated_run _ h]
  rcases (Associated.request bytes).run ⟨c.channel, a⟩ with ⟨r, s⟩
  cases r with
  | error e => rfl
  | ok response => cases reporting <;> rfl

theorem transferFrame_hands (room : 0 < config.maxRequest - partialWriteOverhead) :
    TransferFrame (fun r => r.bytes.length ≤ config.maxRequest) (Hands config) where
  requested _ := hands_of_continues (frame_continues.onLink (Linked.request_pace _)) (.bind .get fun _ => onLinked_exchanges _ _)
  associated _ := hands_of_continues (frame_continues.associated _) (onAssociated_exchanges _)
  slept _ := hands_of_continues (onChannel_continues _) fun _ => rfl
  unreported := hands_of_continues (changeLink_continues _) (changeLink_exchanges _)
  noted c n goes := ⟨frame_continues.noted c n, fun _ made => absurd made (not_made_of_exchanges rfl)⟩
  exchanged := by
    intro request short reporting before after r carried since goes
    obtain ⟨continued, handed⟩ := since goes
    refine ⟨trans_of _ continued (frame_continues.recorded _ _), fun t made => ?_⟩
    rcases made.cases continued.grown (List.suffix_cons _ _) with earlier | ⟨new, found, mem⟩
    · exact handed t earlier
    -- the service that is noted is the one that was carried
    have only : [⟨request, r, (before.channel, before.wire), (after.channel, after.wire)⟩] ++ after.exchanges =
        new ++ after.exchanges := found
    rw [← List.append_cancel_right only] at mem
    obtain rfl := List.mem_singleton.1 mem
    have wired := goes.wired
    rcases hw : before.wire with link | a
    · rw [hw] at wired
      cases wired
    · rw [hw] at wired
      refine ⟨short, before.channel, a, rfl, wired.2, ?_⟩
      rw [← carry_of_apdus reporting _ hw, carried]
  limited := by
    intro c c' h goes
    refine h (fun r keeps => ?_) goes
    have wired := goes.wired
    rcases hw : c.wire with link | a
    · rw [hw] at wired
      cases wired
    · rw [hw] at wired
      have limits : c.limits = ⟨a.maxResponse - readOverhead, config.maxRequest - writeOverhead,
          config.maxRequest - partialWriteOverhead⟩ := by
        rw [← wired.2.maxRequest]
        simp only [Client.limits, maxRead, maxWrite, maxPartialWrite, hw]
      rw [limits] at keeps
      simp only [partialWriteOverhead] at room
      refine keeps.length_le ?_ ?_
      · simp only [writeOverhead]
        omega
      · simp only [partialWriteOverhead]
        omega

/-- **A write** hands short services over, each to an association of the configuration. -/
theorem writeTable_hands (room : 0 < config.maxRequest - partialWriteOverhead) (descriptor : Descriptor) (data : Bytes) :
    Moves (Hands config) (writeTable descriptor data) :=
  settle_frame (hands_of_continues (changeLink_continues _) (changeLink_exchanges _))
    (hands_of_continues shutdown_continues shutdown_exchanges) (writeActive_frame (transferFrame_hands room).tables _ _)

/-! ## Where refusals come from -/

/-- The fault is what came of a service: of handing it over, or of the answer. -/
def CameOf (e : Fault) (t : Transaction) : Prop :=
  t.result = .error e ∨ ∃ response, t.result = .ok response ∧ Response.results response = .error e

/-- No service is forgotten. -/
def Grows (c c' : Client) : Prop := c.exchanges <:+ c'.exchanges

instance : IsPreorder Client Grows where
  refl _ := List.suffix_refl _
  trans _ _ _ := List.IsSuffix.trans

theorem grows_of_same {x : Step Client α} (h : Moves (Same exchanges) x) : Moves Grows x :=
  h.mono fun _ _ same => ⟨[], same.symm⟩

theorem frame_grows : Frame Grows where
  linked _ _ _ := grows_of_same (onLinked_exchanges _ _)
  associated _ := grows_of_same (onAssociated_exchanges _)
  channel _ := fun _ => List.suffix_refl _
  changed _ := grows_of_same (changeLink_exchanges _)
  noted _ _ := List.suffix_refl _
  recorded _ _ := List.suffix_cons _ _

/-- A refusal that a step fails with came of a service that it made. -/
structure Answers (x : Step Client α) : Prop where
  grows : Moves Grows x
  came : ∀ {c c' : Client} {e : Fault}, x.run c = (.error e, c') → isNok e = true → ∃ t, Made c c' t ∧ CameOf e t

namespace Answers

variable {x : Step Client α} {f : α → Step Client β}

theorem of_unrefused (grows : Moves Grows x) (h : ∀ c, Unrefused (x.run c).1) : Answers x where
  grows := grows
  came {c c' e} run refused := by
    have plain := h c e (congrArg Prod.fst run)
    rw [plain] at refused
    cases refused

theorem pure (a : α) : Answers (Pure.pure a : Step Client α) := of_unrefused (.pure a) fun _ => unrefused_ok a

theorem get : Answers (MonadState.get : Step Client Client) := of_unrefused .get fun _ => unrefused_ok _

theorem modify {g : Client → Client} (h : ∀ c, (g c).exchanges = c.exchanges) :
    Answers (modify g : Step Client PUnit) :=
  of_unrefused (grows_of_same (.modify h)) fun _ => unrefused_ok _

theorem ofExcept {r : Except Fault α} (h : Unrefused r) : Answers (Step.ofExcept r) :=
  of_unrefused (.ofExcept r) fun c => by rwa [Step.run_ofExcept]

theorem ite {p : Prop} [Decidable p] {y : Step Client α} (hx : Answers x) (hy : Answers y) :
    Answers (if p then x else y) := by
  split
  · exact hx
  · exact hy

theorem bind (hx : Answers x) (hf : ∀ a, Answers (f a)) : Answers (x >>= f) where
  grows := .bind hx.grows fun a => (hf a).grows
  came {c c' e} run refused := by
    rcases first : x.run c with ⟨r, d⟩
    cases r with
    | error e' =>
      obtain ⟨same, rfl⟩ := Prod.mk.inj ((Step.run_bind_of_error first).symm.trans run)
      obtain rfl := Except.error.inj same
      exact hx.came first refused
    | ok a =>
      rw [Step.run_bind_of_ok first] at run
      obtain ⟨t, made, came⟩ := (hf a).came run refused
      exact ⟨t, made.earlier (hx.grows.of_run first), came⟩

end Answers

theorem unrefused_sleep (delay : Duration) (c : Client) : Unrefused ((onChannel (Channel.sleep delay)).run c).1 := by
  have slept (channel : Channel) : Unrefused ((Channel.sleep delay).run channel).1 := by
    unfold Channel.sleep
    rw [Step.run_get_bind]
    dsimp only
    rw [Step.run_set_bind]
    split
    · exact unrefused_error rfl
    · split
      · exact unrefused_error rfl
      · exact unrefused_ok _
  exact slept c.channel

theorem exchange_made {reporting : Bool} {r : Except Fault Bytes} (h : (exchange reporting request).run c = (r, c')) :
    ∃ t, Made c c' t ∧ t.result = r := by
  unfold exchange at h
  rw [Step.run_get_bind, Step.run_outcome_bind] at h
  have carried : Moves Grows (carry reporting request.bytes) := carry_frame frame_grows.wires reporting trivial
  have grown := carried c
  rcases hr : (carry reporting request.bytes).run c with ⟨r', d⟩
  rw [hr] at h grown
  unfold note at h
  rw [Step.run_modify_bind, Step.run_ofExcept] at h
  obtain ⟨rfl, rfl⟩ := Prod.mk.inj h
  exact ⟨_, made_of_noted grown rfl, rfl⟩

/-- What is done about a response may fail with what the meter answered. -/
theorem Answers.exchange_bind {reporting : Bool} {f : Bytes → Step Client β}
    (grows : ∀ response, Moves Grows (f response))
    (came : ∀ {response : Bytes} {c c' : Client} {e : Fault}, (f response).run c = (.error e, c') → isNok e = true →
      Response.results response = .error e ∨ ∃ t, Made c c' t ∧ CameOf e t) :
    Answers (exchange reporting request >>= f) where
  grows := .bind (exchange_frame frame_grows.services reporting trivial) grows
  came {c c' e} run refused := by
    rcases exchanged : (exchange reporting request).run c with ⟨r, d⟩
    obtain ⟨t, made, result⟩ := exchange_made exchanged
    have first : Grows c d := (exchange_frame frame_grows.services reporting trivial).of_run exchanged
    cases r with
    | error e' =>
      obtain ⟨same, rfl⟩ := Prod.mk.inj ((Step.run_bind_of_error exchanged).symm.trans run)
      obtain rfl := Except.error.inj same
      exact ⟨t, made, .inl result⟩
    | ok response =>
      rw [Step.run_bind_of_ok exchanged] at run
      rcases came run refused with answered | ⟨t', made', came'⟩
      · exact ⟨t, made.later ((grows response).of_run run), .inr ⟨response, result, answered⟩⟩
      · exact ⟨t', made'.earlier first, came'⟩

theorem transact_answers (request : Request) : Answers (transact request) := by
  have repeated (retries : Nat) : Answers (transactRepeatedly false request retries) := by
    induction retries with
    | zero =>
      refine .exchange_bind (fun _ => .ofExcept _) fun run _ => .inl ?_
      rw [Step.run_ofExcept] at run
      exact (Prod.mk.inj run).1
    | succ retries ih =>
      have again : Answers (do
          onChannel (Channel.sleep (← MonadState.get).config.applicationRetryDelay)
          transactRepeatedly false request retries) :=
        .bind .get fun _ => .bind (.of_unrefused (fun _ => List.suffix_refl _) (unrefused_sleep _)) fun _ => ih
      refine .exchange_bind (fun response => ?_) fun {response c c' e} run refused => ?_
      · cases Response.results response with
        | ok results => exact .pure _
        | error e => exact .ite (.throw_bind _ _) again.grows
      · cases answered : Response.results response with
        | ok results =>
          rw [answered] at run
          cases (Prod.mk.inj run).1
        | error e' =>
          rw [answered] at run
          dsimp only at run
          split at run
          · exact .inl (Prod.mk.inj run).1
          · exact .inr (again.came run refused)
  exact .bind .get fun _ => repeated _

theorem follow_answers (f : Progress → List Nat × Progress) : Answers (follow f) := .modify fun _ => rfl

theorem writePieces_answers (number : UInt16) (place : Nat) (pieces : List Bytes) :
    Answers (writePieces number place pieces) := by
  induction pieces generalizing place with
  | nil => exact .pure _
  | cons piece rest ih =>
    refine .bind (.ofExcept (Request.unrefused_writePartial _ _ _)) fun request => .bind (transact_answers request) fun _ => ?_
    exact .bind (.modify fun _ => rfl) fun _ => .bind (follow_answers _) fun _ => ih _

theorem writeInPieces_answers (number : UInt16) (offset : Nat) (data : Bytes) (limit : Nat) :
    Answers (writeInPieces number offset data limit) := by
  refine .ite (.of_unrefused (.throw_bind _ _) fun _ => unrefused_error rfl) ?_
  exact .bind (.modify fun _ => rfl) fun _ => .bind (writePieces_answers _ _ _) fun _ => follow_answers _

theorem writeActive_answers (descriptor : Descriptor) (data : Bytes) : Answers (writeActive descriptor data) := by
  have active : Answers ensureActive := by
    refine .bind .get fun c => .ite ?_ (.pure _)
    exact .of_unrefused (.throw _) fun _ => unrefused_error rfl
  have atOnce {r : Except Fault Request} (h : Unrefused r) : Answers (do
      let _ ← transact (← Step.ofExcept r) : Step Client Unit) :=
    .bind (.ofExcept h) fun request => .bind (transact_answers request) fun _ => .pure _
  refine .bind (.ofExcept (descriptor.unrefused_validateWrite data)) fun _ => .bind active fun _ => .bind .get fun c => ?_
  cases descriptor.access with
  | full => exact .ite (atOnce (Request.unrefused_writeFull _ _)) (writeInPieces_answers _ _ _ _)
  | range offset count => exact .ite (atOnce (Request.unrefused_writePartial _ _ _)) (writeInPieces_answers _ _ _ _)

/-- A fault that is settled stays what it is, or is taken for a timeout. -/
theorem settle_answers {x : Step Client α} (h : Answers x) : Answers (settle x) where
  grows := settle_frame (grows_of_same (changeLink_exchanges _)) (grows_of_same shutdown_exchanges) h.grows
  came {c c' e} run refused := by
    rcases first : x.run c with ⟨r, d⟩
    cases r with
    | ok a =>
      rw [settle_run_ok first] at run
      cases (Prod.mk.inj run).1
    | error e' =>
      have grown : Grows d ((settle (throw e' : Step Client α)).run d).2 :=
        settle_frame (grows_of_same (changeLink_exchanges _)) (grows_of_same shutdown_exchanges) (.throw e') d
      have rest : (settle x).run c = (settle (throw e' : Step Client α)).run d := by
        unfold settle
        rw [Step.run_outcome_bind, Step.run_outcome_bind, first]
        rfl
      rw [← rest, run] at grown
      obtain ⟨e'', d', excused, kept⟩ : ∃ e'' d', (excuse e').run d = (.ok e'', d') ∧ (e'' = e' ∨ isNok e'' = false) := by
        unfold excuse
        rw [Step.run_get_bind]
        split
        · exact ⟨_, _, rfl, .inr rfl⟩
        · exact ⟨_, _, rfl, .inl rfl⟩
      rw [settle_run_excused first excused] at run
      obtain rfl := Except.error.inj (Prod.mk.inj run).1
      obtain rfl := kept.resolve_right (by simp [refused])
      obtain ⟨t, made, came⟩ := h.came first refused
      exact ⟨t, made.later grown, came⟩

/-! ## Writes -/

/-- The service was packed in an APDU that the association allows. -/
def Packed (config : Config) (t : Transaction) (apdu : Bytes) : Prop :=
  ∃ channel a, t.before = (channel, .apdus a) ∧ ((Associated.pack [t.request.bytes]).run ⟨channel, a⟩).1 = .ok apdu ∧
    apdu.length ≤ config.network.maxOutgoing.toNat

/-- The service is not refused for its own size: it is packed in an APDU that the association allows, or something
else is amiss. -/
def Fits (config : Config) (t : Transaction) : Prop :=
  (∃ apdu, Packed config t apdu) ∨ ∃ e, isNok e = false ∧ t.result = .error e

theorem Handed.fits (handed : Handed config t) (room : config.longestApdu ≤ config.network.maxOutgoing.toNat) :
    Fits config t := by
  obtain ⟨channel, a, before, serves, result⟩ := handed.associated
  have plain := Associated.unrefused_pack (s := ⟨channel, a⟩) serves room handed.short
  rcases packed : (Associated.pack [t.request.bytes]).run ⟨channel, a⟩ with ⟨r, s⟩
  rw [packed] at plain
  cases r with
  | ok apdu =>
    have built : ((Associated.pack [t.request.bytes]).run ⟨channel, a⟩).1 = .ok apdu := congrArg Prod.fst packed
    exact .inl ⟨apdu, channel, a, before, built, Associated.length_le_of_pack (s := ⟨channel, a⟩) serves built⟩
  | error e =>
    refine .inr ⟨e, plain e rfl, ?_⟩
    rw [result, Associated.request, Associated.exchange, Associated.attempt, Step.run_bind, Step.run_bind, Step.run_bind, packed]

/-- **A write is not refused for the size of its requests**, where the longest APDU of the configuration is allowed
and there is room for pieces: each of them is packed in an APDU that is allowed, and a refusal that the write fails
with came of a service that was so packed. -/
theorem writeTable_unrefused (reached : ReachedBy .c1222 config c)
    (room : config.longestApdu ≤ config.network.maxOutgoing.toNat) (positive : 0 < c.maxPartialWrite)
    (descriptor : Descriptor) (data : Bytes) {r : Except Fault Unit} (run : (writeTable descriptor data).run c = (r, c')) :
    (∀ t, Made c c' t → Fits config t) ∧
      ∀ e, r = .error e → isNok e = true → ∃ t apdu, Made c c' t ∧ CameOf e t ∧ Packed config t apdu := by
  have goes := reached.goesBy
  have pieces : 0 < config.maxRequest - partialWriteOverhead := by
    have wired := goes.wired
    rcases hw : c.wire with link | a
    · rw [hw] at wired
      cases wired
    · rw [hw] at wired
      rw [← wired.2.maxRequest]
      simpa only [maxPartialWrite, hw] using positive
  obtain ⟨-, handed⟩ := (writeTable_hands pieces descriptor data).of_run run goes
  have fits (t : Transaction) (made : Made c c' t) : Fits config t := (handed t made).fits room
  refine ⟨fits, fun e failed refused => ?_⟩
  subst failed
  obtain ⟨t, made, came⟩ := (settle_answers (writeActive_answers descriptor data)).came run refused
  rcases fits t made with ⟨apdu, packed⟩ | ⟨e', plain, result⟩
  · exact ⟨t, apdu, made, came, packed⟩
  · -- what came of the service is no refusal
    rcases came with same | ⟨response, answered, -⟩
    · obtain rfl := Except.error.inj (result.symm.trans same)
      rw [plain] at refused
      cases refused
    · cases result.symm.trans answered

/-! ### Two writes -/

/-- Requests that stand alone, between titles, in APDUs of up to 300 bytes. -/
def between (calledTitle callingTitle : String) (responseControl : ResponseControl) : Config where
  issueSecurity := false
  turnaroundDelay := 0
  network := { calledTitle, callingTitle, responseControl, sessionless := true, maxOutgoing := 300 }

/-- A client of it on a line where nothing answers, and the session that it starts. -/
def standing (config : Config) : Option Client :=
  (ofConfig (.ofLine {}) .c1222 config 0 fun _ => 5).toOption.map fun c => (startSession.run c).2

theorem reachedBy_standing (h : c ∈ standing config) : ReachedBy .c1222 config c := by
  obtain ⟨new, made, rfl⟩ := Option.map_eq_some_iff.1 h
  cases hn : ofConfig (.ofLine {}) .c1222 config 0 fun _ => 5 with
  | error e => rw [hn] at made; cases made
  | ok c =>
    rw [hn] at made
    obtain rfl := Option.some.inj made
    exact .after (.new hn) .start

/-- A table of 400 bytes. -/
def ramp : Bytes := (List.range 400).map UInt8.ofNat

/-- Between short titles no APDU has more than 218 bytes. The table goes out in three, and where no answer is
expected the write succeeds. -/
theorem writeTable_unrefused_shortTitles : ∃ c c',
    ReachedBy .c1222 (between ".2.5" ".9.1" .never) c ∧ (between ".2.5" ".9.1" .never).longestApdu = 218 ∧
      0 < c.maxPartialWrite ∧ (writeTable (.full 3) ramp).run c = (.ok (), c') ∧
      c'.channel.line.messages.map List.length = [215, 215, 121] ∧
      ∀ t, Made c c' t → Fits (between ".2.5" ".9.1" .never) t := by
  have longest : (between ".2.5" ".9.1" .never).longestApdu = 218 := by decide +kernel
  have room : (between ".2.5" ".9.1" .never).longestApdu ≤
      (between ".2.5" ".9.1" .never).network.maxOutgoing.toNat := by
    rw [longest]
    decide
  obtain ⟨c, started, positive, written, sizes⟩ : ∃ c ∈ standing (between ".2.5" ".9.1" .never),
      0 < c.maxPartialWrite ∧ ((writeTable (.full 3) ramp).run c).1 = .ok () ∧
      ((writeTable (.full 3) ramp).run c).2.channel.line.messages.map List.length = [215, 215, 121] := by
    decide +kernel
  have reached := reachedBy_standing started
  have run := Step.run_eq_of_fst written
  exact ⟨c, _, reached, longest, positive, run, sizes, (writeTable_unrefused reached room positive _ _ run).1⟩

/-- A relative title of so many arcs. -/
def longTitle (arc : Char) (arcs : Nat) : String := String.ofList ((List.replicate arcs ['.', arc]).flatten)

/-- **A write that was cut to fit is refused** between long titles, before anything of it is sent: the pieces are as
long as their limit allows, and the titles do not leave that much room. -/
theorem split_write_refused : ∃ c,
    ReachedBy .c1222 (between (longTitle '1' 64) (longTitle '2' 64) .always) c ∧
      (∃ called calling, Uid.encode (longTitle '1' 64) = .ok called ∧ Uid.encode (longTitle '2' 64) = .ok calling) ∧
      0 < c.maxPartialWrite ∧ c.maxWrite < ramp.length ∧
      ((writeTable (.full 3) ramp).run c).1 = .error (.nok .requestTooLarge (Bytes.bigEndian 4 300)) ∧
      ((writeTable (.full 3) ramp).run c).2.channel.line.messages = [] := by
  obtain ⟨c, started, facts⟩ : ∃ c ∈ standing (between (longTitle '1' 64) (longTitle '2' 64) .always),
      0 < c.maxPartialWrite ∧ c.maxWrite < ramp.length ∧
      ((writeTable (.full 3) ramp).run c).1 = .error (.nok .requestTooLarge (Bytes.bigEndian 4 300)) ∧
      ((writeTable (.full 3) ramp).run c).2.channel.line.messages = [] := by
    decide +kernel
  have encoded : Uid.encode (longTitle '1' 64) = .ok (List.replicate 64 1) ∧
      Uid.encode (longTitle '2' 64) = .ok (List.replicate 64 2) := by
    decide +kernel
  exact ⟨c, reachedBy_standing started, ⟨_, _, encoded⟩, facts⟩

end Client

end Metering
