import Metering.Proofs.SessionRun

set_option autoImplicit false

/-! # Matching answers to requests

The id of an APDU matches the answer to the request: an APDU that answers an earlier id is passed
over. That keeps two exchanges apart as long as their ids differ. Ids move on only when an exchange
comes through. After a fault that keeps the session (a timeout, say) the next request goes out under
the id of the one before, and the late answer to that one is taken for its own.
`SessionRun.matched_iff` says exactly which runs are kept apart. -/

namespace Metering

namespace Exchanged

/-- A meter that names the id of the request in each answer may have produced an APDU as the answer
to this exchange. -/
def MayBeAnsweredBy (e : Exchanged) (m : Acse.Incoming) : Prop :=
  e.transmitted.isSome ∧ m.calledId = some e.id

/-- A later exchange is kept apart from an earlier one. -/
structure KeptApart (earlier later : Exchanged) : Prop where
  /-- No services are returned from an APDU that may be the answer to the earlier one. -/
  answer : ∀ m services, later.accepted = some m → later.result = .ok services →
    ¬ earlier.MayBeAnsweredBy m
  /-- Different APDUs carry different ids. -/
  id : ∀ a a', earlier.transmitted = some a → later.transmitted = some a' → a ≠ a' →
    earlier.id ≠ later.id

/-- One id for both does no harm: the earlier exchange put nothing on the line, or the later one
returns nothing and put nothing else there. -/
def MayShareId (earlier later : Exchanged) : Prop :=
  earlier.transmitted = none ∨
    (∀ services, later.result ≠ .ok services) ∧
      (later.transmitted = none ∨ later.transmitted = earlier.transmitted)

/-- What is accepted as the answer to an exchange names its id. -/
theorem calledId_of_accepted {e : Exchanged} {m : Acse.Incoming} (h : e.accepted = some m) :
    m.calledId = some e.id := by
  unfold accepted at h
  rcases hr : (Associated.attempt e.call.services).run e.start with ⟨r, s⟩
  rw [hr] at h
  cases r with
  | error f => cases h
  | ok answer =>
    have named := (Associated.attempt_answers hr).calledId m h
    have left : s.association.identity = (Associated.prepare e.association).identity := by
      have := Associated.attempt_association e.call.services e.start
      rw [hr] at this
      rw [this]
      exact Associated.pack_identity _ _
    rwa [show s.association.invocationId = e.id from congrArg (·.invocationId) left] at named

/-- Where every request is to be answered, services are returned from an accepted answer only. -/
theorem accepted_of_result {e : Exchanged} {services : List Bytes}
    (always : e.association.parameters.response = .always) (h : e.result = .ok services) :
    ∃ m, e.accepted = some m := by
  rcases hr : (Associated.exchange e.call.services).run e.start with ⟨r, s⟩
  rw [result, hr] at h
  subst h
  obtain ⟨answer, t, hattempt, -⟩ := Step.run_bind_ok.1 hr
  have left : t.association.parameters = e.association.parameters := by
    have := Associated.attempt_association e.call.services e.start
    rw [hattempt] at this
    rw [this]
    exact congrArg (·.settings.parameters)
      ((Associated.pack_identity e.call.services e.start).trans rfl) |>.trans
      (congrArg (·.parameters) (Association.prepare_settings e.association))
  have some := (Associated.attempt_answers hattempt).isSome (left ▸ always)
  obtain ⟨m, rfl⟩ := Option.isSome_iff_exists.1 some
  exact ⟨m, by simp [accepted, hattempt, Except.toOption]⟩

/-- Exchanges under different ids are kept apart. -/
theorem keptApart_of_ne {earlier later : Exchanged} (h : earlier.id ≠ later.id) :
    KeptApart earlier later where
  answer m services taken _ named := by
    have mine := calledId_of_accepted taken
    exact h (Option.some.inj (named.2.symm.trans mine))
  id _ _ _ _ _ := h

/-- Exchanges under one id are kept apart exactly when that does no harm. -/
theorem keptApart_iff_of_eq {earlier later : Exchanged}
    (always : later.association.parameters.response = .always) (h : earlier.id = later.id) :
    KeptApart earlier later ↔ MayShareId earlier later := by
  constructor
  · intro apart
    by_cases silent : earlier.transmitted = none
    · exact .inl silent
    obtain ⟨a, ha⟩ := Option.ne_none_iff_exists'.1 silent
    refine .inr ⟨?_, ?_⟩
    · intro services hresult
      obtain ⟨m, hm⟩ := accepted_of_result always hresult
      -- services come from an accepted answer, and that names the id of both
      refine apart.answer m services hm hresult ⟨by simp [ha], ?_⟩
      rw [calledId_of_accepted hm, h]
    · cases ha' : later.transmitted with
      | none => exact .inl rfl
      | some a' =>
        by_cases hne : a = a'
        · exact .inr (by rw [ha, hne])
        · exact absurd h (apart.id a a' ha ha' hne)
  · rintro (silent | ⟨fails, same⟩)
    · exact ⟨fun _ _ _ _ named => by simp [MayBeAnsweredBy, silent] at named,
        fun a _ ha => by simp [silent] at ha⟩
    · refine ⟨fun _ services _ hresult => absurd hresult (fails services), ?_⟩
      intro a a' ha ha' hne
      rcases same with none | same
      · simp [none] at ha'
      · rw [ha, ha'] at same
        exact absurd (Option.some.inj same).symm hne

end Exchanged

namespace SessionRun

/-- Every exchange of a run is kept apart from all earlier ones. -/
def Matched (r : SessionRun) : Prop :=
  ∀ (i j : Nat) (e e' : Exchanged), i < j → r.exchanges[i]? = some e →
    r.exchanges[j]? = some e' → e.KeptApart e'

/-- **When answers are matched to their requests.** Over a session in which every request is to be
answered, whatever the channel delivers: exactly when no two exchanges repeat an id, except where
that does no harm. -/
theorem matched_iff {r : SessionRun} (session : r.association.options.sessionless = false)
    (always : r.association.parameters.response = .always) (few : r.calls < 2 ^ 32) :
    r.Matched ↔
      ∀ (i j : Nat) (e e' : Exchanged), i < j → r.exchanges[i]? = some e →
        r.exchanges[j]? = some e' → r.Repeats i j → e.MayShareId e' := by
  have response : ∀ e ∈ r.exchanges, e.association.parameters.response = .always := fun e he =>
    (congrArg (·.parameters.response) (exchanges_settings he)).trans always
  constructor
  · intro matched i j e e' hij he he' repeats
    have same := (id_eq_iff session few hij he he').2 repeats
    exact (Exchanged.keptApart_iff_of_eq (response e' (List.mem_of_getElem? he')) same).1
      (matched i j e e' hij he he')
  · intro harmless i j e e' hij he he'
    by_cases same : e.id = e'.id
    · have repeats := (id_eq_iff session few hij he he').1 same
      exact (Exchanged.keptApart_iff_of_eq (response e' (List.mem_of_getElem? he')) same).2
        (harmless i j e e' hij he he' repeats)
    · exact Exchanged.keptApart_of_ne same

/-! ### A late answer

The meter answers the first of two requests after `delay`; the client waits for one second. -/

/-- An association in the clear under which every request is answered. -/
def clearAssociation : Association :=
  let options : NetworkOptions :=
    { calledTitle := ".2.5", callingTitle := ".9.1", responseTimeout := Duration.ofMillis 1000 }
  { parameters := .ofOptions options, options, security := none, invocationId := 1,
    leadingSecurity := none, linkRetries := 0, turnaround := 0, writeTimeout := Duration.ofMillis 6000,
    entropy := fun _ => 7, drawn := 1 }

/-- The answer to invocation 0 with the one response `00 AA`. -/
def answerToFirst : Bytes :=
  [0x60, 0x2B, 0xA1, 0x09, 0x06, 0x07, 0x60, 0x7C, 0x86, 0xF7, 0x54, 0x01, 0x16, 0xA2, 0x04, 0x80, 0x02,
   0x09, 0x01, 0xA4, 0x03, 0x02, 0x01, 0x00, 0xA6, 0x04, 0x80, 0x02, 0x02, 0x05, 0xA8, 0x03, 0x02, 0x01,
   0x09, 0xBE, 0x08, 0x28, 0x06, 0x81, 0x04, 0x80, 0x02, 0x00, 0xAA]

/-- Two reads after logon, the first of which is answered after `delay`. -/
def answeredAfter (delay : Duration) : SessionRun :=
  let first : Call :=
    { channel := { line := { isClosed := false, answers := [fun _ => [(delay, .arrival (.data answerToFirst))]] },
                   connected := true },
      services := [[0x30, 0x00, 0x01]] }
  let found : Association := { clearAssociation.beginSession with invocationId := 0 }
  { association := clearAssociation
    toLogon := []
    afterLogon := [first,
      { channel := ((Associated.exchange first.services).run ⟨first.channel, found⟩).2.channel
        services := [[0x30, 0x00, 0x02]] }] }

/-- An answer in time keeps the two reads apart. -/
theorem matched_answeredAfter_half :
    (answeredAfter (Duration.ofMillis 500)).association.options.sessionless = false ∧
      (answeredAfter (Duration.ofMillis 500)).association.parameters.response = .always ∧
      (answeredAfter (Duration.ofMillis 500)).calls < 2 ^ 32 ∧
      (answeredAfter (Duration.ofMillis 500)).Matched := by
  refine ⟨rfl, rfl, by decide, (matched_iff rfl rfl (by decide)).2 ?_⟩
  intro i j e e' hij he he' repeats
  have hj : j < 2 := (List.getElem?_eq_some_iff.1 he').1
  obtain ⟨rfl, rfl⟩ : i = 0 ∧ j = 1 := ⟨by omega, by omega⟩
  have through : e.comesThrough = true := by
    obtain rfl := Option.some.inj he
    decide +kernel
  have stuck : e.comesThrough = false := by
    refine repeats e ?_
    obtain rfl := Option.some.inj he
    exact List.mem_cons_self
  exact absurd (through.symm.trans stuck) (by simp)

/-- **A late answer is taken for the answer to the next request.** The first read timed out, the
second one goes out under its id and returns `00 AA`, the answer to the first. -/
theorem not_matched_answeredAfter :
    (answeredAfter (Duration.ofMillis 1500)).association.options.sessionless = false ∧
      (answeredAfter (Duration.ofMillis 1500)).association.parameters.response = .always ∧
      (answeredAfter (Duration.ofMillis 1500)).calls < 2 ^ 32 ∧
      ¬ (answeredAfter (Duration.ofMillis 1500)).Matched := by
  refine ⟨rfl, rfl, by decide, fun matched => ?_⟩
  obtain ⟨e, he⟩ : ∃ e, (answeredAfter (Duration.ofMillis 1500)).exchanges[0]? = some e := ⟨_, rfl⟩
  obtain ⟨e', he'⟩ : ∃ e', (answeredAfter (Duration.ofMillis 1500)).exchanges[1]? = some e' := ⟨_, rfl⟩
  have apart := matched 0 1 e e' (by decide) he he'
  have sent : e.transmitted.isSome ∧ e.id = 0 := by
    obtain rfl := Option.some.inj he
    exact ⟨by decide +kernel, rfl⟩
  have taken : e'.accepted.map (·.calledId) = some (some 0) ∧ e'.result.toOption = some [[0x00, 0xAA]] := by
    obtain rfl := Option.some.inj he'
    exact ⟨by decide +kernel, by decide +kernel⟩
  obtain ⟨m, hm, named⟩ := Option.map_eq_some_iff.1 taken.1
  cases hr : e'.result with
  | error f => simp [hr, Except.toOption] at taken
  | ok services => exact apart.answer m services hm hr ⟨sent.1, by rw [named, sent.2]⟩

end SessionRun

end Metering
