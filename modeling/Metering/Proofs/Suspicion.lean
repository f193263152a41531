import Metering.Proofs.Verified

set_option autoImplicit false

/-! # Suspicious answers

An answer may be suspicious in several ways at once (`Acse.Incoming.Defect`), and what an exchange fails
with depends on the order of the checks: the addressing first, then the key id, then the body. A wrong
addressing is never told from tampering. But another key id is a fault of the protocol, before the body is
looked at, and where the cleartext of a secured body cannot be put together again, the tag is not compared
(`Associated.exchange_suspicious`). -/

namespace Metering

namespace Acse

/-! ## Cleartexts that cannot be put together -/

theorem uidElement_error {tag : UInt8} {text : String} {e : Fault} (h : uidElement tag text = .error e) :
    e = .invalidData (.badIdentifier text) := by
  unfold uidElement Uid.tagged Uid.encode at h
  split at h
  · cases h
  · split at h
    · cases h
    · exact (Except.error.inj h).symm

theorem cleartext_error {a : Addressing} {sent : Bool} {bodyHeader : Bytes} {auth : Authentication} {e : Fault}
    (h : cleartext a sent bodyHeader auth = .error e) : ∃ text, e = .invalidData (.badIdentifier text) := by
  unfold cleartext at h
  simp only [absoluteElement_eq] at h
  obtain failed | ⟨context, -, h⟩ := Step.except_bind_error h
  · exact ⟨_, uidElement_error failed⟩
  obtain failed | ⟨called, -, h⟩ := Step.except_bind_error h
  · exact ⟨_, uidElement_error failed⟩
  obtain failed | ⟨calling, -, h⟩ := Step.except_bind_error h
  · exact ⟨_, uidElement_error failed⟩
  cases h

namespace Incoming

variable {m : Incoming}

theorem macInput_error {auth : Authentication} {e : Fault} (h : m.macInput auth = .error e) :
    ∃ text, e = .invalidData (.badIdentifier text) := by
  obtain failed | ⟨clear, -, h⟩ := Step.except_bind_error h
  · exact cleartext_error failed
  · cases h

/-! ## Defects -/

/-- What makes an answer suspicious. -/
inductive Defect where
  | calledId
  | callingId
  | titles
  /-- The key and vector that were sent are for another key. -/
  | keyId
  /-- A secured request is answered in the clear. -/
  | clear
  | noKey
  /-- The body came with another tag than it should have come with. -/
  | tag
  deriving DecidableEq, Repr

/-- An answer has a defect, seen from an association. -/
def Shows (m : Incoming) (o : Association.Opening) : Defect → Prop
  | .calledId => m.calledId = none
  | .callingId => m.callingId = none
  | .titles => o.settings.parameters.callingTitle ≠ m.calledTitle ∨ o.settings.parameters.calledTitle ≠ m.callingTitle
  | .keyId => ∃ sent key, m.authentication = some sent ∧ o.keys = some key ∧ sent.keyId ≠ key.1
  | .clear => o.settings.parameters.mode.isSecure = true ∧ m.hasBody = true ∧ m.mode.isSecure = false
  | .noKey => m.mode.isSecure = true ∧ o.keys = none
  | .tag => m.mode.isSecure = true ∧ ∃ key, o.keys = some key ∧
      ¬ ∃ input plain, m.macInput (m.authentication.getD o.incoming) = .ok input ∧
        m.unsealed key.2 input = (plain, m.tag)

/-- The addressing is suspicious. -/
def Misaddressed (m : Incoming) (o : Association.Opening) : Prop :=
  m.Shows o .calledId ∨ m.Shows o .callingId ∨ m.Shows o .titles

/-- Nothing keeps the body from being looked at: no other key id was sent, and if the tag is wrong, what it should have
been computed from can be put together. -/
structure Examined (m : Incoming) (o : Association.Opening) : Prop where
  keyId : ¬ m.Shows o .keyId
  macInput : m.Shows o .tag → ∃ input, m.macInput (m.authentication.getD o.incoming) = .ok input

/-- An answer that is not late is verified unless its addressing is suspicious, which is told from tampering. -/
theorem verifyResponse_of_current {o : Association.Opening} {id : UInt32} (current : m.isStale id = false) :
    (m.Misaddressed o ∧ ∃ cause, m.verifyResponse o.settings.parameters id = .error (.authentication cause)) ∨
      ¬ m.Misaddressed o ∧ m.verifyResponse o.settings.parameters id = .ok () := by
  unfold verifyResponse
  by_cases noCalled : m.calledId = none
  · exact .inl ⟨.inl noCalled, _, by rw [if_pos (by simp [noCalled])]⟩
  by_cases noCalling : m.callingId = none
  · exact .inl ⟨.inr (.inl noCalling), _, by rw [if_neg (by simp [noCalled]), if_pos (by simp [noCalling])]⟩
  obtain ⟨called, hcalled⟩ := Option.ne_none_iff_exists'.1 noCalled
  have answers : m.calledId = some id := by simpa [isStale, hcalled] using current
  rw [if_neg (by simp [noCalled]), if_neg (by simp [noCalling]), if_neg (by simp [answers])]
  by_cases titles : m.Shows o .titles
  · exact .inl ⟨.inr (.inr titles), _, if_pos titles⟩
  · exact .inr ⟨fun h => h.elim noCalled fun h => h.elim noCalling titles, if_neg titles⟩

end Incoming

end Acse

/-! ## Opening a suspicious body -/

namespace Association

open Acse.Incoming

variable {m : Acse.Incoming} {a : Association}

/-- Another key id is refused before anything else. -/
theorem openBody_of_keyId (h : m.Shows a.opening .keyId) :
    ((openBody m).run a).1 = .error (.protocol .keyIdMismatch) := by
  obtain ⟨sent, key, hm, hkeys, other⟩ := h
  obtain ⟨context, hs, rfl⟩ := Option.map_eq_some_iff.1 hkeys
  replace other : sent.keyId ≠ context.keyId := other
  have refused : (adoptAuthentication sent).run a = (.error (.protocol .keyIdMismatch), a) := by
    unfold adoptAuthentication
    rw [Step.run_get_bind, hs]
    dsimp only
    rw [if_pos other]
    rfl
  unfold openBody
  rw [hm]
  exact congrArg Prod.fst (Step.run_bind_of_error refused)

/-- What a body is opened with, unless another key id was sent. -/
theorem openBody_of_not_keyId (h : ¬ m.Shows a.opening .keyId) :
    ((openBody m).run a).1 =
      if a.parameters.mode.isSecure && m.hasBody && !m.mode.isSecure then .error (.authentication .cleartextAnswer)
      else (m.openBody (a.security.map (·.eax)) (m.authentication.getD a.incomingAuthentication)).map Prod.fst := by
  have opened (b : Association) : ((do
      let a ← get
      if a.parameters.mode.isSecure && m.hasBody && !m.mode.isSecure then
        throw (.authentication .cleartextAnswer)
      let found ← Step.ofExcept (m.openBody (a.security.map (·.eax)) a.incomingAuthentication)
      return found.1 : Step Association Bytes).run b).1 =
      if b.parameters.mode.isSecure && m.hasBody && !m.mode.isSecure then .error (.authentication .cleartextAnswer)
      else (m.openBody (b.security.map (·.eax)) b.incomingAuthentication).map Prod.fst := by
    rw [Step.run_get_bind]
    split
    · rfl
    · rw [Step.run_bind, Step.run_ofExcept]
      cases m.openBody (b.security.map (·.eax)) b.incomingAuthentication <;> rfl
  unfold openBody
  cases hm : m.authentication with
  | none => exact opened a
  | some sent =>
    have noted : (adoptAuthentication sent).run a = (.ok (), { a with incomingAuthentication := sent }) := by
      unfold adoptAuthentication
      rw [Step.run_get_bind]
      split
      next context hs =>
        have same : ¬ sent.keyId ≠ context.keyId := fun other =>
          h ⟨sent, context.keys, hm, congrArg (Option.map SecurityContext.keys) hs, other⟩
        rw [if_neg same]
        rfl
      next => rfl
    dsimp only
    rw [Step.run_bind_of_ok noted]
    exact opened _

/-- A secured body is not opened without a key. -/
theorem openBody_of_noKey {auth : Acse.Authentication} (secure : m.mode.isSecure = true) :
    m.openBody none auth = .error (.authentication .noKeyForResponse) := by
  cases hc : m.control with
  | none => simp [mode, hc, SecurityMode.isSecure] at secure
  | some control =>
    have same : m.mode = control.mode := by simp [mode, hc]
    rw [openBody_eq hc, ← same]
    cases hm : m.mode with
    | clear => simp [hm, SecurityMode.isSecure] at secure
    | authenticated => rfl
    | encrypted => rfl

/-- A secured body that came with another tag is not opened. It is told from tampering if the cleartext can be put
together. -/
theorem openBody_of_tag {eax : Eax} {auth : Acse.Authentication} (secure : m.mode.isSecure = true)
    (other : ¬ ∃ input plain, m.macInput auth = .ok input ∧ m.unsealed eax input = (plain, m.tag)) :
    ∃ e, m.openBody (some eax) auth = .error e ∧
      ((∃ cause, e = .authentication cause) ↔ ∃ input, m.macInput auth = .ok input) := by
  have refused : ∃ e, m.openSecured m.mode eax auth = .error e ∧
      ((∃ cause, e = .authentication cause) ↔ ∃ input, m.macInput auth = .ok input) := by
    rw [openSecured_eq m secure]
    cases made : m.macInput auth with
    | error e =>
      obtain ⟨text, rfl⟩ := macInput_error made
      exact ⟨_, rfl, ⟨fun ⟨_, h⟩ => (nomatch h), fun ⟨_, h⟩ => (nomatch h)⟩⟩
    | ok input =>
      have differ : ¬ Eax.tagsAgree (m.unsealed eax input).2 m.tag = true := fun agree =>
        other ⟨input, (m.unsealed eax input).1, made, Prod.ext rfl (Eax.tagsAgree_iff.1 agree)⟩
      exact ⟨.authentication .tagMismatch, if_neg differ, ⟨fun _ => ⟨input, rfl⟩, fun _ => ⟨_, rfl⟩⟩⟩
  obtain ⟨e, refused, told⟩ := refused
  refine ⟨e, ?_, told⟩
  cases hc : m.control with
  | none => simp [mode, hc, SecurityMode.isSecure] at secure
  | some control =>
    have same : m.mode = control.mode := by simp [mode, hc]
    have plain : m.plainBody control.mode (some eax) auth = m.openSecured m.mode eax auth := by
      rw [← same]
      cases hm : m.mode with
      | clear => simp [hm, SecurityMode.isSecure] at secure
      | authenticated => rfl
      | encrypted => rfl
    rw [openBody_eq hc, plain, refused]
    rfl

/-- **A suspicious body is not opened.** It is told from tampering exactly if nothing keeps it from being looked at. -/
theorem openBody_of_suspicious {d : Defect} (suspicious : m.Shows a.opening d) (addressed : ¬ m.Misaddressed a.opening) :
    ∃ e, ((openBody m).run a).1 = .error e ∧ ((∃ cause, e = .authentication cause) ↔ m.Examined a.opening) := by
  by_cases keyId : m.Shows a.opening .keyId
  · exact ⟨_, openBody_of_keyId keyId, ⟨fun ⟨_, h⟩ => (nomatch h), fun h => absurd keyId h.keyId⟩⟩
  rw [openBody_of_not_keyId keyId]
  cases d with
  | calledId => exact absurd (.inl suspicious) addressed
  | callingId => exact absurd (.inr (.inl suspicious)) addressed
  | titles => exact absurd (.inr (.inr suspicious)) addressed
  | keyId => exact absurd suspicious keyId
  | clear =>
    obtain ⟨secure, body, clear⟩ := suspicious
    replace secure : a.parameters.mode.isSecure = true := secure
    refine ⟨.authentication .cleartextAnswer, if_pos (by simp [secure, body, clear]), ⟨fun _ => ⟨keyId, fun tag => ?_⟩,
      fun _ => ⟨_, rfl⟩⟩⟩
    exact absurd (clear.symm.trans tag.1) (by simp)
  | noKey =>
    obtain ⟨secure, none⟩ := suspicious
    replace none : a.security = .none := Option.map_eq_none_iff.1 none
    rw [if_neg (by simp [secure]), none, Option.map_none, openBody_of_noKey secure]
    refine ⟨_, rfl, ⟨fun _ => ⟨keyId, fun tag => ?_⟩, fun _ => ⟨_, rfl⟩⟩⟩
    obtain ⟨-, key, some, -⟩ := tag
    simp [opening, none] at some
  | tag =>
    obtain ⟨secure, key, some, other⟩ := id suspicious
    obtain ⟨context, hs, rfl⟩ := Option.map_eq_some_iff.1 some
    obtain ⟨e, refused, told⟩ := openBody_of_tag secure other
    replace refused : m.openBody (.some context.eax) (m.authentication.getD a.incomingAuthentication) = .error e := refused
    rw [if_neg (by simp [secure]), hs, Option.map_some, refused]
    exact ⟨e, rfl, told.trans ⟨fun made => ⟨keyId, fun _ => made⟩, fun h => h.macInput suspicious⟩⟩

end Association

/-! ## Exchanges with a suspicious answer -/

namespace Associated

variable {services : List Bytes} {apdu bytes : Bytes} {retries : Nat} {s w t : Associated} {m : Acse.Incoming}

/-- An exchange fails as its wait does, if that may not be repeated. -/
theorem exchange_of_receive_error {e : Fault} (wait : Waits services s retries apdu w)
    (received : receive.run w = (.error e, t)) (final : allowsResend e = false) :
    ((exchange services).run s).1 = .error e := by
  have heard : isSilence e = false := by
    unfold isSilence
    split
    · cases final
    · rfl
  have once (again : Option (Step Associated (Option Acse.Incoming))) : (awaitOnce again).run w = (.error e, t) := by
    unfold awaitOnce
    rw [Step.run_outcome_bind, received]
    dsimp only
    rw [Step.run_get_bind]
    split
    · rfl
    rw [if_neg (by simp [heard])]
    cases again with
    | none => rfl
    | some next =>
      dsimp only
      rw [if_neg (by simp [final])]
      rfl
  have failed : (attempt services).run s = (.error e, t) := by
    rw [attempt_of_waits wait]
    cases retries with
    | zero => exact once none
    | succ retries => exact once _
  exact congrArg Prod.fst (Step.run_bind_of_error failed)

/-- **An exchange with a suspicious answer fails**, in whatever mode and in however many ways the answer is suspicious.
It is told from tampering exactly if its addressing is suspicious or nothing keeps its body from being looked at. -/
theorem exchange_suspicious (wait : Waits services s retries apdu w) (looks : w.LooksAt bytes)
    (parsed : Acse.Incoming.parse bytes s.association.parameters.maxIncoming = .ok m)
    (current : m.isStale (prepare s.association).invocationId = false)
    (suspicious : ∃ d, m.Shows s.association.opening d) :
    ∃ e, ((exchange services).run s).1 = .error e ∧
      ((∃ cause, e = .authentication cause) ↔
        m.Misaddressed s.association.opening ∨ m.Examined s.association.opening) := by
  have opening : w.association.opening = s.association.opening := by
    rw [wait.association, pack_opening]
  have id : w.association.invocationId = (prepare s.association).invocationId :=
    wait.association ▸ congrArg (·.invocationId) (pack_identity services s)
  have parameters : w.association.parameters = s.association.parameters := congrArg (·.settings.parameters) opening
  rw [← parameters] at parsed
  rw [← id] at current
  rw [← opening] at suspicious ⊢
  obtain ⟨c, received⟩ := receive_of_looksAt looks parsed current
  obtain ⟨misaddressed, cause, refused⟩ | ⟨addressed, verified⟩ :=
    Acse.Incoming.verifyResponse_of_current (o := w.association.opening) current
  · replace refused : m.verifyResponse w.association.parameters w.association.invocationId = _ := refused
    rw [refused] at received
    exact ⟨_, exchange_of_receive_error wait received rfl, ⟨fun _ => .inl misaddressed, fun _ => ⟨cause, rfl⟩⟩⟩
  · replace verified : m.verifyResponse w.association.parameters w.association.invocationId = _ := verified
    rw [verified] at received
    obtain ⟨d, suspicious⟩ := suspicious
    rw [← Association.advanceId_opening] at suspicious addressed ⊢
    obtain ⟨e, refused, told⟩ := Association.openBody_of_suspicious suspicious addressed
    refine ⟨e, ?_, told.trans (or_iff_right addressed).symm⟩
    have opened : (onAssociation (Association.openBody m)).run ⟨c, w.association.advanceId⟩ =
        (.error e, ⟨c, ((Association.openBody m).run w.association.advanceId).2⟩) :=
      Step.run_within_eq.2 ⟨_, Step.run_eq_of_fst refused, rfl⟩
    rw [exchange_of_receive wait received]
    exact congrArg Prod.fst (Step.run_bind_of_error opened)

/-! ### Answers to a read

Under the association that authenticates, with key 1. -/

/-- What is read first once the APDU of an exchange was sent. -/
def firstRead (services : List Bytes) (s : Associated) : Option Bytes :=
  match (pack services).run s with
  | (.ok apdu, t) =>
    match (send apdu).run t with
    | (.ok (), w) => ((Channel.readApdu w.association.options.responseTimeout).run w.channel).1.toOption
    | _ => none
  | _ => none

/-- An exchange that waits looks at what it reads first. -/
theorem looksAt_of_firstRead (h : firstRead services s = some bytes)
    (awaited : s.association.parameters.response ≠ .never) (patient : s.association.options.responseTimeout ≠ 0) :
    ∃ retries apdu w, Waits services s retries apdu w ∧ w.LooksAt bytes := by
  unfold firstRead at h
  split at h
  next apdu t packed =>
    split at h
    next w sent =>
      have settings : w.association.settings = s.association.settings := by
        have same : w.association = t.association := (send_association apdu).of_run sent
        have kept := congrArg (·.settings) (pack_opening services s)
        rw [packed] at kept
        exact same ▸ kept
      have waits := Waits.first packed sent (congrArg (·.parameters.response) settings ▸ awaited)
      replace patient : w.association.options.responseTimeout ≠ 0 :=
        congrArg (·.options.responseTimeout) settings ▸ patient
      refine ⟨_, apdu, w, waits, ?_⟩
      rcases hread : (Channel.readApdu w.association.options.responseTimeout).run w.channel with ⟨r, c⟩
      rw [hread] at h
      cases r with
      | error e => cases h
      | ok read =>
        obtain rfl := Option.some.inj h
        refine Reaches.reads (c := c) ?_ ?_
        · rwa [Nat.add_sub_cancel_left]
        · rwa [Nat.add_sub_cancel_left]
    next => cases h
  next => cases h

/-- The fault that an exchange ends with. -/
def exchangeFault (services : List Bytes) (s : Associated) : Option Fault :=
  match ((exchange services).run s).1 with
  | .error e => some e
  | .ok _ => none

/-- The read, with some other answer. -/
def suspectRead (answer : Bytes) : Associated :=
  { answeredRead with
    channel :=
      { line := { isClosed := false, answers := [fun _ => [(Duration.ofMillis 10, .arrival (.data answer))]] }
        connected := true } }

/-- An answer in the clear, without the calling id. -/
def clearAnswer : Bytes :=
  [0x60, 0x0E, 0xA4, 0x03, 0x02, 0x01, 0x01, 0xBE, 0x07, 0x28, 0x05, 0x81, 0x03, 0x80, 0x01, 0x00]

/-- An answer is told from tampering that is suspicious in two ways. -/
theorem exchange_suspicious_clearAnswer :
    ∃ m, Acse.Incoming.parse clearAnswer 0x7FFF = .ok m ∧
      m.Shows (suspectRead clearAnswer).association.opening .callingId ∧
      m.Shows (suspectRead clearAnswer).association.opening .clear ∧
      ∃ cause, ((exchange [[0x30, 0x00, 0x01]]).run (suspectRead clearAnswer)).1 = .error (.authentication cause) := by
  have read : firstRead [[0x30, 0x00, 0x01]] (suspectRead clearAnswer) = some clearAnswer := by decide +kernel
  obtain ⟨retries, apdu, w, wait, looks⟩ := looksAt_of_firstRead read (by decide) (by decide)
  have found : (Acse.Incoming.parse clearAnswer 0x7FFF).toOption.map (fun m => (m.calledId, m.callingId)) =
        some (some 1, none) ∧
      (Acse.Incoming.parse clearAnswer 0x7FFF).toOption.map (fun m => (m.hasBody, m.mode)) = some (true, .clear) := by
    decide +kernel
  cases parsed : Acse.Incoming.parse clearAnswer 0x7FFF with
  | error e => simp [parsed, Except.toOption] at found
  | ok m =>
    simp only [parsed, Except.toOption, Option.map_some, Option.some.injEq, Prod.mk.injEq] at found
    obtain ⟨⟨calledId, callingId⟩, body, mode⟩ := found
    have current : m.isStale (prepare (suspectRead clearAnswer).association).invocationId = false := by
      rw [Acse.Incoming.isStale, calledId]
      decide
    have clear : m.Shows (suspectRead clearAnswer).association.opening .clear := ⟨rfl, body, by rw [mode]; rfl⟩
    obtain ⟨e, failed, told⟩ := exchange_suspicious wait looks parsed current ⟨.clear, clear⟩
    obtain ⟨cause, rfl⟩ := told.2 (.inl (.inr (.inl callingId)))
    exact ⟨m, rfl, callingId, clear, cause, failed⟩

/-- The answer with key 9 and vector 5 sent along. -/
def otherKey : Bytes :=
  [0x60, 0x28, 0xA4, 0x03, 0x02, 0x01, 0x01, 0xA8, 0x03, 0x02, 0x01, 0x07, 0xAC, 0x0F, 0xA2, 0x0D, 0xA0, 0x0B, 0xA1,
   0x09, 0x80, 0x01, 0x09, 0x81, 0x04, 0x00, 0x00, 0x00, 0x05, 0xBE, 0x0B, 0x28, 0x09, 0x81, 0x07, 0x84, 0x01, 0x00,
   0xD7, 0x6B, 0xF2, 0x31]

/-- **An answer under another key is not told from tampering.** It is a fault of the protocol. -/
theorem otherKey_mistaken :
    ¬ ∀ (services : List Bytes) (s w : Associated) (retries : Nat) (apdu bytes : Bytes) (m : Acse.Incoming),
      Waits services s retries apdu w → w.LooksAt bytes →
        Acse.Incoming.parse bytes s.association.parameters.maxIncoming = .ok m →
          m.isStale (prepare s.association).invocationId = false → (∃ d, m.Shows s.association.opening d) →
            ∃ cause, ((exchange services).run s).1 = .error (.authentication cause) := by
  intro told
  have read : firstRead [[0x30, 0x00, 0x01]] (suspectRead otherKey) = some otherKey := by decide +kernel
  obtain ⟨retries, apdu, w, wait, looks⟩ := looksAt_of_firstRead read (by decide) (by decide)
  have found : (Acse.Incoming.parse otherKey 0x7FFF).toOption.map (fun m => (m.calledId, m.authentication)) =
      some (some 1, some ⟨9, 5⟩) := by
    decide +kernel
  cases parsed : Acse.Incoming.parse otherKey 0x7FFF with
  | error e => simp [parsed, Except.toOption] at found
  | ok m =>
    simp only [parsed, Except.toOption, Option.map_some, Option.some.injEq, Prod.mk.injEq] at found
    obtain ⟨calledId, sent⟩ := found
    have current : m.isStale (prepare (suspectRead otherKey).association).invocationId = false := by
      rw [Acse.Incoming.isStale, calledId]
      decide
    have keyId : m.Shows (suspectRead otherKey).association.opening .keyId := ⟨_, _, sent, rfl, by decide⟩
    obtain ⟨cause, failed⟩ := told _ _ w retries apdu otherKey m wait looks parsed current ⟨.keyId, keyId⟩
    have refused : exchangeFault [[0x30, 0x00, 0x01]] (suspectRead otherKey) = some (.protocol .keyIdMismatch) := by
      decide +kernel
    rw [exchangeFault, failed] at refused
    cases refused

end Associated

end Metering
