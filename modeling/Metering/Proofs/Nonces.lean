import Metering.Proofs.Cleartext
import Metering.Proofs.SessionRun

set_option autoImplicit false

/-! # Cleartexts that come twice

The key stream of an encrypted body follows from its cleartext alone, so two different bodies must
never be bound to one cleartext. Without sessions every request has a vector of its own. Within a
session there is one vector, sent along with the first sealed APDU, and what tells the later ones
apart is the invocation id. It is not moved on by an exchange that failed, so the next body of the
same length is encrypted with the same key stream. `SessionRun.nonceUnique_iff` says exactly when
that happens. -/

namespace Metering

open Step (Moves Same)

/-! ## Vectors -/

namespace SecurityContext

/-- The vectors given out did not go back. -/
def NotBack (c c' : SecurityContext) : Prop :=
  ∀ last, c.lastVector = some last → ∃ last', c'.lastVector = some last' ∧ last ≤ last'

instance : IsPreorder SecurityContext NotBack where
  refl _ last h := ⟨last, h, UInt32.le_refl last⟩
  trans _ _ _ h h' last hlast := by
    obtain ⟨next, hnext, le⟩ := h last hlast
    obtain ⟨final, hfinal, le'⟩ := h' next hnext
    exact ⟨final, hfinal, UInt32.le_trans le le'⟩

theorem lt_succ_of_ne {v : UInt32} (h : v ≠ 0xFFFFFFFF) : v < v + 1 := by
  have bound := v.toNat_lt
  have ne : v.toNat ≠ 0xFFFFFFFF := fun eq => h (UInt32.toNat_inj.1 eq)
  rw [UInt32.lt_iff_toNat_lt, UInt32.toNat_add, UInt32.toNat_one, Nat.mod_eq_of_lt (by omega)]
  omega

/-- A vector that is given out is kept as the last one and comes after all before. -/
theorem nextVector_run (c : SecurityContext) :
    ((nextVector.run c).2.lastVector = c.lastVector ∧ ∃ e, (nextVector.run c).1 = .error e) ∨
      ∃ iv, (nextVector.run c).1 = .ok iv ∧ (nextVector.run c).2.lastVector = some iv ∧
        ∀ last, c.lastVector = some last → last < iv := by
  unfold nextVector
  simp only [Step.run_get_bind, Step.run_set_bind]
  cases hlast : c.lastVector with
  | none => exact .inr ⟨c.candidate, rfl, rfl, by simp⟩
  | some last =>
    dsimp only
    by_cases used : c.candidate ≤ last
    · rw [if_pos used]
      by_cases largest : last = 0xFFFFFFFF
      · rw [if_pos largest]
        exact .inl ⟨rfl, _, rfl⟩
      · rw [if_neg largest]
        refine .inr ⟨last + 1, rfl, rfl, ?_⟩
        intro last' h
        obtain rfl := Option.some.inj h
        exact lt_succ_of_ne largest
    · rw [if_neg used]
      refine .inr ⟨c.candidate, rfl, rfl, ?_⟩
      intro last' h
      obtain rfl := Option.some.inj h
      exact UInt32.not_le.1 used

theorem nextVector_notBack : Moves NotBack nextVector := by
  intro c last hlast
  rcases nextVector_run c with ⟨same, -⟩ | ⟨iv, -, kept, above⟩
  · exact ⟨last, same.trans hlast, UInt32.le_refl last⟩
  · exact ⟨iv, kept, UInt32.le_of_lt (above last hlast)⟩

end SecurityContext

/-! ## The seal of an exchange -/

namespace Association

/-- The vectors of the association did not go back. -/
def NotBack (a a' : Association) : Prop :=
  ∀ c, a.security = some c → ∃ c', a'.security = some c' ∧ SecurityContext.NotBack c c'

instance : IsPreorder Association NotBack where
  refl _ c h := ⟨c, h, refl_of _ c⟩
  trans _ _ _ h h' c hc := by
    obtain ⟨next, hnext, le⟩ := h c hc
    obtain ⟨final, hfinal, le'⟩ := h' next hnext
    exact ⟨final, hfinal, trans_of _ le le'⟩

/-- With a vector in force nothing changes, and the vector is not sent along again. -/
theorem chooseSeal_announced {a : Association} {v : Acse.Authentication} (h : a.authentication = some v) :
    (chooseSeal.run a).2 = a ∧
      ∀ s, (chooseSeal.run a).1 = .ok (some s) → s.authentication = v ∧ s.sendAuthentication = false := by
  unfold chooseSeal
  rw [Step.run_get_bind]
  split
  next _ c hc _ =>
    by_cases cleared : c.isCleared
    · rw [if_pos cleared]
      exact ⟨rfl, fun s hs => by cases hs⟩
    · rw [if_neg cleared]
      have chosen : (chooseAuthentication c).run a = (.ok (v, false), a) := by
        unfold chooseAuthentication
        rw [Step.run_get_bind, h]
        rfl
      simp only [Step.run_bind, chosen]
      exact ⟨rfl, fun s hs => by obtain rfl := Option.some.inj (Except.ok.inj hs); exact ⟨rfl, rfl⟩⟩
  next => exact ⟨rfl, fun s hs => by cases hs⟩

/-- With no vector in force a new one is taken, which comes after all before, is put in force and
sent along. -/
theorem chooseSeal_new {a : Association} (h : a.authentication = none) :
    NotBack a (chooseSeal.run a).2 ∧
      ∀ s, (chooseSeal.run a).1 = .ok (some s) →
        s.sendAuthentication = true ∧ (chooseSeal.run a).2.authentication = some s.authentication ∧
          ∃ c c', a.security = some c ∧ (chooseSeal.run a).2.security = some c' ∧
            c'.lastVector = some s.authentication.vector ∧
            ∀ last, c.lastVector = some last → last < s.authentication.vector := by
  unfold chooseSeal
  rw [Step.run_get_bind]
  split
  next _ c hc _ =>
    by_cases cleared : c.isCleared
    · rw [if_pos cleared]
      exact ⟨refl_of NotBack a, fun s hs => by cases hs⟩
    rw [if_neg cleared]
    have kept := SecurityContext.nextVector_notBack c
    have given := SecurityContext.nextVector_run c
    rcases hn : SecurityContext.nextVector.run c with ⟨r, c'⟩
    rw [hn] at kept given
    cases r with
    | error e =>
      have chosen : (chooseAuthentication c).run a =
          (.error e, { a with security := some c' }) := by
        unfold chooseAuthentication
        rw [Step.run_get_bind]
        split
        next v hv => simp [h] at hv
        next =>
          simp only [hn]
          rfl
      simp only [Step.run_bind, chosen]
      refine ⟨fun d hd => ⟨c', rfl, ?_⟩, fun s hs => by cases hs⟩
      obtain rfl := Option.some.inj (hc.symm.trans hd)
      exact kept
    | ok iv =>
      have chosen : (chooseAuthentication c).run a = (.ok (⟨c'.keyId, iv⟩, true),
          { a with security := some c', authentication := some ⟨c'.keyId, iv⟩ }) := by
        unfold chooseAuthentication
        rw [Step.run_get_bind, h]
        simp only [hn]
        rfl
      simp only [Step.run_bind, chosen]
      refine ⟨fun d hd => ⟨c', rfl, ?_⟩, fun s hs => ?_⟩
      · obtain rfl := Option.some.inj (hc.symm.trans hd)
        exact kept
      · obtain rfl := Option.some.inj (Except.ok.inj hs)
        obtain ⟨-, e, he⟩ | ⟨iv', hiv, last, above⟩ := given
        · cases he
        · obtain rfl := Except.ok.inj hiv
          exact ⟨rfl, rfl, c, c', hc, rfl, last, above⟩
  next => exact ⟨refl_of NotBack a, fun s hs => by cases hs⟩

/-- Building does nothing to the association but choose the seal. -/
theorem build_run (o : Acse.Outgoing) (a : Association) :
    ((build o).run a).2 = (chooseSeal.run a).2 ∧
      ∀ bytes, ((build o).run a).1 = .ok bytes →
        ∃ s, (chooseSeal.run a).1 = .ok s ∧ o.build a.parameters s = .ok bytes := by
  have kept := congrArg (·.settings.parameters) (chooseSeal_identity a)
  unfold build
  rw [Step.run_bind]
  rcases hc : chooseSeal.run a with ⟨r, a'⟩
  rw [hc] at kept
  cases r with
  | error e => exact ⟨rfl, fun bytes h => by cases h⟩
  | ok s =>
    dsimp only
    rw [Step.run_get_bind, Step.run_ofExcept, show a'.parameters = a.parameters from kept]
    exact ⟨rfl, fun bytes h => ⟨s, rfl, h⟩⟩

/-- Only a secured association has a seal. -/
theorem chooseSeal_secure {a : Association} {s : Acse.Seal} (h : (chooseSeal.run a).1 = .ok (some s)) :
    a.parameters.mode.isSecure = true := by
  unfold chooseSeal at h
  rw [Step.run_get_bind] at h
  split at h
  next secure => exact secure
  next => cases h

end Association

namespace Exchanged

open Association

/-- How the seal of an exchange was chosen. -/
def chosen (e : Exchanged) : Except Fault (Option Acse.Seal) × Association :=
  chooseSeal.run (Associated.prepare e.association)

/-- What an exchange sends. -/
def request (e : Exchanged) : Acse.Outgoing :=
  ⟨e.id, none, Associated.withLeading (Associated.prepare e.association) e.call.services⟩

/-- The cleartext that the body of a transmitted APDU was sealed under, and that body. -/
def sealed (e : Exchanged) : Option (Bytes × Bytes) :=
  match e.transmitted, e.chosen.1 with
  | some _, .ok (some s) => (e.request.bound e.association.parameters s).toOption
  | _, _ => none

theorem after_sealing (e : Exchanged) :
    e.after.security = e.chosen.2.security ∧ e.after.authentication = e.chosen.2.authentication := by
  have left := e.after_outgoing
  have packed : ((Associated.pack e.call.services).run e.start).2.association = e.chosen.2 :=
    (build_run e.request _).1
  rw [packed] at left
  have moved (a : Association) : a.advanceId.security = a.security ∧
      a.advanceId.authentication = a.authentication := by
    unfold advanceId
    split <;> exact ⟨rfl, rfl⟩
  split at left
  · exact ⟨(congrArg (·.security) left).trans (moved _).1,
      (congrArg (·.authentication) left).trans (moved _).2⟩
  · exact ⟨congrArg (·.security) left, congrArg (·.authentication) left⟩

theorem prepare_parameters (e : Exchanged) :
    (Associated.prepare e.association).parameters = e.association.parameters :=
  congrArg (·.parameters) (prepare_settings e.association)

/-- An APDU that was packed was built under the seal that was chosen. -/
theorem packed_ok {e : Exchanged} {apdu : Bytes} (h : ((Associated.pack e.call.services).run e.start).1 = .ok apdu) :
    ∃ s, e.chosen.1 = .ok s ∧ e.request.build e.association.parameters s = .ok apdu := by
  obtain ⟨s, chose, built⟩ := (build_run e.request (Associated.prepare e.association)).2 apdu h
  rw [prepare_parameters] at built
  exact ⟨s, chose, built⟩

theorem packed_of_transmitted {e : Exchanged} {apdu : Bytes} (h : e.transmitted = some apdu) :
    ((Associated.pack e.call.services).run e.start).1 = .ok apdu := by
  unfold transmitted at h
  dsimp only at h
  split at h
  · cases h
  · cases packed : ((Associated.pack e.call.services).run e.start).1 with
    | error f => simp [packed, Except.toOption] at h
    | ok bytes => simpa [packed, Except.toOption] using h

/-- **A sealed exchange** transmitted an APDU that ends with its body, sealed under its cleartext. -/
theorem sealed_ok {e : Exchanged} {clear body : Bytes} (h : e.sealed = some (clear, body)) :
    ∃ s, e.chosen.1 = .ok (some s) ∧ e.request.bound e.association.parameters s = .ok (clear, body) ∧
      Acse.Outgoing.Fits body.length ∧ ∃ front, e.transmitted = some (front ++
        (Acse.bodyHeader (Acse.Outgoing.control e.association.parameters) body.length tagLength ++
          ((Acse.Outgoing.sealedBody e.association.parameters s clear body).1 ++
            (Acse.Outgoing.sealedBody e.association.parameters s clear body).2))) := by
  unfold sealed at h
  split at h
  next apdu s sent chose =>
    have bound : e.request.bound e.association.parameters s = .ok (clear, body) := by
      cases hb : e.request.bound e.association.parameters s with
      | error f => simp [hb, Except.toOption] at h
      | ok pair =>
        simp only [hb, Except.toOption, Option.some.injEq] at h
        rw [h]
    obtain ⟨s', chose', built⟩ := packed_ok (packed_of_transmitted sent)
    obtain rfl := Except.ok.inj (chose.symm.trans chose')
    have secure := chooseSeal_secure chose
    rw [prepare_parameters] at secure
    obtain ⟨clear', body', front, bound', fits, rfl⟩ := Acse.Outgoing.build_ok secure built
    obtain ⟨rfl, rfl⟩ := Prod.mk.inj (Except.ok.inj (bound.symm.trans bound'))
    exact ⟨s, chose, bound, fits, front, sent⟩
  next => cases h

end Exchanged

/-! ## The vectors of a run -/

namespace Exchanged

open Association

/-- Within a session the first seal announces its vector, and that stays in force. -/
def InForce (v : Acse.Authentication) (a : Association) : Prop :=
  a.options.sessionless = false ∧ a.authentication = some v

theorem inForce_after {v : Acse.Authentication} {e : Exchanged} (h : InForce v e.association) :
    InForce v e.after := by
  refine ⟨(congrArg (·.options.sessionless) e.after_settings).trans h.1, ?_⟩
  rw [e.after_sealing.2, chosen, Associated.prepare_of_session h.1, (chooseSeal_announced h.2).1]
  exact h.2

theorem inForce_afterLogon {v : Acse.Authentication} {a : Association} (h : InForce v a) :
    InForce v a.afterLogon := by
  refine ⟨(congrArg (·.options.sessionless) (afterLogon_settings a)).trans h.1, ?_⟩
  simpa [afterLogon, h.1] using h.2

/-- What a sealed exchange of a session leaves in force, and when it sends that along. -/
theorem inForce_of_chosen {e : Exchanged} {s : Acse.Seal}
    (session : e.association.options.sessionless = false) (h : e.chosen.1 = .ok (some s)) :
    InForce s.authentication e.after ∧ s.sendAuthentication = e.association.authentication.isNone := by
  have options := (congrArg (·.options.sessionless) e.after_settings).trans session
  have left := e.after_sealing.2
  rw [chosen, Associated.prepare_of_session session] at h left
  cases ha : e.association.authentication with
  | some v =>
    obtain ⟨same, announced⟩ := chooseSeal_announced ha
    obtain ⟨rfl, sent⟩ := announced s h
    rw [same, ha] at left
    exact ⟨⟨options, left⟩, sent⟩
  | none =>
    obtain ⟨sent, put, -⟩ := (chooseSeal_new ha).2 s h
    exact ⟨⟨options, left.trans put⟩, sent⟩

/-- Without sessions the vectors given out go up. -/
def Passed (v : UInt32) (a : Association) : Prop :=
  a.options.sessionless = true ∧
    ∃ c, a.security = some c ∧ ∃ last, c.lastVector = some last ∧ v ≤ last

theorem prepare_of_sessionless {a : Association} (h : a.options.sessionless = true) :
    (Associated.prepare a).authentication = none ∧ (Associated.prepare a).security = a.security := by
  unfold Associated.prepare
  rw [if_pos h]
  dsimp only
  split <;> exact ⟨rfl, rfl⟩

theorem passed_after {v : UInt32} {e : Exchanged} (h : Passed v e.association) : Passed v e.after := by
  obtain ⟨sessionless, c, hc, last, hlast, le⟩ := h
  obtain ⟨fresh, security⟩ := prepare_of_sessionless sessionless
  obtain ⟨c', hc', notBack⟩ := (chooseSeal_new fresh).1 c (security.trans hc)
  obtain ⟨last', hlast', le'⟩ := notBack last hlast
  exact ⟨(congrArg (·.options.sessionless) e.after_settings).trans sessionless, c',
    e.after_sealing.1.trans hc', last', hlast', UInt32.le_trans le le'⟩

theorem passed_afterLogon {v : UInt32} {a : Association} (h : Passed v a) : Passed v a.afterLogon := by
  rw [afterLogon, if_pos h.1]
  exact h

/-- A sealed exchange without sessions takes a vector that was not passed yet. -/
theorem passed_of_chosen {e : Exchanged} {s : Acse.Seal}
    (sessionless : e.association.options.sessionless = true) (h : e.chosen.1 = .ok (some s)) :
    Passed s.authentication.vector e.after ∧
      ∀ v, Passed v e.association → v < s.authentication.vector := by
  obtain ⟨fresh, security⟩ := prepare_of_sessionless sessionless
  obtain ⟨-, -, c, c', hc, hc', last, above⟩ := (chooseSeal_new fresh).2 s h
  refine ⟨⟨(congrArg (·.options.sessionless) e.after_settings).trans sessionless, c',
    e.after_sealing.1.trans hc', _, last, UInt32.le_refl _⟩, ?_⟩
  rintro v ⟨-, d, hd, last', hlast', le⟩
  obtain rfl := Option.some.inj (hc.symm.trans (security.trans hd))
  exact UInt32.lt_of_le_of_lt le (above last' hlast')

end Exchanged

namespace SessionRun

variable {r : SessionRun} {i j : Nat} {e e' : Exchanged}

/-- Two exchanges of a session have all of the cleartext in common except for the length of the
body: the vector was announced before, and they repeat an id. -/
def SharesStream (r : SessionRun) (i j : Nat) (e : Exchanged) : Prop :=
  r.association.options.sessionless = false ∧ e.association.authentication.isSome ∧ r.Repeats i j

/-- **When two bodies are bound to one cleartext.** -/
theorem clear_eq_iff (few : r.calls < 2 ^ 32) (hij : i < j) (he : r.exchanges[i]? = some e)
    (he' : r.exchanges[j]? = some e') {clear clear' body body' : Bytes}
    (h : e.sealed = some (clear, body)) (h' : e'.sealed = some (clear', body')) :
    clear = clear' ↔ r.SharesStream i j e ∧ body.length = body'.length := by
  have settings := exchanges_settings (List.mem_of_getElem? he)
  have settings' := exchanges_settings (List.mem_of_getElem? he')
  obtain ⟨s, chose, bound, fits, -⟩ := Exchanged.sealed_ok h
  obtain ⟨s', chose', bound', fits', -⟩ := Exchanged.sealed_ok h'
  have parameters : e'.association.parameters = e.association.parameters :=
    (congrArg (·.parameters) settings').trans (congrArg (·.parameters) settings).symm
  rw [parameters] at bound'
  rw [Acse.Outgoing.bound_eq_iff rfl rfl bound bound' fits fits', SharesStream]
  have options := congrArg (·.options.sessionless) settings
  have options' := congrArg (·.options.sessionless) settings'
  cases session : r.association.options.sessionless with
  | false =>
    -- the vector of the earlier exchange is in force at the later one
    obtain ⟨force, sent⟩ := Exchanged.inForce_of_chosen (options.trans session) chose
    obtain ⟨session', later⟩ := exchanges_later (fun _ => Exchanged.inForce_after)
      (fun _ => Exchanged.inForce_afterLogon) hij he he' force
    have announced := (Association.chooseSeal_announced later).2 s' (by
      rwa [Exchanged.chosen, Associated.prepare_of_session session'] at chose')
    rw [show e.request.callingId = e.id from rfl, show e'.request.callingId = e'.id from rfl,
      id_eq_iff session few hij he he', announced.1, announced.2, sent]
    cases e.association.authentication <;> simp
  | true =>
    -- the later exchange takes a vector above that of the earlier one
    obtain ⟨passed, -⟩ := Exchanged.passed_of_chosen (options.trans session) chose
    have later := exchanges_later (fun _ => Exchanged.passed_after)
      (fun _ => Exchanged.passed_afterLogon) hij he he' passed
    have above := (Exchanged.passed_of_chosen (options'.trans session) chose').2 _ later
    constructor
    · rintro ⟨-, -, same, -⟩
      rw [same] at above
      exact absurd above (UInt32.lt_irrefl _)
    · rintro ⟨⟨never, -⟩, -⟩
      cases never

/-- No two bodies of a run that differ are sealed under one cleartext. -/
def NonceUnique (r : SessionRun) : Prop :=
  ∀ (i j : Nat) (e e' : Exchanged) (clear body body' : Bytes), i < j → r.exchanges[i]? = some e →
    r.exchanges[j]? = some e' → e.sealed = some (clear, body) → e'.sealed = some (clear, body') →
      body = body'

/-- **When no key stream is used for two bodies**, under a secured association and whatever the
channel delivers: exactly when two exchanges that repeat an id, after the vector was announced, send
the same body or bodies of different lengths. -/
theorem nonceUnique_iff {r : SessionRun} (few : r.calls < 2 ^ 32) :
    r.NonceUnique ↔
      ∀ (i j : Nat) (e e' : Exchanged) (clear clear' body body' : Bytes), i < j →
        r.exchanges[i]? = some e → r.exchanges[j]? = some e' → e.sealed = some (clear, body) →
          e'.sealed = some (clear', body') → r.SharesStream i j e → body.length = body'.length →
            body = body' := by
  constructor
  · intro unique i j e e' clear clear' body body' hij he he' h h' shares length
    obtain rfl := (clear_eq_iff few hij he he' h h').2 ⟨shares, length⟩
    exact unique i j e e' clear body body' hij he he' h h'
  · intro same i j e e' clear body body' hij he he' h h'
    obtain ⟨shares, length⟩ := (clear_eq_iff few hij he he' h h').1 rfl
    exact same i j e e' clear clear body body' hij he he' h h' shares length

/-! ### A silent meter

Three reads after logon, none of which is answered. The first one announces the vector. -/

/-- An association that encrypts, under a key of ones. -/
def encryptedAssociation : Association :=
  let key : SecretKey := ⟨List.replicate 16 0x11⟩
  let options : NetworkOptions :=
    { calledTitle := ".2.5", callingTitle := ".9.1", securityMode := .encrypted, securityKeyId := 1,
      responseTimeout := Duration.ofMillis 1000 }
  { parameters := .ofOptions options, options
    security := some { key, keyId := 1, eax := .ofCipher (Aes.cipher (Block.ofBytes key.bytes)).encrypt,
                       lastVector := none, chosenVector := some 5, clock := 0 }
    invocationId := 1, leadingSecurity := none, linkRetries := 0, turnaround := 0,
    writeTimeout := Duration.ofMillis 6000, entropy := fun _ => 7, drawn := 1 }

/-- A read of a table, begun at some second, that nobody answers. -/
def unanswered (second : Nat) (table : UInt8) : Call where
  channel := { line := { isClosed := false, now := Duration.ofSeconds second }, connected := true }
  services := [[0x30, 0x00, table]]

/-- Reads of tables 0 and 1 and of one more. -/
def unansweredReads (third : UInt8) : SessionRun where
  association := encryptedAssociation
  toLogon := []
  afterLogon := [unanswered 0 0, unanswered 1 1, unanswered 2 third]

/-- Reads that repeat a body may repeat its key stream. -/
theorem nonceUnique_unansweredReads :
    (unansweredReads 1).calls < 2 ^ 32 ∧ (unansweredReads 1).NonceUnique := by
  refine ⟨by decide, (nonceUnique_iff (by decide)).2 ?_⟩
  intro i j e e' clear clear' body body' hij he he' h h' shares _
  have hj : j < 3 := (List.getElem?_eq_some_iff.1 he').1
  have hi : i ≠ 0 := by
    rintro rfl
    obtain rfl := Option.some.inj he
    exact absurd shares.2.1 (by decide)
  obtain ⟨rfl, rfl⟩ : i = 1 ∧ j = 2 := ⟨by omega, by omega⟩
  have bodies : e.sealed.map (·.2) = e'.sealed.map (·.2) := by
    obtain rfl := Option.some.inj he
    obtain rfl := Option.some.inj he'
    decide +kernel
  rw [h, h'] at bodies
  exact Option.some.inj bodies

/-- **A failed exchange lets its key stream be used again.** The second read is not answered, and the
third one is encrypted under the same cleartext. -/
theorem not_nonceUnique_unansweredReads :
    (unansweredReads 2).association.parameters.mode = .encrypted ∧ (unansweredReads 2).calls < 2 ^ 32 ∧
      ¬ (unansweredReads 2).NonceUnique := by
  refine ⟨rfl, by decide, fun unique => ?_⟩
  obtain ⟨e, he⟩ : ∃ e, (unansweredReads 2).exchanges[1]? = some e := ⟨_, rfl⟩
  obtain ⟨e', he'⟩ : ∃ e', (unansweredReads 2).exchanges[2]? = some e' := ⟨_, rfl⟩
  have sealed : e.sealed.map (·.1) = e'.sealed.map (·.1) ∧
      e.sealed.map (·.2) = some [0x03, 0x30, 0x00, 0x01] ∧
        e'.sealed.map (·.2) = some [0x03, 0x30, 0x00, 0x02] := by
    obtain rfl := Option.some.inj he
    obtain rfl := Option.some.inj he'
    decide +kernel
  obtain ⟨⟨clear, body⟩, h, rfl⟩ := Option.map_eq_some_iff.1 sealed.2.1
  obtain ⟨⟨clear', body'⟩, h', rfl⟩ := Option.map_eq_some_iff.1 sealed.2.2
  rw [h, h'] at sealed
  obtain rfl := Option.some.inj sealed.1
  exact absurd (unique 1 2 e e' clear _ _ (by decide) he he' h h') (by decide)

end SessionRun

end Metering
