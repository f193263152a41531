import Metering.Proofs.Nonces
import Metering.Proofs.Waits

set_option autoImplicit false

/-! # Verified answers

Under a secured association that has every request answered, services are returned from an APDU only that
answers this request, comes from the other side and carries the tag that its contents have under the key of
the association (`Associated.exchange_verified`). -/

namespace Metering

open Timed
open Step (Moves Same)

/-! ## What an answer is opened with -/

/-- What answers are opened with. -/
def SecurityContext.keys (c : SecurityContext) : UInt8 × Eax := (c.keyId, c.eax)

theorem SecurityContext.nextVector_keys : Moves (Same keys) nextVector := by
  intro c
  unfold nextVector
  rw [Step.run_get_bind, Step.run_set_bind]
  dsimp only
  split
  · split
    · split <;> rfl
    · rfl
  · rfl

namespace Association

/-- What opening goes by. -/
structure Opening where
  settings : Settings
  keys : Option (UInt8 × Eax)
  incoming : Acse.Authentication

def opening (a : Association) : Opening := ⟨a.settings, a.security.map SecurityContext.keys, a.incomingAuthentication⟩

theorem advanceId_opening (a : Association) : a.advanceId.opening = a.opening := by
  unfold advanceId
  split <;> rfl

theorem prepare_opening (a : Association) : (Associated.prepare a).opening = a.opening := by
  unfold Associated.prepare
  dsimp only
  split
  · split <;> rfl
  · rfl

/-- A new vector leaves the keys of a context as they are. -/
theorem chooseAuthentication_opening {a : Association} {c : SecurityContext} (h : a.security = some c) :
    ((chooseAuthentication c).run a).2.opening = a.opening := by
  have kept := c.nextVector_keys
  unfold chooseAuthentication
  rw [Step.run_get_bind]
  split
  · rfl
  · rcases hn : SecurityContext.nextVector.run c with ⟨r, c'⟩
    rw [hn] at kept
    have same : some c'.keys = a.security.map SecurityContext.keys := by
      rw [h]
      exact congrArg some kept
    cases r <;> exact congrArg (Opening.mk a.settings · a.incomingAuthentication) same

theorem chooseSeal_opening : Moves (Same opening) chooseSeal := by
  intro a
  unfold chooseSeal
  rw [Step.run_get_bind]
  split
  next _ c hc _ =>
    split
    · rfl
    · have chosen := chooseAuthentication_opening hc
      rw [Step.run_bind]
      rcases hr : (chooseAuthentication c).run a with ⟨r, a'⟩
      rw [hr] at chosen
      cases r <;> exact chosen
  · rfl

theorem build_opening (o : Acse.Outgoing) : Moves (Same opening) (build o) :=
  .bind chooseSeal_opening fun _ => .bind .get fun _ => .ofExcept _

/-! ## Opening an answer -/

/-- The secured body of an answer says `plain`, and behind the device class `body`. -/
structure Opened (m : Acse.Incoming) (eax : Eax) (auth : Acse.Authentication) (plain body : Bytes) : Prop where
  secure : m.mode.isSecure = true
  opened : m.openSecured m.mode eax auth = .ok plain
  edClass : ∃ control m', m.control = some control ∧ m.takeEdClass control plain = .ok (body, m')

/-- A body that is opened where no clear one is allowed was a secured one. -/
theorem opened_of_openBody {m m' : Acse.Incoming} {security : Option SecurityContext} {auth : Acse.Authentication}
    {body : Bytes} (guarded : ¬ (m.hasBody && !m.mode.isSecure) = true) (some : body ≠ [])
    (h : m.openBody (security.map (·.eax)) auth = .ok (body, m')) :
    ∃ context plain, security = .some context ∧ Opened m context.eax auth plain body := by
  cases hc : m.control with
  | none =>
    unfold Acse.Incoming.openBody at h
    rw [hc] at h
    obtain ⟨rfl, -⟩ := Prod.mk.inj (Except.ok.inj h)
    exact absurd rfl some
  | some control =>
    have mode : m.mode = control.mode := by simp [Acse.Incoming.mode, hc]
    have secure : m.mode.isSecure = true := by simpa [Acse.Incoming.hasBody, hc] using guarded
    rw [Acse.Incoming.openBody_eq hc] at h
    obtain ⟨plain, opened, edClass⟩ := Step.except_bind_ok.1 h
    unfold Acse.Incoming.plainBody at opened
    split at opened
    next clear => simp [mode, clear, SecurityMode.isSecure] at secure
    next => cases opened
    next eax hs _ =>
      obtain ⟨context, rfl, rfl⟩ := Option.map_eq_some_iff.1 hs
      exact ⟨context, plain, rfl, secure, mode ▸ opened, control, m', hc, edClass⟩

/-- A key and vector are noted if they name the key of the association. -/
theorem adoptAuthentication_ok {sent : Acse.Authentication} {a a' : Association}
    (h : (adoptAuthentication sent).run a = (.ok (), a')) :
    a' = { a with incomingAuthentication := sent } ∧
      ∀ context, a.security = some context → sent.keyId = context.keyId := by
  unfold adoptAuthentication at h
  rw [Step.run_get_bind] at h
  split at h
  next context hs =>
    split at h
    · exact absurd h Step.run_throw_ne_ok
    next same =>
      obtain ⟨-, rfl⟩ := Prod.mk.inj h
      refine ⟨rfl, fun context' h' => ?_⟩
      obtain rfl := Option.some.inj (hs.symm.trans h')
      exact Decidable.not_not.1 same
  next none =>
    obtain ⟨-, rfl⟩ := Prod.mk.inj h
    exact ⟨rfl, fun context h' => absurd h' (none context)⟩

/-- **An answer that is opened** under a secured association names its key id, if any, and its secured body is
opened with its key. -/
theorem openBody_ok {m : Acse.Incoming} {a a' : Association} {body : Bytes}
    (secure : a.parameters.mode.isSecure = true) (some : body ≠ []) (h : (openBody m).run a = (.ok body, a')) :
    ∃ context plain, a.security = .some context ∧
      (∀ sent, m.authentication = .some sent → sent.keyId = context.keyId) ∧
      Opened m context.eax (m.authentication.getD a.incomingAuthentication) plain body := by
  have opened {b : Association} (same : b.parameters = a.parameters) (h : (do
      let a ← get
      if a.parameters.mode.isSecure && m.hasBody && !m.mode.isSecure then
        throw (.authentication .cleartextAnswer)
      let found ← Step.ofExcept (m.openBody (a.security.map (·.eax)) a.incomingAuthentication)
      return found.1 : Step Association Bytes).run b = (.ok body, a')) :
      ∃ context plain, b.security = .some context ∧ Opened m context.eax b.incomingAuthentication plain body := by
    rw [Step.run_get_bind, same, secure, Bool.true_and] at h
    split at h
    · exact absurd h Step.run_throw_ne_ok
    next guarded =>
      obtain ⟨⟨_, m'⟩, t, h1, h⟩ := Step.run_bind_ok.1 h
      obtain ⟨opened, rfl⟩ := Prod.mk.inj ((Step.run_ofExcept _ _).symm.trans h1)
      obtain ⟨hbody, rfl⟩ := Prod.mk.inj h
      obtain rfl := Except.ok.inj hbody
      exact opened_of_openBody guarded some opened
  unfold openBody at h
  cases hm : m.authentication with
  | none =>
    rw [hm] at h
    obtain ⟨context, plain, security, result⟩ := opened rfl h
    exact ⟨context, plain, security, nofun, result⟩
  | some sent =>
    rw [hm] at h
    obtain ⟨_, b, adopted, h⟩ := Step.run_bind_ok.1 h
    obtain ⟨rfl, named⟩ := adoptAuthentication_ok adopted
    have noted : ({ a with incomingAuthentication := sent } : Association).parameters = a.parameters := rfl
    obtain ⟨context, plain, security, result⟩ := opened noted h
    refine ⟨context, plain, security, fun sent' h' => ?_, result⟩
    obtain rfl := Option.some.inj h'
    exact named context security

end Association

/-! ## What an answer has shown -/

namespace Acse.Incoming

/-- A secured body without its tag. -/
def sealed (m : Incoming) : Bytes := m.body.take (m.body.length - tagLength)

/-- The tag that a secured body came with. -/
def tag (m : Incoming) : Bytes := m.body.drop (m.body.length - tagLength)

/-- What a secured body says, and the tag that it should have come with. `input` is what that is computed
from, but for an encrypted body. -/
def unsealed (m : Incoming) (eax : Eax) (input : Bytes) : Bytes × Bytes :=
  if m.mode = .encrypted then eax.decryptBody input m.sealed else (m.sealed, eax.authenticate input)

/-- An APDU answers an invocation of the association: it names that, comes from the other side to this one,
and its body is secured by the key of the association and says `plain`. -/
structure Verified (m : Incoming) (p : Parameters) (id : UInt32) (context : SecurityContext)
    (auth : Authentication) (plain : Bytes) : Prop where
  calledId : m.calledId = some id
  callingId : m.callingId.isSome
  calledTitle : m.calledTitle = p.callingTitle
  callingTitle : m.callingTitle = p.calledTitle
  secure : ∃ control, m.control = some control ∧ control.mode.isSecure = true
  keyId : ∀ sent, m.authentication = some sent → sent.keyId = context.keyId
  tag_length : m.tag.length = tagLength
  tag_eq : ∃ input, m.macInput auth = .ok input ∧ m.unsealed context.eax input = (plain, m.tag)

theorem verifyResponse_ok {m : Incoming} {p : Parameters} {id : UInt32} (h : m.verifyResponse p id = .ok ()) :
    m.callingId.isSome ∧ m.calledTitle = p.callingTitle ∧ m.callingTitle = p.calledTitle := by
  unfold verifyResponse at h
  split at h
  · cases h
  split at h
  · cases h
  next present =>
    split at h
    · cases h
    split at h
    · cases h
    next same =>
      rw [not_or, Decidable.not_not, Decidable.not_not] at same
      exact ⟨by simpa [Option.isSome_iff_ne_none] using present, same.1.symm, same.2.symm⟩

/-- A secured body that is opened came with the tag that it should have come with. -/
theorem openSecured_ok {m : Incoming} {eax : Eax} {auth : Authentication} {plain : Bytes}
    (secure : m.mode.isSecure = true) (h : m.openSecured m.mode eax auth = .ok plain) :
    ∃ input, m.macInput auth = .ok input ∧ m.unsealed eax input = (plain, m.tag) := by
  rw [openSecured_eq m secure] at h
  obtain ⟨input, made, h⟩ := Step.except_bind_ok.1 h
  refine ⟨input, made, ?_⟩
  replace h : (if Eax.tagsAgree (m.unsealed eax input).2 m.tag then pure (m.unsealed eax input).1
    else throw (Fault.authentication .tagMismatch)) = Except.ok plain := h
  split at h
  next agree =>
    obtain rfl := Except.ok.inj h
    exact Prod.ext rfl (Eax.tagsAgree_iff.1 agree)
  · cases h

theorem length_tag {m : Incoming} {bytes : Bytes} {max : UInt32} (parsed : parse bytes max = .ok m)
    (secure : m.mode.isSecure = true) : m.tag.length = tagLength := by
  obtain ⟨-, none | ⟨control, rest, hc, -, -, long⟩⟩ := parse_ok parsed
  · simp [mode, none, SecurityMode.isSecure] at secure
  · have enough := long (by simpa [mode, hc] using secure)
    rw [tag, List.length_drop]
    omega

end Acse.Incoming

namespace Associated

variable {services responses : List Bytes} {s u : Associated} {m : Acse.Incoming}

/-- The services that a plain body brings, without the device class and the answer to a leading security
service. -/
def Yields (a : Association) (m : Acse.Incoming) (plain : Bytes) (responses : List Bytes) : Prop :=
  ∃ control body m' all, m.control = some control ∧ m.takeEdClass control plain = .ok (body, m') ∧
    Epsem.split body = .ok all ∧ takeLeading a all = .ok responses

theorem takeLeading_congr {a b : Association} (h : a.settings = b.settings) : takeLeading a = takeLeading b := by
  have options := congrArg Association.Settings.options h
  have leading := congrArg Association.Settings.leadingSecurity h
  funext all
  unfold takeLeading
  rw [show a.options = b.options from options, show a.leadingSecurity = b.leadingSecurity from leading]

/-- Nothing comes from an empty body. -/
theorem body_ne_nil {a : Association} {body : Bytes} {all : List Bytes} (hsplit : Epsem.split body = .ok all)
    (taken : takeLeading a all = .ok responses) (some : responses ≠ []) : body ≠ [] := by
  rintro rfl
  obtain rfl : [] = all := Except.ok.inj hsplit
  unfold takeLeading at taken
  split at taken
  · cases taken
  · exact some (Except.ok.inj taken).symm

/-- What opening an answer gives depends on the association only. -/
theorem openAnswer_run (services : List Bytes) (answer : Option Acse.Incoming) (a : Association) :
    ∃ r a', ∀ c, (openAnswer services answer).run ⟨c, a⟩ = (r, ⟨c, a'⟩) := by
  cases answer with
  | none => exact ⟨_, a, fun _ => rfl⟩
  | some m =>
    unfold openAnswer
    rcases ho : (Association.openBody m).run a with ⟨r, b⟩
    have opened (c : Channel) : (onAssociation (Association.openBody m)).run ⟨c, a⟩ = (r, ⟨c, b⟩) :=
      Step.run_within_eq.2 ⟨b, ho, rfl⟩
    cases r with
    | error e => exact ⟨_, b, fun c => Step.run_bind_of_error (opened c)⟩
    | ok body =>
      refine ⟨Epsem.split body >>= takeLeading b, b, fun c => ?_⟩
      rw [Step.run_bind_of_ok (opened c), Step.run_bind, Step.run_ofExcept]
      cases Epsem.split body with
      | error e => rfl
      | ok all => exact Step.run_ofExcept _ _

theorem openAnswer_ok {a : Association} {c : Channel} (secure : a.parameters.mode.isSecure = true)
    (some : responses ≠ []) (h : (openAnswer services (.some m)).run ⟨c, a⟩ = (.ok responses, u)) :
    u.channel = c ∧ ∃ context plain body all, a.security = .some context ∧
      (∀ sent, m.authentication = .some sent → sent.keyId = context.keyId) ∧
      Association.Opened m context.eax (m.authentication.getD a.incomingAuthentication) plain body ∧
      Epsem.split body = .ok all ∧ takeLeading a all = .ok responses := by
  unfold openAnswer at h
  obtain ⟨body, t, h1, h⟩ := Step.run_bind_ok.1 h
  obtain ⟨b, opened, rfl⟩ := Step.run_within_eq.1 h1
  obtain ⟨all, t, h2, h⟩ := Step.run_bind_ok.1 h
  obtain ⟨hsplit, rfl⟩ := Prod.mk.inj ((Step.run_ofExcept _ _).symm.trans h2)
  rw [Step.run_get_bind] at h
  obtain ⟨taken, rfl⟩ := Prod.mk.inj ((Step.run_ofExcept _ _).symm.trans h)
  have same := congrArg (·.identity.settings) ((Association.openBody_outgoing m).of_run opened)
  rw [takeLeading_congr (a := b) (b := a) same] at taken
  obtain ⟨context, plain, security, named, result⟩ :=
    Association.openBody_ok secure (body_ne_nil hsplit taken some) opened
  exact ⟨rfl, context, plain, body, all, security, named, result, hsplit, taken⟩

/-! ## What an exchange returns -/

theorem pack_opening (services : List Bytes) (s : Associated) :
    ((pack services).run s).2.association.opening = s.association.opening := by
  rw [pack_run]
  exact (Association.build_opening _ _).trans (Association.prepare_opening _)

/-- What an exchange does with an answer. -/
theorem exchange_of_receive {retries : Nat} {apdu : Bytes} {w t : Associated} (wait : Waits services s retries apdu w)
    (received : receive.run w = (.ok m, t)) :
    (exchange services).run s = (openAnswer services (some m)).run ⟨t.channel, w.association.advanceId⟩ := by
  have same : t.association = w.association := receive_association.of_run received
  unfold exchange
  rw [Step.run_bind_of_ok (attempt_iff.2 ⟨retries, apdu, w, wait, received⟩), ← same]
  rfl

/-- An exchange that returns services, where every request is to be answered, went by an answer. -/
theorem receive_of_exchange (always : s.association.parameters.response = .always)
    (h : (exchange services).run s = (.ok responses, u)) :
    ∃ retries apdu w m t, Waits services s retries apdu w ∧ receive.run w = (.ok m, t) := by
  obtain ⟨answer, t, attempted, -⟩ := Step.run_bind_ok.1 h
  have packed := attempt_association services s
  rw [attempted] at packed
  have settings := congrArg (·.settings.parameters.response) (pack_opening services s)
  rw [← show t.association = _ from packed] at settings
  obtain ⟨m, rfl⟩ := Option.isSome_iff_exists.1 ((attempt_answers attempted).isSome (settings.trans always))
  obtain ⟨retries, apdu, w, wait, received⟩ := attempt_iff.1 attempted
  exact ⟨retries, apdu, w, m, t, wait, received⟩

/-- An exchange that goes by an answer and returns services was given an answer that is verified. -/
theorem verified_of_receive {retries : Nat} {apdu : Bytes} {w t : Associated}
    (secure : s.association.parameters.mode.isSecure = true) (wait : Waits services s retries apdu w)
    (received : receive.run w = (.ok m, t)) (h : (exchange services).run s = (.ok responses, u))
    (some : responses ≠ []) :
    ∃ bytes context plain, s.channel.EndsWith u.channel bytes ∧
      Acse.Incoming.parse bytes w.association.parameters.maxIncoming = .ok m ∧
      s.association.security = .some context ∧
      m.Verified s.association.parameters (prepare s.association).invocationId context
        (m.authentication.getD s.association.incomingAuthentication) plain ∧
      Yields s.association m plain responses := by
  obtain ⟨bytes, ends, parsed, verified⟩ := receive_ok received
  have packed := wait.association
  have id : w.association.invocationId = (prepare s.association).invocationId :=
    packed ▸ congrArg (·.invocationId) (pack_identity services s)
  -- what the answer is opened with is that of the association before
  have opening : w.association.advanceId.opening = s.association.opening := by
    rw [Association.advanceId_opening, packed, pack_opening]
  have settings : w.association.advanceId.settings = s.association.settings := congrArg (·.settings) opening
  have parameters : w.association.parameters = s.association.parameters :=
    (congrArg (·.parameters) w.association.advanceId_settings).symm.trans (congrArg (·.parameters) settings)
  have incoming : w.association.advanceId.incomingAuthentication = s.association.incomingAuthentication :=
    congrArg (·.incoming) opening
  have secure' : w.association.advanceId.parameters.mode.isSecure = true :=
    (congrArg (·.parameters.mode.isSecure) settings).trans secure
  rw [exchange_of_receive wait received] at h
  obtain ⟨channel, context', plain, body, all, security', named, opened, hsplit, taken⟩ :=
    openAnswer_ok secure' some h
  obtain ⟨context, security, same⟩ :
      ∃ context, s.association.security = .some context ∧ context.keys = context'.keys := by
    have keys := congrArg (·.keys) opening
    rw [Association.opening, Association.opening, security'] at keys
    exact Option.map_eq_some_iff.1 keys.symm
  obtain ⟨keyId, eax⟩ := Prod.mk.inj same
  rw [← eax, incoming] at opened
  rw [parameters, id] at verified
  obtain ⟨callingId, calledTitle, callingTitle⟩ := Acse.Incoming.verifyResponse_ok verified
  obtain ⟨control, m', hcontrol, edClass⟩ := opened.edClass
  have mode : m.mode = control.mode := by simp [Acse.Incoming.mode, hcontrol]
  refine ⟨bytes, context, plain, ?_, parsed, security, ?_, control, body, m', all, hcontrol, edClass, hsplit, ?_⟩
  · rw [channel]
    exact ends.after wait.follows
  · exact ⟨Acse.Incoming.calledId_of_verifyResponse verified, callingId, calledTitle, callingTitle,
      ⟨control, hcontrol, mode ▸ opened.secure⟩, fun sent h => (named sent h).trans keyId.symm,
      Acse.Incoming.length_tag parsed opened.secure, Acse.Incoming.openSecured_ok opened.secure opened.opened⟩
  · rw [← takeLeading_congr settings]
    exact taken

/-- Two exchanges of one association that go by the same answer end alike, whatever came before it. -/
theorem exchange_of_brings {retries retries' : Nat} {apdu apdu' : Bytes} {s' w w' t : Associated}
    {late : List Delivery} {answer : Delivery} {more : List Timed} (wait : Waits services s retries apdu w)
    (received : receive.run w = (.ok m, t)) (found : s'.association = s.association)
    (wait' : Waits services s' retries' apdu' w') (brings : w'.Brings late answer more)
    (parsed : Acse.Incoming.parse answer.bytes w.association.parameters.maxIncoming = .ok m) :
    ((exchange services).run s').1 = ((exchange services).run s).1 ∧
      ((exchange services).run s').2.association = ((exchange services).run s).2.association := by
  have packed : w'.association = w.association := by
    rw [wait'.association, wait.association, pack_run, pack_run, found]
  obtain ⟨-, -, -, verified⟩ := receive_ok received
  have patient := patient_of_receive received
  rw [← packed] at parsed verified patient
  obtain ⟨c, received'⟩ := receive_run brings patient parsed verified
  obtain ⟨r, a, opens⟩ := openAnswer_run services (some m) w.association.advanceId
  rw [exchange_of_receive wait received, exchange_of_receive wait' received', packed, opens, opens]
  exact ⟨rfl, rfl⟩

/-- **Only verified answers are returned.** Where the association is secured and has every request answered, an
exchange that returns services consumed, last of all, an APDU that answers it, and returns what this says.
Wherever an exchange of the same association waits and that APDU comes in time, behind any number of APDUs
that answer other invocations and come in time, it returns the same and leaves the same association. -/
theorem exchange_verified (secure : s.association.parameters.mode.isSecure = true)
    (always : s.association.parameters.response = .always) (h : (exchange services).run s = (.ok responses, u))
    (some : responses ≠ []) :
    ∃ bytes m context plain,
      s.channel.EndsWith u.channel bytes ∧
      Acse.Incoming.parse bytes s.association.parameters.maxIncoming = .ok m ∧
      s.association.security = .some context ∧
      m.Verified s.association.parameters (prepare s.association).invocationId context
        (m.authentication.getD s.association.incomingAuthentication) plain ∧
      Yields s.association m plain responses ∧
      ∀ (s' w : Associated) (retries : Nat) (apdu : Bytes) (late : List Delivery) (answer : Delivery)
          (more : List Timed), s'.association = s.association → Waits services s' retries apdu w →
        w.Brings late answer more → answer.bytes = bytes →
          ∃ u', (exchange services).run s' = (.ok responses, u') ∧ u'.association = u.association := by
  obtain ⟨retries, apdu, w, m, t, wait, received⟩ := receive_of_exchange always h
  obtain ⟨bytes, context, plain, ends, parsed, security, verified, yields⟩ :=
    verified_of_receive secure wait received h some
  have parameters : w.association.parameters = s.association.parameters := by
    rw [wait.association]
    exact congrArg (·.settings.parameters) (pack_opening services s)
  refine ⟨bytes, m, context, plain, ends, parameters ▸ parsed, security, verified, yields, ?_⟩
  rintro s' w' retries' apdu' late answer more found wait' brings rfl
  obtain ⟨result, left⟩ := exchange_of_brings wait received found wait' brings parsed
  rw [h] at result left
  exact ⟨_, Step.run_eq_of_fst result, left⟩

/-- An association that authenticates, under a key of ones, on a line where a read is answered. Both sides know
the key and the vector. -/
def answeredRead : Associated where
  channel :=
    { line := { isClosed := false, answers := [fun _ => [(Duration.ofMillis 10, .arrival (.data
        [0x60, 0x17, 0xA4, 0x03, 0x02, 0x01, 0x01, 0xA8, 0x03, 0x02, 0x01, 0x07, 0xBE, 0x0B, 0x28, 0x09, 0x81, 0x07,
         0x84, 0x01, 0x00, 0xD7, 0x6B, 0xF2, 0x31]))]] }
      connected := true }
  association :=
    let key : SecretKey := ⟨List.replicate 16 0x11⟩
    { parameters := ⟨"", "", "", none, .authenticated, .always, [], 0x7FFF, 0x7FFF⟩
      options := { calledTitle := "", callingTitle := "", securityMode := .authenticated,
                   responseTimeout := Duration.ofMillis 1000 }
      security := some { key, keyId := 1, eax := .ofCipher (Aes.cipher (Block.ofBytes key.bytes)).encrypt,
                         lastVector := some 5, chosenVector := none, clock := 0 }
      authentication := some ⟨1, 5⟩, incomingAuthentication := ⟨1, 5⟩
      invocationId := 1, leadingSecurity := none, linkRetries := 0, turnaround := 0,
      writeTimeout := Duration.ofMillis 6000, entropy := fun _ => 7, drawn := 1 }

/-- The answer to a read is verified before it is returned. -/
theorem exchange_verified_answeredRead :
    answeredRead.association.parameters.mode.isSecure = true ∧
      answeredRead.association.parameters.response = .always ∧
      ∃ u, (exchange [[0x30, 0x00, 0x01]]).run answeredRead = (.ok [[0x00]], u) ∧
        ∃ bytes m context plain, answeredRead.channel.EndsWith u.channel bytes ∧
          Acse.Incoming.parse bytes 0x7FFF = .ok m ∧
          m.Verified answeredRead.association.parameters 1 context
            (m.authentication.getD answeredRead.association.incomingAuthentication) plain ∧
          Yields answeredRead.association m plain [[0x00]] := by
  have returned : ((exchange [[0x30, 0x00, 0x01]]).run answeredRead).1.toOption = some [[0x00]] := by decide +kernel
  rcases h : (exchange [[0x30, 0x00, 0x01]]).run answeredRead with ⟨r, u⟩
  rw [h] at returned
  cases r with
  | error e => cases returned
  | ok responses =>
    obtain rfl := Option.some.inj returned
    obtain ⟨bytes, m, context, plain, ends, parsed, -, verified, yields, -⟩ :=
      exchange_verified (s := answeredRead) rfl rfl h (by decide)
    exact ⟨rfl, rfl, u, rfl, bytes, m, context, plain, ends, parsed, verified, yields⟩

end Associated

end Metering
