import Metering.Proofs.Lineage
import Metering.Proofs.Reader

set_option autoImplicit false

/-! # Services that were answered

What a client notes of the services it handed to the wire is what the wire did: each is a run of the link or
of the association from the one state to the other (`Transaction.Brought`). So a service that is carried out
was made between the two states of the client and answered with a code that says so
(`Client.transact_answered`), and over a network that is secured and has its requests answered, the answer was
verified under the key of the configuration (`Transaction.Answered.verified`). -/

namespace Metering

open Step (Moves Same Preserves)

/-! ## Responses -/

theorem Response.run_checkCode (code : UInt8) (rest : Bytes) :
    checkCode.run ⟨0, code :: rest⟩ =
      (if isNok code then .error (.nok (NokCode.ofByte code) rest) else .ok (), ⟨1, rest⟩) := by
  unfold checkCode
  rw [Step.run_bind_of_ok (Reader.run_byte code 0 rest)]
  split <;> rfl

/-- A response that is read past its code has one, and the code says whether the rest counts. -/
theorem Response.parse_cons {α : Type} (x : Step Reader α) (code : UInt8) (rest : Bytes) :
    Response.parse x (code :: rest) =
      if isNok code then .error (.nok (NokCode.ofByte code) rest) else (x.run ⟨1, rest⟩).1 := by
  unfold Response.parse Reader.parse Reader.ofBytes
  rw [Step.run_bind, run_checkCode]
  cases isNok code <;> rfl

theorem Response.parse_ok {α : Type} {x : Step Reader α} {response : Bytes} {a : α}
    (h : Response.parse x response = .ok a) : ∃ code rest, isNok code = false ∧ response = code :: rest := by
  cases response with
  | nil => cases h
  | cons code rest =>
    rw [parse_cons] at h
    split at h
    · cases h
    next carried => exact ⟨code, rest, by simpa using carried, rfl⟩

/-- A service was carried out exactly if the response has a code that says so; its results follow. -/
theorem Response.results_ok {response results : Bytes} :
    Response.results response = .ok results ↔ ∃ code, isNok code = false ∧ response = code :: results := by
  constructor
  · intro h
    obtain ⟨code, rest, carried, rfl⟩ := parse_ok h
    rw [Response.results, parse_cons, if_neg (by simp [carried])] at h
    exact ⟨code, carried, by rw [← Except.ok.inj h]⟩
  · rintro ⟨code, carried, rfl⟩
    rw [Response.results, parse_cons, if_neg (by simp [carried])]
    rfl

theorem Reader.byte_ok {r r' : Reader} {b : UInt8} (h : byte.run r = (.ok b, r')) :
    r.rest = b :: r'.rest := by
  obtain ⟨position, rest⟩ := r
  cases rest with
  | nil => cases (Prod.mk.inj h).1
  | cons first rest =>
    rw [run_byte] at h
    obtain ⟨hb, rfl⟩ := Prod.mk.inj h
    obtain rfl := Except.ok.inj hb
    rfl

theorem TicketAnswer.parse_take {results : Bytes} {answer : TicketAnswer}
    (h : Reader.parse TicketAnswer.take results = .ok answer) :
    ∃ rest, results = answer.length :: answer.keyId :: (answer.data ++ rest) ∧
      answer.data.length = answer.length.toNat - 1 := by
  obtain ⟨length, r1, first, h⟩ := Step.run_bind_ok.1 (Step.run_eq_of_fst h)
  dsimp only at h
  split at h
  · exact absurd (Prod.mk.inj h).1 (by simp)
  obtain ⟨keyId, r2, second, h⟩ := Step.run_bind_ok.1 h
  obtain ⟨data, r3, third, h⟩ := Step.run_bind_ok.1 h
  obtain ⟨made, -⟩ := Prod.mk.inj h
  obtain rfl := Except.ok.inj made
  rw [Reader.run_take] at third
  split at third
  · cases (Prod.mk.inj third).1
  next enough =>
    obtain ⟨taken, -⟩ := Prod.mk.inj third
    obtain rfl := Except.ok.inj taken
    refine ⟨r2.rest.drop (length.toNat - 1), ?_, ?_⟩
    · rw [List.take_append_drop, ← Reader.byte_ok second, ← Reader.byte_ok first]
      rfl
    · dsimp only
      rw [List.length_take]
      omega

/-! ## Answers under a key -/

namespace Associated

variable {services responses : List Bytes} {s u w : Associated} {retries : Nat} {apdu : Bytes}

theorem Waits.parameters (wait : Waits services s retries apdu w) :
    w.association.parameters = s.association.parameters := by
  rw [wait.association]
  exact congrArg (·.settings.parameters) (pack_opening services s)

/-- Under a wiped key nothing is exchanged. -/
theorem isCleared_of_exchange {context : SecurityContext} (secure : s.association.parameters.mode.isSecure = true)
    (held : s.association.security = some context) (h : (exchange services).run s = (.ok responses, u)) :
    context.isCleared = false := by
  obtain ⟨answer, t, attempted, -⟩ := Step.run_bind_ok.1 h
  obtain ⟨apdu, t, packed, -⟩ := Step.run_bind_ok.1 attempted
  rw [pack_run] at packed
  obtain ⟨_, chosen, -⟩ := (Association.build_run _ _).2 apdu (Prod.mk.inj packed).1
  have settings := Association.prepare_settings s.association
  have same : (prepare s.association).security = some context := by
    rw [← held]
    unfold prepare
    dsimp only
    split
    · split <;> rfl
    · rfl
  have mode : (prepare s.association).parameters.mode.isSecure = true :=
    (congrArg (·.parameters.mode.isSecure) settings).trans secure
  unfold Association.chooseSeal at chosen
  rw [Step.run_get_bind, same, mode] at chosen
  dsimp only at chosen
  split at chosen
  · cases chosen
  next held => simpa using held

end Associated

/-! ## Services that were made -/

/-- The service went over the wire, and this is the response: a run from the one state to the other. -/
def Transaction.Brought (t : Transaction) (response : Bytes) : Prop :=
  t.result = .ok response ∧
    match t.before, t.after with
    | (channel, .packets link), (channel', .packets link') =>
      ∃ left, (Linked.request t.request.bytes).run ⟨channel, link⟩ = (.ok response, ⟨channel', left⟩) ∧
        link' = { left with reports := [] }
    | (channel, .apdus a), (channel', .apdus a') =>
      (Associated.request t.request.bytes).run ⟨channel, a⟩ = (.ok response, ⟨channel', a'⟩)
    | _, _ => False

/-- The service was carried out, with these results. -/
def Transaction.Answered (t : Transaction) (request : Request) (results : Bytes) : Prop :=
  t.request = request ∧ ∃ code, Response.isNok code = false ∧ t.Brought (code :: results)

/-- The meter told who it is. -/
def Transaction.Identified (t : Transaction) (response : Bytes) : Prop :=
  t.request = .identify ∧ t.result = .ok response ∧
    ∃ channel link channel' link', t.before = (channel, .packets link) ∧ t.after = (channel', .packets link') ∧
      (do
        Linked.changeLink Link.reset
        Linked.requestWithMinimum Request.identify.bytes (Identification.minLength + 1) : Step Linked Bytes).run
        ⟨channel, link⟩ = (.ok response, ⟨channel', link'⟩)

/-- The answer to a service came with the tag it has under the key of some options, and the response is what
its body says. -/
def Transaction.Verified (t : Transaction) (o : NetworkOptions) : Prop :=
  ∃ a context bytes m auth plain response more,
    t.before.2 = .apdus a ∧ a.security = some context ∧ context.key = ⟨o.securityKey⟩ ∧
    context.keyId = o.securityKeyId ∧ context.key.eax = .ok context.eax ∧
    t.before.1.EndsWith t.after.1 bytes ∧ Acse.Incoming.parse bytes o.effectiveMaxIncoming = .ok m ∧
    m.Verified (.ofOptions o) a.invocationId context auth plain ∧ t.result = .ok response ∧
    Associated.Yields a m plain (response :: more)

/-- **Every service that was carried out** under a secured association that has its requests answered came
with a verified answer. -/
theorem Transaction.Answered.verified {t : Transaction} {request : Request} {results : Bytes} {config : Config}
    (answered : t.Answered request results) (served : t.before.2.Serves .c1222 config)
    (secure : config.network.securityMode.isSecure = true) (always : config.network.responseControl = .always)
    (session : config.network.sessionless = false) : t.Verified config.network := by
  obtain ⟨-, code, -, result, ran⟩ := answered
  obtain ⟨request, r, ⟨channel, wire⟩, channel', wire'⟩ := t
  cases wire with
  | packets link => cases served
  | apdus a =>
    cases wire' with
    | packets link => cases ran
    | apdus a' =>
      dsimp only at result ran
      obtain ⟨responses, u, exchanged, ran⟩ := Step.run_bind_ok.1 ran
      cases responses with
      | nil => exact absurd ran Step.run_throw_ne_ok
      | cons response more =>
        obtain ⟨same, rfl⟩ := Prod.mk.inj ran
        obtain ⟨-, serves⟩ := served
        have prepared : Associated.prepare a = a :=
          Associated.prepare_of_session (by rw [serves.options]; exact session)
        have always' : a.parameters.response = .always := by
          rw [serves.parameters]
          exact always
        have secure' : a.parameters.mode.isSecure = true := by
          rw [serves.parameters]
          exact secure
        obtain ⟨retries, apdu, w, m, t, wait, received⟩ := Associated.receive_of_exchange (s := ⟨channel, a⟩) always' exchanged
        obtain ⟨bytes, context, plain, ends, parsed, security, verified, yields⟩ :=
          Associated.verified_of_receive secure' wait received exchanged (List.cons_ne_nil _ _)
        have left := Associated.isCleared_of_exchange secure' security exchanged
        obtain ⟨key, keyId, works⟩ := (serves.security context security).resolve_left (by simp [left])
        rw [wait.parameters, serves.parameters] at parsed
        rw [serves.parameters, prepared] at verified
        exact ⟨a, context, bytes, m, _, plain, response, more, rfl, security, key, keyId, works, ends, parsed, verified,
          result.trans (by rw [Except.ok.inj same]), yields⟩

namespace Client

variable {α : Type} {dialect : Dialect} {config : Config} {c d c' : Client} {t : Transaction} {request : Request}
  {response results : Bytes}

/-- Between two states of a client a service was handed to the wire. -/
def Made (c c' : Client) (t : Transaction) : Prop := ∃ made, c'.exchanges = made ++ c.exchanges ∧ t ∈ made

theorem Made.earlier (h : Made d c' t) (grown : c.exchanges <:+ d.exchanges) : Made c c' t := by
  obtain ⟨made, found, mem⟩ := h
  obtain ⟨before, found'⟩ := grown
  exact ⟨made ++ before, by rw [found, ← found', List.append_assoc], List.mem_append_left before mem⟩

theorem Made.later (h : Made c d t) (grown : d.exchanges <:+ c'.exchanges) : Made c c' t := by
  obtain ⟨made, found, mem⟩ := h
  obtain ⟨after, found'⟩ := grown
  exact ⟨after ++ made, by rw [← found', found, List.append_assoc], List.mem_append_right after mem⟩

theorem made_of_noted (grown : c.exchanges <:+ d.exchanges) (noted : c'.exchanges = t :: d.exchanges) : Made c c' t :=
  .earlier ⟨[t], noted, List.mem_singleton_self t⟩ grown

theorem onLinked_run {otherwise : Fault} (x : Step Linked α) {link : Link} (h : c.wire = .packets link) :
    (onLinked otherwise x).run c = ((x.run ⟨c.channel, link⟩).1,
      { c with channel := (x.run ⟨c.channel, link⟩).2.channel, wire := .packets (x.run ⟨c.channel, link⟩).2.link }) := by
  unfold onLinked
  rw [Step.run_get_bind, h]
  dsimp only
  rw [Step.run_set_bind, Step.run_ofExcept]

theorem onAssociated_run (x : Step Associated α) {a : Association} (h : c.wire = .apdus a) :
    (onAssociated x).run c = ((x.run ⟨c.channel, a⟩).1,
      { c with channel := (x.run ⟨c.channel, a⟩).2.channel, wire := .apdus (x.run ⟨c.channel, a⟩).2.association }) := by
  unfold onAssociated
  rw [Step.run_get_bind, h]
  dsimp only
  rw [Step.run_set_bind, Step.run_ofExcept]

/-- A service that is carried is a run of the wire. -/
theorem carry_brought (h : (carry false request.bytes).run c = (.ok response, c')) :
    Transaction.Brought ⟨request, .ok response, (c.channel, c.wire), (c'.channel, c'.wire)⟩ response := by
  refine ⟨rfl, ?_⟩
  unfold carry at h
  rw [Step.run_get_bind] at h
  rcases hw : c.wire with link | a
  · rw [hw] at h
    have linked : (onLink (Linked.request request.bytes)).run c =
        (onLinked (.invalidState (.noPacketLink c.dialect.name)) (Linked.request request.bytes)).run c := rfl
    rw [onLinked_run _ hw] at linked
    rcases hr : (Linked.request request.bytes).run ⟨c.channel, link⟩ with ⟨r, s⟩
    rw [hr] at linked
    dsimp only at h
    rw [Step.run_outcome_bind, linked] at h
    cases r with
    | error e => cases (Prod.mk.inj h).1
    | ok brought =>
      obtain ⟨same, rfl⟩ := Prod.mk.inj h
      obtain rfl := Except.ok.inj same
      exact ⟨s.link, hr, rfl⟩
  · rw [hw] at h
    have associated := onAssociated_run (Associated.request request.bytes) hw
    rcases hr : (Associated.request request.bytes).run ⟨c.channel, a⟩ with ⟨r, s⟩
    rw [hr] at associated
    obtain ⟨response', d, ran, h⟩ := Step.run_bind_ok.1 h
    rw [associated] at ran
    obtain ⟨rfl, rfl⟩ := Prod.mk.inj ran
    obtain ⟨same, rfl⟩ := Prod.mk.inj h
    obtain rfl := Except.ok.inj same
    exact hr

theorem exchange_answered (goes : c.GoesBy dialect config) (h : (exchange false request).run c = (.ok response, c'))
    (carried : Response.results response = .ok results) :
    ∃ t, Made c c' t ∧ t.Answered request results ∧ t.before.2.Serves dialect config := by
  unfold exchange at h
  rw [Step.run_get_bind, Step.run_outcome_bind] at h
  have continued : Moves (Continues dialect config) (carry false request.bytes) :=
    carry_frame frame_continues.wires false trivial
  have grown := (continued c).grown
  rcases hr : (carry false request.bytes).run c with ⟨r, d⟩
  rw [hr] at h grown
  obtain ⟨_, e, noted, h⟩ := Step.run_bind_ok.1 h
  obtain ⟨rfl, rfl⟩ := Prod.mk.inj ((Step.run_ofExcept _ _).symm.trans h)
  obtain ⟨-, rfl⟩ := Prod.mk.inj noted
  obtain ⟨code, accepted, rfl⟩ := Response.results_ok.1 carried
  exact ⟨_, made_of_noted grown rfl, ⟨rfl, code, accepted, carry_brought hr⟩, goes.wired⟩

/-- **A service that was carried out** was made on the wire and answered, after any number of attempts that
found the meter busy. -/
theorem transact_answered (goes : c.GoesBy dialect config) (h : (transact request).run c = (.ok results, c')) :
    ∃ t, Made c c' t ∧ t.Answered request results ∧ t.before.2.Serves dialect config := by
  have repeated (retries : Nat) {c : Client} (goes : c.GoesBy dialect config)
      (h : (transactRepeatedly false request retries).run c = (.ok results, c')) :
      ∃ t, Made c c' t ∧ t.Answered request results ∧ t.before.2.Serves dialect config := by
    induction retries generalizing c with
    | zero =>
      obtain ⟨response, d, exchanged, h⟩ := Step.run_bind_ok.1 h
      obtain ⟨carried, rfl⟩ := Prod.mk.inj ((Step.run_ofExcept _ _).symm.trans h)
      exact exchange_answered goes exchanged carried
    | succ retries ih =>
      obtain ⟨response, d, exchanged, h⟩ := Step.run_bind_ok.1 h
      have first : Continues dialect config c d :=
        (exchange_frame frame_continues.services false trivial).of_run exchanged
      cases hr : Response.results response with
      | ok carried =>
        rw [hr] at h
        obtain ⟨same, rfl⟩ := Prod.mk.inj h
        obtain rfl := Except.ok.inj same
        exact exchange_answered goes exchanged hr
      | error e =>
        rw [hr] at h
        dsimp only at h
        split at h
        · exact absurd (Prod.mk.inj h).1 (by simp)
        rw [Step.run_get_bind] at h
        obtain ⟨_, e, slept, h⟩ := Step.run_bind_ok.1 h
        have waited : Continues dialect config d e := (onChannel_continues _).of_run slept
        obtain ⟨t, made, answered, served⟩ := ih (waited.goesBy (first.goesBy goes)) h
        exact ⟨t, made.earlier (first.grown.trans waited.grown), answered, served⟩
  exact repeated _ goes h

end Client

end Metering
