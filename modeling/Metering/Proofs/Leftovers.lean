import Metering.Proofs.Repetition

set_option autoImplicit false

/-! # Leftovers of an earlier session

At the start of a session a short response that reports success is taken for a leftover, and another message is
awaited instead, up to as many times as the link has retries (`Linked.Waits`). What is returned in the end is a
message that was received whole, and no leftover, unless the last wait ended with a spoiled response: then there is
nothing in hand, and no bytes at all are returned as the response (`Linked.requestWithMinimum_waits`,
`Linked.requestWithMinimum_nothing`). -/

namespace Metering.Linked

open Step (Moves Same)

variable {s t u : Linked} {m : Bytes} {minimum retries : Nat} {waits : List (Except Fault Received)}
  {r : Except Fault Bytes}

/-! ## Waiting for another message -/

/-- What a wait leaves in hand: a message, or nothing if the request has to be repeated. -/
def Received.inHand : Received → Bytes
  | .message bytes => bytes
  | .repeatRequest => []

/-- The link when it starts to wait for another message. -/
def awaiting (s : Linked) : Linked := { s with link := s.link.forget }

/-- How a link comes to its response from the message it has in hand, with what its waits for others came to. -/
inductive Waits (minimum : Nat) : (retries : Nat) → Linked → Bytes → List (Except Fault Received) →
    Except Fault Bytes → Linked → Prop where
  /-- What is in hand is no leftover. -/
  | taken {retries : Nat} {s : Linked} {m : Bytes} (real : isLeftover minimum m = false) :
      Waits minimum retries s m [] (.ok m) s
  /-- It is one, and no wait is left. -/
  | givenUp {s : Linked} {m : Bytes} (leftover : isLeftover minimum m = true) :
      Waits minimum 0 s m [] (.error (.protocol .previousSession)) s
  | failed {retries : Nat} {s t : Linked} {m : Bytes} {e : Fault} (leftover : isLeftover minimum m = true)
      (wait : receiveMessage.run s.awaiting = (.error e, t)) : Waits minimum (retries + 1) s m [.error e] (.error e) t
  | more {retries : Nat} {s t u : Linked} {m : Bytes} {got : Received} {waits : List (Except Fault Received)}
      {r : Except Fault Bytes} (leftover : isLeftover minimum m = true)
      (wait : receiveMessage.run s.awaiting = (.ok got, t)) (rest : Waits minimum retries t got.inHand waits r u) :
      Waits minimum (retries + 1) s m (.ok got :: waits) r u

/-- Every run is one of these. -/
theorem skipLeftovers_waits (minimum retries : Nat) (m : Bytes) (s : Linked) :
    ∃ waits, Waits minimum retries s m waits ((skipLeftovers minimum retries m).run s).1
      ((skipLeftovers minimum retries m).run s).2 := by
  induction retries generalizing m s with
  | zero =>
    unfold skipLeftovers
    cases leftover : isLeftover minimum m with
    | false => exact ⟨[], .taken leftover⟩
    | true => exact ⟨[], .givenUp leftover⟩
  | succ retries ih =>
    unfold skipLeftovers
    cases leftover : isLeftover minimum m with
    | false => exact ⟨[], .taken leftover⟩
    | true =>
      rw [if_pos rfl, changeLink, Step.run_modify_bind, Step.run_bind]
      rcases wait : receiveMessage.run s.awaiting with ⟨got, t⟩
      rw [awaiting] at wait
      rw [wait]
      cases got with
      | error e => exact ⟨_, .failed leftover wait⟩
      | ok got =>
        cases got with
        | message m' =>
          obtain ⟨waits, rest⟩ := ih m' t
          exact ⟨_, .more leftover wait rest⟩
        | repeatRequest =>
          obtain ⟨waits, rest⟩ := ih [] t
          exact ⟨_, .more leftover wait rest⟩

theorem Waits.length_le (h : Waits minimum retries s m waits r u) : waits.length ≤ retries := by
  induction h with
  | taken real => exact Nat.zero_le _
  | givenUp leftover => exact Nat.le_refl _
  | failed leftover wait => exact Nat.succ_le_succ (Nat.zero_le _)
  | more leftover wait rest ih => exact Nat.succ_le_succ ih

/-! ## What is returned -/

/-- A message was received whole. -/
def Whole (m : Bytes) (s : Linked) : Prop := ∃ v fs, Reassembled v m fs s

/-- A message that was received whole has a byte, for each packet of it has one. -/
theorem Whole.ne_nil (h : Whole m s) : m ≠ [] := by
  obtain ⟨v, fs, reassembled⟩ := h
  obtain ⟨f, rest, rfl⟩ : ∃ f rest, fs = f :: rest := by
    rcases reassembled.shape with ⟨f, rfl, -⟩ | ⟨-, f, last, -⟩
    · exact ⟨f, [], rfl⟩
    · exact List.exists_cons_of_ne_nil (List.ne_nil_of_mem (List.mem_of_getLast? last))
  have size := (reassembled.sizes f List.mem_cons_self).1
  rw [reassembled.message, List.flatMap_cons]
  exact List.append_ne_nil_of_left_ne_nil (List.ne_nil_of_length_pos size) _

theorem whole_of_received (h : receiveMessage.run s = (.ok (.message m), t)) : Whole m t := by
  unfold receiveMessage at h
  rw [Step.run_get_bind] at h
  exact ⟨s, Step.repeatWhileFed_ok (receiveRound_carries s) _ (fun _ => ⟨[], .start s⟩) h m rfl⟩

/-- What is no leftover is long enough, or does not begin with the code of success. -/
theorem real_of_isLeftover (real : isLeftover minimum m = false) (some : m ≠ []) :
    minimum ≤ m.length ∨ ∃ b ∈ m.head?, b ≠ 0 := by
  obtain ⟨b, rest, rfl⟩ := List.exists_cons_of_ne_nil some
  by_cases short : (b :: rest).length < minimum
  · refine .inr ⟨b, rfl, ?_⟩
    rintro rfl
    rw [isLeftover, decide_eq_true short] at real
    cases real
  · exact .inl (Nat.le_of_not_lt short)

/-- Nothing in hand is taken as it is. -/
theorem Waits.nothing (h : Waits minimum retries s [] waits r u) : r = .ok [] ∧ waits = [] := by
  have real : isLeftover minimum [] = false := by simp [isLeftover]
  cases h with
  | taken => exact ⟨rfl, rfl⟩
  | givenUp leftover | failed leftover | more leftover => exact absurd (leftover.symm.trans real) Bool.noConfusion

/-- From a message that was received whole, the link comes to another one, or the last wait left nothing in hand. -/
theorem Waits.response (h : Waits minimum retries s m waits r u) (whole : Whole m s) :
    ∀ m', r = .ok m' → (waits.getLast? = some (.ok .repeatRequest) → m' = []) ∧
      (waits.getLast? ≠ some (.ok .repeatRequest) →
        Whole m' u ∧ m' ≠ [] ∧ (minimum ≤ m'.length ∨ ∃ b ∈ m'.head?, b ≠ 0)) := by
  -- on the waits: each but the last left a message in hand that was received whole
  induction h with
  | taken real =>
    rintro m' same
    obtain rfl := Except.ok.inj same
    exact ⟨nofun, fun _ => ⟨whole, whole.ne_nil, real_of_isLeftover real whole.ne_nil⟩⟩
  | givenUp leftover => nofun
  | failed leftover wait => nofun
  | @more retries s t u m got waits r leftover wait rest ih =>
    intro m' same
    cases got with
    | repeatRequest =>
      obtain ⟨rfl, rfl⟩ := rest.nothing
      obtain rfl := Except.ok.inj same
      exact ⟨fun _ => rfl, fun other => absurd rfl other⟩
    | message got =>
      have last : (.ok (.message got) :: waits).getLast? = some (.ok .repeatRequest) ↔
          waits.getLast? = some (.ok .repeatRequest : Except Fault Received) := by
        rw [List.getLast?_cons]
        cases waits.getLast? with
        | none => exact iff_of_false nofun nofun
        | some w => exact Iff.rfl
      rw [ne_eq, last]
      exact ih (whole_of_received wait) m' same

/-! ## Requests -/

/-- **A request whose response has a least length** fails as the request does, or goes on from the response to that,
which is a message that was received whole. It waits for at most as many further messages as the link has retries,
and what it returns is a message that was received whole, too, with the least length or a code that is not success;
but if the last wait ended with a spoiled response, that is no bytes. -/
theorem requestWithMinimum_waits (message : Bytes) (minimum : Nat) (s : Linked) :
    (∃ e t, (request message).run s = (.error e, t) ∧
      (requestWithMinimum message minimum).run s = (.error e, { t with link.reports := s.link.reports })) ∨
    ∃ first t waits r u, (request message).run s = (.ok first, t) ∧ Whole first t ∧
      Waits minimum s.link.parameters.retries.toNat t first waits r u ∧
      (requestWithMinimum message minimum).run s = (r, { u with link.reports := s.link.reports }) ∧
      waits.length ≤ s.link.parameters.retries.toNat ∧
      ∀ m, r = .ok m → (waits.getLast? = some (.ok .repeatRequest) → m = []) ∧
        (waits.getLast? ≠ some (.ok .repeatRequest) →
          Whole m u ∧ m ≠ [] ∧ (minimum ≤ m.length ∨ ∃ b ∈ m.head?, b ≠ 0)) := by
  unfold requestWithMinimum
  rw [Step.run_get_bind, Step.run_outcome_bind, changeLink, Step.run_modify_bind, Step.run_ofExcept]
  rcases asked : (request message).run s with ⟨first, t⟩
  cases first with
  | error e =>
    refine .inl ⟨e, t, rfl, ?_⟩
    rw [Step.run_bind_of_error asked]
  | ok first =>
    have kept : t.link.parameters = s.link.parameters :=
      (Prod.mk.inj ((converses_terms.request message).of_run asked)).1
    obtain ⟨_, v, fs, -, -, reassembled⟩ := request_ok asked
    obtain ⟨waits, waited⟩ := skipLeftovers_waits minimum t.link.parameters.retries.toNat first t
    have known : parameters.run t = (.ok s.link.parameters, t) := by rw [← kept]; rfl
    rw [kept] at waited
    rw [Step.run_bind_of_ok asked, Step.run_bind_of_ok known]
    have whole : Whole first t := ⟨v, fs, reassembled⟩
    exact .inr ⟨first, t, waits, _, _, rfl, whole, waited, rfl, waited.length_le, waited.response whole⟩

/-- A link at the start of a session, on a line where each message is answered with some bytes. -/
def opening (answers : List Bytes) : Linked where
  channel :=
    { line :=
        { isClosed := false
          answers := answers.map fun bytes _ => [(Duration.ofMillis 10, .arrival (.data bytes))] }
      connected := true }
  link := .ofParameters (.ofConfig { turnaroundDelay := 0 })

/-- A leftover, the last packet of a longer one, and the response that was asked for. -/
def leftoversFirst : List Bytes := [
  [ackByte, 0xEE, 0x00, 0x00, 0x00, 0x00, 0x01, 0x00, 0x11, 0x31],
  [0xEE, 0x00, 0x80, 0x00, 0x00, 0x01, 0x07, 0xFB, 0xCF],
  [0xEE, 0x00, 0x20, 0x00, 0x00, 0x05, 0x00, 0x00, 0x02, 0x00, 0x00, 0x9B, 0xAD]]

/-- **No bytes at all are returned** when a packet follows a leftover that does not fit: this is no message, and the
response is still to come. -/
theorem requestWithMinimum_nothing :
    ∃ u, (requestWithMinimum [0x20] 4).run (opening leftoversFirst) = (.ok [], u) ∧
      ¬ Whole [] u ∧ u.waiting = 13 := by
  have run : ((do
      let m ← requestWithMinimum [0x20] 4
      return (m, (← get).waiting) : Step Linked (Bytes × Nat)).run (opening leftoversFirst)).1 = .ok ([], 13) := by
    decide +kernel
  obtain ⟨m, u, returned, h⟩ := Step.run_bind_ok.1 (Step.run_eq_of_fst run)
  obtain ⟨rfl, left⟩ := Prod.mk.inj (Except.ok.inj (Prod.mk.inj h).1)
  exact ⟨u, returned, fun whole => whole.ne_nil rfl, left⟩

end Metering.Linked
