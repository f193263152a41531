import Metering.Proofs.Answered
import Metering.Proofs.Queue
import Metering.Proofs.Settle
import Metering.Proofs.Verified

set_option autoImplicit false

/-! # After a deadline

A caller's deadline may pass in the middle of a response. The exchange is then given up: what had come of the
response is dropped, the rest of it comes later (`Channel.GivenUp`), and the session is kept. The next exchange
passes over that rest, as over any garbage, if no byte of it is taken for the start of an APDU. Then it returns what
it is answered (`Client.exchange_after_deadline`). A start tag within the rest is the start of an APDU to the reader,
which takes the byte behind it for the length, so the next response is lost
(`Client.not_exchange_after_deadline`). -/

namespace Metering

open Timed

namespace Channel

variable {c c' : Channel} {limit deadline : Moment} {part rest : List Timed} {count n : Nat}

/-! ## Waits that a deadline ends -/

/-- The bytes of `part` come by some moment; the others, and whatever follows them, come later. -/
structure Cut (c : Channel) (part rest : List Timed) (limit : Moment) : Prop where
  due : c.due = since c.now (part ++ rest)
  timely : ∀ x ∈ part, x.1 ≤ limit
  late : ∀ x ∈ rest, limit < x.1
  silent : ∀ x ∈ c.ending, limit < x.1

/-- A deadline that the caller has set is what ends the present waits. -/
structure Bounded (c : Channel) (limit : Moment) : Prop where
  unhindered : c.Unhindered
  deadline : c.deadline = some limit
  calm : c.window.isActive = false
  ahead : c.now ≤ limit

/-- The deadline has passed; the first `count` of the bytes to come are gone and the others are still to come. -/
structure GivenUp (c c' : Channel) (count : Nat) (limit : Moment) : Prop where
  unhindered : c'.Unhindered
  now_eq : c'.now = limit
  due_eq : c'.due = since limit (c.due.drop count)
  deadlineHit : c'.deadlineHit = true

theorem Bounded.capped_eq (h : c.Bounded limit) (past : limit < deadline) : c.capped deadline = (limit, true) := by
  unfold capped
  rw [h.deadline, h.calm]
  simp [past]

theorem Bounded.limit_eq (h : c.Bounded limit) (past : limit < deadline) : c.limit deadline = limit :=
  congrArg Prod.fst (h.capped_eq past)

/-- Until the deadline the remainder of an APDU gets no longer than the rest. -/
theorem Bounded.limit_grace (h : c.Bounded limit) (past : limit < deadline) :
    max c.now (c.limit (grace deadline c.now)) = limit := by
  have ahead : grace deadline c.now = deadline := if_neg (Nat.not_le.2 (Nat.lt_of_le_of_lt h.ahead past))
  rw [ahead, h.limit_eq past, Nat.max_eq_right h.ahead]

theorem Bounded.later (h : c.Bounded limit) (later : Later c c' n) (early : c'.now ≤ limit) : c'.Bounded limit :=
  ⟨later.unhindered, later.deadline_eq.trans h.deadline, later.window_eq ▸ h.calm, early⟩

theorem GivenUp.after {c₁ : Channel} {k : Nat} (h : c₁.GivenUp c' k limit) (later : Later c c₁ n)
    (early : c₁.now ≤ limit) : c.GivenUp c' (n + k) limit where
  unhindered := h.unhindered
  now_eq := h.now_eq
  due_eq := by rw [h.due_eq, later.due_eq, drop_since, since_since, Nat.max_eq_left early, List.drop_drop]
  deadlineHit := h.deadlineHit

theorem Cut.later (cut : c.Cut part rest limit) (later : Later c c' n) (some : n ≤ part.length) :
    c'.Cut (part.drop n) rest limit where
  due := by
    rw [later.due_eq, cut.due, drop_since, since_since, Nat.max_eq_left later.now_le,
      List.drop_append_of_le_length some]
  timely := fun x hx => cut.timely x (List.mem_of_mem_drop hx)
  late := cut.late
  silent := by
    intro x hx
    rw [later.ending_eq] at hx
    obtain ⟨y, hy, rfl⟩ := List.mem_map.1 hx
    exact Nat.lt_of_lt_of_le (cut.silent y hy) (Nat.le_max_right _ _)

/-- A cut stream of which an early part was taken. -/
theorem Cut.behind {front : List Timed} (cut : c.Cut (front ++ part) rest limit) (bounded : c.Bounded limit)
    (later : Later c c' front.length) (now : c'.now = latest c.now front) :
    c'.Cut part rest limit ∧ c'.Bounded limit := by
  have early : c'.now < limit + 1 := now ▸ latest_lt (Nat.lt_succ_of_le bounded.ahead) fun x hx =>
    Nat.lt_succ_of_le (cut.timely x (List.mem_append_left _ hx))
  have cut' := cut.later later (by simp)
  rw [List.drop_left] at cut'
  exact ⟨cut', bounded.later later (Nat.le_of_lt_succ early)⟩

/-- What is in the ring has come. -/
theorem Cut.input_le (cut : c.Cut part rest limit) (bounded : c.Bounded limit) : c.input.length ≤ part.length := by
  refine Nat.le_of_not_lt fun beyond => ?_
  have length : c.input.length ≤ part.length + rest.length := by
    have whole : c.input.length ≤ c.due.length := by simp [due_eq c]
    rwa [cut.due, length_since, List.length_append] at whole
  obtain ⟨y, others, rfl⟩ := List.exists_cons_of_length_pos (l := rest) (by omega)
  obtain ⟨k, hk⟩ : ∃ k, c.input.length = part.length + (k + 1) := ⟨c.input.length - part.length - 1, by omega⟩
  have ringed : (max c.now y.1, y.2) ∈ c.due.take c.input.length := by
    rw [cut.due, take_since, hk, List.take_length_add_append]
    exact List.mem_map_of_mem (List.mem_append_right _ List.mem_cons_self)
  have come : max c.now y.1 ≤ limit := Nat.le_trans (le_now_of_mem_ring ringed) bounded.ahead
  exact Nat.not_le_of_lt (cut.late y List.mem_cons_self) (Nat.le_trans (Nat.le_max_right _ _) come)

/-- The first thing on the line is late if everything that is not is in the ring. -/
theorem Cut.head_late (cut : c.Cut part rest limit) (bounded : c.Bounded limit)
    (all : part.length ≤ c.input.length) : ∀ a ∈ c.line.arrivals.head?, limit < a.1 := by
  intro a ha
  obtain ⟨arrivals, hrest⟩ := List.head?_eq_some_iff.1 (Option.mem_def.1 ha)
  have later {t : Moment} (late : limit < max c.now t) : limit < t :=
    Nat.lt_of_not_le fun le => Nat.not_le_of_lt late (Nat.max_le.2 ⟨bounded.ahead, le⟩)
  obtain ⟨moment, item⟩ := a
  have ends (other : Line.behind c.line.arrivals = some (moment, item)) : limit < moment :=
    later (cut.silent (max c.now moment, 0) (by simp [ending, other, since]))
  cases item with
  | data bytes =>
    have some : bytes ≠ [] :=
      fun none => bounded.unhindered.items (moment, .data []) (by rw [hrest, none]; simp) rfl
    obtain ⟨b, tail, rfl⟩ := List.exists_cons_of_ne_nil some
    have ringed : (c.input.toList.map ((c.now, ·))).length = c.input.length := by simp
    have mem : (max c.now moment, b) ∈ c.due.drop c.input.length := by
      rw [due_eq, List.drop_left' ringed, hrest]
      simp [Line.coming, since]
    rw [cut.due, drop_since, List.drop_append, List.drop_eq_nil_of_le all, List.nil_append] at mem
    obtain ⟨y, hy, same⟩ := List.mem_map.1 mem
    have moment_eq : max c.now y.1 = max c.now moment := congrArg Prod.fst same
    have late := cut.late y (List.mem_of_mem_drop hy)
    exact later (moment_eq ▸ Nat.lt_of_lt_of_le late (Nat.le_max_right _ _))
  | ended => exact ends (by rw [hrest]; rfl)
  | failure words => exact ends (by rw [hrest]; rfl)

/-- The channel after a wait that its deadline ended. -/
def lapsed (c : Channel) (limit : Moment) : Channel :=
  { c with line := { c.line with now := limit }, deadlineHit := true }

theorem fill_late (cut : c.Cut part rest limit) (bounded : c.Bounded limit) (all : part.length ≤ c.input.length)
    (past : limit < deadline) : (fill deadline).run c = (.ok .elapsed, c.lapsed limit) := by
  have until_ : max c.line.now limit = limit := Nat.max_eq_right bounded.ahead
  have late : ∀ a ∈ c.line.arrivals.head?, max c.line.now limit < a.1 := until_.symm ▸ cut.head_late bounded all
  have idle := orDrop_ok (Line.read_late bounded.unhindered.cancels bounded.unhindered.cancelled late
    (!c.window.isActive) readChunk)
  rw [until_] at idle
  unfold fill
  rw [Step.run_get_bind, bounded.capped_eq past]
  dsimp only
  rw [Step.run_bind_of_ok idle]
  rfl

/-- Of a cut stream, the next wait brings a byte in time as long as there is one. -/
theorem fill_early (cut : c.Cut part rest limit) (bounded : c.Bounded limit) (more : c.input.length < part.length)
    (past : limit < deadline) :
    ∃ c', (fill deadline).run c = (.ok .data, c') ∧ Later c c' 0 ∧ c'.now ≤ limit ∧
      c'.line.waiting < c.line.waiting := by
  have coming : c.input.length < c.due.length := by
    rw [cut.due, length_since, List.length_append]
    exact Nat.lt_of_lt_of_le more (Nat.le_add_right _ _)
  obtain ⟨x, rest', hdue, wait⟩ := fill_run bounded.unhindered coming deadline
  -- the byte behind those in the ring is one of the early part
  have early : x.1 ≤ limit := by
    have ringed : (c.input.toList.map ((c.now, ·))).length = c.input.length := by simp
    have next : (c.due.drop c.input.length).head? = some x := by rw [hdue, List.drop_left' ringed]; rfl
    rw [cut.due, drop_since, List.drop_append_of_le_length (Nat.le_of_lt more), List.drop_eq_getElem_cons more] at next
    obtain rfl := Option.some.inj next
    exact Nat.max_le.2 ⟨bounded.ahead, cut.timely _ (List.getElem_mem more)⟩
  rw [bounded.limit_eq past, Nat.max_eq_right bounded.ahead] at wait
  rcases wait with ⟨-, c', filled, later, moved, -, less⟩ | ⟨late, -⟩
  · exact ⟨c', filled, later, moved ▸ early, less⟩
  · exact absurd early (Nat.not_le_of_lt late)

/-- A wait for more bytes than come before the deadline. -/
theorem fillRounds_late (cut : c.Cut part rest limit) (bounded : c.Bounded limit) (few : part.length < count)
    (past : limit < deadline) {fuel : Nat} (left : c.line.waiting < fuel) :
    ∃ c', (Step.repeatUpTo (fillRound count (.whole deadline)) fuel deadline).run c =
        (.error (.readTimeout part.length), c') ∧ c.GivenUp c' 0 limit ∧ c'.input.length = part.length := by
  induction fuel generalizing c with
  | zero => exact absurd left (Nat.not_lt_zero _)
  | succ fuel ih =>
    have ring := cut.input_le bounded
    have there : ¬ count ≤ c.input.length := Nat.not_le_of_lt (Nat.lt_of_le_of_lt ring few)
    unfold Step.repeatUpTo
    by_cases more : c.input.length < part.length
    · obtain ⟨c₁, filled, later, early, less⟩ := fill_early cut bounded more past
      have round := fillRound_of_data there (.whole deadline) filled
      obtain ⟨c', run, givenUp, input⟩ := ih (cut.later later (Nat.zero_le _)) (bounded.later later early) (by omega)
      rw [Step.run_bind_of_ok round]
      exact ⟨c', run, givenUp.after later early, input⟩
    · have all : c.input.length = part.length := Nat.le_antisymm ring (Nat.le_of_not_lt more)
      have elapsed := fill_late cut bounded (Nat.le_of_eq all.symm) past
      have round : (fillRound count (.whole deadline) deadline).run c =
          (.error (.readTimeout part.length), { c.lapsed limit with
            statistics := { c.statistics with readTimeouts := c.statistics.readTimeouts + 1 } }) := by
        unfold fillRound
        rw [Step.run_get_bind, if_neg there, Step.run_bind_of_ok elapsed, ← all]
        rfl
      rw [Step.run_bind_of_error round]
      refine ⟨_, rfl, ⟨?_, rfl, ?_, rfl⟩, all⟩
      · exact ⟨bounded.unhindered.connected, bounded.unhindered.cancels, bounded.unhindered.cancelled,
          bounded.unhindered.items⟩
      · rw [List.drop_zero, due, due, since_since, Nat.max_eq_left bounded.ahead]
        rfl

/-- **A read that a deadline ends** drops what had come of it. -/
theorem readExactUntil_late (cut : c.Cut part rest limit) (bounded : c.Bounded limit) (few : part.length < count)
    (past : limit < deadline) :
    ∃ c', (readExactUntil count deadline).run c = (.error (.readTimeout part.length), c') ∧
      c.GivenUp c' part.length limit := by
  obtain ⟨c₁, run, givenUp, input⟩ := fillRounds_late cut bounded few past (Nat.lt_succ_self c.line.waiting)
  have waited : (fillTo count (.whole deadline)).run c = (.error (.readTimeout part.length), c₁) := by
    unfold fillTo rounds
    rw [Step.run_get_bind, Step.run_get_bind]
    exact run
  unfold readExactUntil readExactly
  rw [Step.run_bind_of_ok (ensureConnected_run bounded.unhindered.connected), Step.run_outcome_bind, waited]
  refine ⟨{ c₁ with input := c₁.input.clear }, rfl, ?_, givenUp.now_eq, ?_, givenUp.deadlineHit⟩
  · exact ⟨givenUp.unhindered.connected, givenUp.unhindered.cancels, givenUp.unhindered.cancelled,
      givenUp.unhindered.items⟩
  · have dropped : ({ c₁ with input := c₁.input.clear } : Channel).due = c₁.due.drop c₁.input.length := by
      rw [due_eq c₁, List.drop_left' (by simp), due_eq]
      simp [now]
    rw [dropped, givenUp.due_eq, List.drop_zero, drop_since, input]

/-! ## APDUs that a deadline cuts -/

/-- What comes early of a cut stream is read. -/
theorem Cut.readRemainder {front : List Timed} (cut : c.Cut (front ++ part) rest limit) (bounded : c.Bounded limit)
    (size : front.length = count) (past : limit < deadline) :
    ∃ c', (remainderDeadline deadline >>= readExactUntil count).run c = (.ok (front.map (·.2)), c') ∧
      Later c c' count ∧ c'.Cut part rest limit ∧ c'.Bounded limit := by
  have due : c.due = since c.now (front ++ (part ++ rest)) := by rw [cut.due, List.append_assoc]
  have timely : ∀ x ∈ front, x.1 ≤ max c.now (c.limit (grace deadline c.now)) := by
    rw [bounded.limit_grace past]
    exact fun x hx => cut.timely x (List.mem_append_left _ hx)
  obtain ⟨c', read, later, -, now⟩ := readRemainder_run bounded.unhindered due size timely
  obtain ⟨cut', bounded'⟩ := cut.behind bounded (size ▸ later) now
  exact ⟨c', read, later, cut', bounded'⟩

theorem readRemainder_late (cut : c.Cut part rest limit) (bounded : c.Bounded limit) (few : part.length < count)
    (past : limit < deadline) :
    ∃ c', (remainderDeadline deadline >>= readExactUntil count).run c = (.error (.readTimeout part.length), c') ∧
      c.GivenUp c' part.length limit := by
  have ahead : grace deadline c.now = deadline := if_neg (Nat.not_le.2 (Nat.lt_of_le_of_lt bounded.ahead past))
  rw [Step.run_bind_of_ok (remainderDeadline_run deadline c), ahead]
  exact readExactUntil_late cut bounded few past

theorem Cut.readLengthOctets {first : UInt8} {octets : List Timed} (cut : c.Cut (octets ++ part) rest limit)
    (bounded : c.Bounded limit) (length : Ber.LengthOf first (octets.map (·.2)) n) (past : limit < deadline) :
    ∃ c', (readLengthOctets first deadline).run c = (.ok (octets.map (·.2), n), c') ∧
      Later c c' octets.length ∧ c'.Cut part rest limit ∧ c'.Bounded limit := by
  have due : c.due = since c.now (octets ++ (part ++ rest)) := by rw [cut.due, List.append_assoc]
  have timely : ∀ x ∈ octets, x.1 ≤ max c.now (c.limit (grace deadline c.now)) := by
    rw [bounded.limit_grace past]
    exact fun x hx => cut.timely x (List.mem_append_left _ hx)
  obtain ⟨c', read, later, -, now⟩ := readLengthOctets_run bounded.unhindered due length timely
  obtain ⟨cut', bounded'⟩ := cut.behind bounded later now
  exact ⟨c', read, later, cut', bounded'⟩

theorem readLengthOctets_late {first : UInt8} {octets : Bytes} (cut : c.Cut part rest limit) (bounded : c.Bounded limit)
    (length : Ber.LengthOf first octets n) (few : part.length < octets.length) (past : limit < deadline) :
    ∃ c', (readLengthOctets first deadline).run c = (.error (.readTimeout part.length), c') ∧
      c.GivenUp c' part.length limit := by
  cases length with
  | short small => exact absurd few (Nat.not_lt_zero _)
  | long large _ size some short =>
    have counted : ¬ (first.toNat % 128 = 0 ∨ first.toNat % 128 > maxLengthOctets) := by
      rw [← size, not_or]
      exact ⟨fun none => some (List.eq_nil_of_length_eq_zero none), Nat.not_lt.2 short⟩
    obtain ⟨c', read, givenUp⟩ := readRemainder_late cut bounded (size ▸ few) past
    refine ⟨c', ?_, givenUp⟩
    unfold readLengthOctets
    rw [if_neg large]
    dsimp only
    rw [if_neg counted, ← bind_assoc, Step.run_bind_of_error read]

/-- The rest of a read of an APDU whose deadline passes behind the start tag. -/
theorem readApdu_late {c₁ : Channel} {start head : Timed} {octets elements : List Timed}
    {timeout : Duration} {k : Nat} (inside : k < octets.length + elements.length + 1)
    (length : Ber.LengthOf head.2 (octets.map (·.2)) elements.length)
    (started : (readStart [Acse.apduTag] timeout).run c = (.ok start.2, c₁))
    (cut : c₁.Cut ((head :: (octets ++ elements)).take k) rest limit) (bounded : c₁.Bounded limit)
    (past : limit < c.now + timeout) :
    ∃ j c', (readApdu timeout).run c = (.error (.readTimeout j), c') ∧ c₁.GivenUp c' k limit := by
  unfold readApdu
  rw [Step.run_get_bind, Step.run_bind_of_ok started, ← bind_assoc]
  cases k with
  | zero =>
    -- the deadline passes before the length
    have none : ((head :: (octets ++ elements)).take 0).length < 1 := Nat.zero_lt_one
    obtain ⟨c', read, givenUp⟩ := readRemainder_late cut bounded none past
    rw [Step.run_bind_of_error read]
    exact ⟨_, c', rfl, givenUp⟩
  | succ k =>
    have ahead : c₁.Cut ([head] ++ (octets ++ elements).take k) rest limit := cut
    obtain ⟨c₂, read₂, later₂, cut₂, bounded₂⟩ := ahead.readRemainder bounded List.length_singleton past
    have first : ([head].map (·.2)).getD 0 0 = head.2 := rfl
    rw [Step.run_bind_of_ok read₂, first]
    dsimp only
    by_cases short : k < octets.length
    · -- within the length
      rw [List.take_append_of_le_length (Nat.le_of_lt short)] at cut₂
      have size : (octets.take k).length = k := List.length_take_of_le (Nat.le_of_lt short)
      have few : (octets.take k).length < (octets.map (·.2)).length := by rwa [size, List.length_map]
      obtain ⟨c', read, givenUp⟩ := readLengthOctets_late cut₂ bounded₂ length few past
      rw [Step.run_bind_of_error read, size, Nat.add_comm k]
      rw [size] at givenUp
      exact ⟨_, c', rfl, givenUp.after later₂ bounded₂.ahead⟩
    · -- within the elements
      obtain ⟨i, rfl⟩ := Nat.exists_eq_add_of_le (Nat.le_of_not_lt short)
      have few : i < elements.length := by omega
      have size : (elements.take i).length = i := List.length_take_of_le (Nat.le_of_lt few)
      rw [List.take_length_add_append] at cut₂
      obtain ⟨c₃, read₃, later₃, cut₃, bounded₃⟩ := cut₂.readLengthOctets bounded₂ length past
      obtain ⟨c', read, givenUp⟩ := readRemainder_late cut₃ bounded₃ (size.symm ▸ few) past
      rw [Step.run_bind_of_ok read₃]
      dsimp only
      rw [if_pos (Nat.lt_of_le_of_lt (Nat.zero_le i) few), ← bind_assoc, Step.run_bind_of_error read, size]
      rw [size] at givenUp
      have both := (givenUp.after later₃ bounded₃.ahead).after later₂ bounded₂.ahead
      rw [Nat.add_comm 1] at both
      exact ⟨_, c', rfl, both⟩

/-- **A read of an APDU that a deadline cuts** takes what has come of it and leaves the rest. -/
theorem readApdu_cut {timeout : Duration} {d : Delivery} {more : List Timed} {k : Nat} (frame : Acse.IsFrame d.bytes)
    (begun : 0 < k) (inside : k < d.frame.length)
    (cut : c.Cut (d.garbage ++ d.frame.take k) (d.frame.drop k ++ more) limit) (bounded : c.Bounded limit)
    (past : limit < c.now + timeout) :
    ∃ j c', (readApdu timeout).run c = (.error (.readTimeout j), c') ∧ c.GivenUp c' (d.garbage.length + k) limit := by
  obtain ⟨first, _, _, hbytes, length⟩ := frame
  obtain ⟨start, tail, hframe, hstart, htail⟩ := List.map_eq_cons_iff.1 hbytes
  obtain ⟨head, tail, rfl, rfl, htail'⟩ := List.map_eq_cons_iff.1 htail
  obtain ⟨octets, elements, rfl, rfl, rfl⟩ := List.map_eq_append_iff.1 htail'
  rw [List.length_map] at length
  obtain ⟨k, rfl⟩ : ∃ i, k = i + 1 := ⟨k - 1, by omega⟩
  generalize hrest : d.frame.drop (k + 1) ++ more = rest at cut
  rw [hframe, List.take_succ_cons, List.append_cons] at cut
  rw [hframe] at inside
  -- the start tag comes in time
  have due : c.due = since c.now (d.garbage ++ start :: ((head :: (octets ++ elements)).take k ++ rest)) := by
    rw [cut.due]
    simp
  have noise : ∀ x ∈ d.garbage, x.2 ∉ [Acse.apduTag] := fun x hx => by simpa using d.clean x hx
  have found : start.2 ∈ [Acse.apduTag] := hstart ▸ List.mem_singleton_self _
  have timely : ∀ x ∈ d.garbage ++ [start], x.1 ≤ max c.now (c.limit (c.now + timeout)) := by
    rw [bounded.limit_eq past, Nat.max_eq_right bounded.ahead]
    exact fun x hx => cut.timely x (List.mem_append_left _ hx)
  obtain ⟨c₁, started, later, -, now⟩ := (readStart_run bounded.unhindered due noise found).1 timely
  have size : (d.garbage ++ [start]).length = d.garbage.length + 1 := List.length_append
  obtain ⟨cut₁, bounded₁⟩ := cut.behind bounded (size ▸ later) now
  obtain ⟨j, c', read, givenUp⟩ := readApdu_late (by simpa using inside) length started cut₁ bounded₁ past
  have both := givenUp.after later bounded₁.ahead
  rw [Nat.add_assoc, Nat.add_comm 1] at both
  exact ⟨j, c', read, both⟩

end Channel

namespace Association

/-- Nothing is secured: there are no keys, and no request asks for any. -/
structure Clear (a : Association) : Prop where
  security : a.security = none
  mode : a.parameters.mode = .clear

theorem Clear.congr {a b : Association} (h : a.Clear) (same : b.opening = a.opening) : b.Clear where
  security := by
    have keys := congrArg (·.keys) same
    rw [opening, opening, h.security] at keys
    exact Option.map_eq_none_iff.1 keys
  mode := (congrArg (·.settings.parameters.mode) same).trans h.mode

/-- A body in the clear is opened without a key; the key and vector that may come with it are noted. -/
theorem openBody_clear {a : Association} {m m' : Acse.Incoming} {control : Epsem.Control} {body : Bytes} (clear : a.Clear)
    (plain : m.mode = .clear) (hcontrol : m.control = some control)
    (edClass : m.takeEdClass control m.body = .ok (body, m')) :
    ∃ auth, (openBody m).run a = (.ok body, { a with incomingAuthentication := auth }) := by
  have mode : control.mode = .clear := by simpa [Acse.Incoming.mode, hcontrol] using plain
  have unlocked (auth : Acse.Authentication) : m.openBody (a.security.map (·.eax)) auth = .ok (body, m') := by
    rw [Acse.Incoming.openBody_eq hcontrol, mode]
    exact edClass
  have allowed : ¬ (a.parameters.mode.isSecure && m.hasBody && !m.mode.isSecure) = true := by
    simp [clear.mode, SecurityMode.isSecure]
  have adopts (sent : Acse.Authentication) :
      (adoptAuthentication sent).run a = (.ok (), { a with incomingAuthentication := sent }) := by
    unfold adoptAuthentication
    rw [Step.run_get_bind]
    split
    next context hs => exact absurd (clear.security.symm.trans hs) (by simp)
    next => rfl
  unfold openBody
  dsimp only
  cases m.authentication with
  | none =>
    refine ⟨a.incomingAuthentication, ?_⟩
    dsimp only
    rw [Step.run_get_bind, if_neg allowed, Step.run_bind, Step.run_ofExcept, unlocked]
    rfl
  | some sent =>
    refine ⟨sent, ?_⟩
    dsimp only
    rw [Step.run_bind_of_ok (adopts sent), Step.run_get_bind]
    dsimp only
    rw [if_neg allowed, Step.run_bind, Step.run_ofExcept, unlocked]
    rfl

/-- The bytes are whole APDUs that answer other invocations, and behind them there is no start tag. -/
def PassesOver (a : Association) (bytes : List Timed) : Prop :=
  ∃ (late : List Delivery) (garbage : List Timed), bytes = late.flatMap Delivery.all ++ garbage ∧
    (∀ x ∈ garbage, x.2 ≠ Acse.apduTag) ∧
    ∀ d ∈ late, ∃ m, Acse.Incoming.parse d.bytes a.parameters.maxIncoming = .ok m ∧ m.isStale a.invocationId = true

end Association

namespace Delivery

/-- What of it can be had as of some moment. -/
def since (now : Moment) (d : Delivery) : Delivery where
  garbage := Timed.since now d.garbage
  frame := Timed.since now d.frame
  clean := by
    intro x hx
    obtain ⟨y, hy, rfl⟩ := List.mem_map.1 hx
    exact d.clean y hy

theorem all_since (now : Moment) (d : Delivery) : (d.since now).all = Timed.since now d.all :=
  (since_append _ _).symm

theorem bytes_since (now : Moment) (d : Delivery) : (d.since now).bytes = d.bytes := by
  simp [bytes, since, Timed.since, Function.comp_def]

theorem flatMap_since (now : Moment) (late : List Delivery) :
    (late.map (since now)).flatMap all = Timed.since now (late.flatMap all) := by
  induction late with
  | nil => rfl
  | cons d late ih => rw [List.map_cons, List.flatMap_cons, List.flatMap_cons, since_append, ih, all_since]

end Delivery

namespace Associated

variable {services responses : List Bytes} {s w : Associated} {m : Acse.Incoming} {limit : Moment}

/-! ## Exchanges that a deadline cuts -/

/-- An exchange up to its first wait. -/
def dispatch (services : List Bytes) : Step Associated Bytes := do
  let apdu ← pack services
  send apdu
  return apdu

theorem waits_of_dispatch (sent : ((dispatch services).run s).1.toBool = true)
    (awaited : ((dispatch services).run s).2.association.parameters.response ≠ .never) :
    ∃ retries apdu, Waits services s retries apdu ((dispatch services).run s).2 := by
  rcases run : (dispatch services).run s with ⟨r, w⟩
  rw [run] at sent awaited
  cases r with
  | error e => cases sent
  | ok apdu =>
    obtain ⟨apdu, t, packed, rest⟩ := Step.run_bind_ok.1 run
    obtain ⟨_, w', wrote, rest⟩ := Step.run_bind_ok.1 rest
    obtain ⟨-, rfl⟩ := Prod.mk.inj rest
    exact ⟨_, apdu, .first packed wrote awaited⟩

theorem Waits.opening {retries : Nat} {apdu : Bytes} (h : Waits services s retries apdu w) :
    w.association.opening = s.association.opening := by
  rw [h.association]
  exact pack_opening services s

/-- Nothing is chosen for an APDU in the clear. -/
theorem pack_clear (clear : s.association.Clear) :
    ((pack services).run s).2.association = prepare s.association := by
  have prepared : (prepare s.association).Clear := clear.congr (Association.prepare_opening s.association)
  rw [pack_run]
  generalize prepare s.association = a at prepared
  dsimp only
  have chosen : Association.chooseSeal.run a = (.ok none, a) := by
    unfold Association.chooseSeal
    rw [Step.run_get_bind]
    split
    next context _ hs _ => exact absurd (prepared.security.symm.trans hs) (by simp)
    next => rfl
  unfold Association.build
  rw [Step.run_bind_of_ok chosen, Step.run_get_bind, Step.run_ofExcept]

theorem receive_cut {r : Delivery} {more : List Timed} {k : Nat} (frame : Acse.IsFrame r.bytes) (begun : 0 < k)
    (inside : k < r.frame.length)
    (cut : w.channel.Cut (r.garbage ++ r.frame.take k) (r.frame.drop k ++ more) limit)
    (bounded : w.channel.Bounded limit) (past : limit < w.channel.now + w.association.options.responseTimeout) :
    ∃ j c, receive.run w = (.error (.readTimeout j), { w with channel := c }) ∧
      w.channel.GivenUp c (r.garbage.length + k) limit := by
  obtain ⟨j, c, read, givenUp⟩ := Channel.readApdu_cut frame begun inside cut bounded past
  refine ⟨j, c, ?_, givenUp⟩
  have patience : w.channel.now + w.association.options.responseTimeout - w.channel.now =
      w.association.options.responseTimeout := Nat.add_sub_cancel_left _ _
  have positive : w.association.options.responseTimeout ≠ 0 := by
    intro none
    rw [none, Nat.add_zero] at past
    exact Nat.not_le_of_lt past bounded.ahead
  have taken : (onChannel (Channel.readApdu w.association.options.responseTimeout)).run w =
      (.error (.readTimeout j), { w with channel := c }) := Step.run_within_eq.2 ⟨c, read, rfl⟩
  unfold receive
  rw [Step.run_get_bind, Step.repeatUpTo]
  have round : (receiveRound (w.channel.now + w.association.options.responseTimeout) ()).run w =
      (.error (.readTimeout j), { w with channel := c }) := by
    unfold receiveRound
    rw [Step.run_get_bind]
    dsimp only
    rw [patience, if_neg positive, Step.run_bind_of_error taken]
  rw [Step.run_bind_of_error round]

/-- **An exchange that a deadline cuts** reports that its answer did not come, and is over. -/
theorem exchange_cut {retries : Nat} {apdu : Bytes} {r : Delivery} {more : List Timed} {k : Nat}
    (wait : Waits services s retries apdu w) (frame : Acse.IsFrame r.bytes) (begun : 0 < k) (inside : k < r.frame.length)
    (cut : w.channel.Cut (r.garbage ++ r.frame.take k) (r.frame.drop k ++ more) limit)
    (bounded : w.channel.Bounded limit) (past : limit < w.channel.now + w.association.options.responseTimeout) :
    ∃ j c, (exchange services).run s = (.error (.readTimeout j), { w with channel := c }) ∧
      w.channel.GivenUp c (r.garbage.length + k) limit := by
  obtain ⟨j, c, received, givenUp⟩ := receive_cut frame begun inside cut bounded past
  refine ⟨j, c, ?_, givenUp⟩
  have once (again : Option (Step Associated (Option Acse.Incoming))) :
      (awaitOnce again).run w = (.error (.readTimeout j), { w with channel := c }) := by
    unfold awaitOnce
    rw [Step.run_outcome_bind, received]
    dsimp only
    rw [Step.run_get_bind, if_pos givenUp.deadlineHit]
    rfl
  have attempted : (attempt services).run s = (.error (.readTimeout j), { w with channel := c }) := by
    rw [attempt_of_waits wait]
    cases retries <;> exact once _
  unfold exchange
  rw [Step.run_bind_of_error attempted]

/-! ## Exchanges behind one that was given up -/

theorem openAnswer_clear {a : Association} {c : Channel} (clear : a.Clear) (plain : m.mode = .clear)
    (yields : Yields a m m.body responses) :
    ∃ a', (openAnswer services (some m)).run ⟨c, a⟩ = (.ok responses, ⟨c, a'⟩) := by
  obtain ⟨control, body, m', all, hcontrol, edClass, hsplit, taken⟩ := yields
  obtain ⟨auth, opened⟩ := Association.openBody_clear clear plain hcontrol edClass
  have here : (onAssociation (Association.openBody m)).run ⟨c, a⟩ =
      (.ok body, ⟨c, { a with incomingAuthentication := auth }⟩) := Step.run_within_eq.2 ⟨_, opened, rfl⟩
  have taken' : takeLeading { a with incomingAuthentication := auth } all = .ok responses := taken
  refine ⟨{ a with incomingAuthentication := auth }, ?_⟩
  unfold openAnswer
  rw [Step.run_bind_of_ok here, hsplit, Step.run_bind, Step.run_ofExcept]
  dsimp only
  rw [Step.run_get_bind, Step.run_ofExcept, taken']

/-- What comes to a wait behind an exchange that was given up: the rest of its response, and then an answer, in
time. -/
structure Resumes (w : Associated) (rest answer more : List Timed) (m : Acse.Incoming) : Prop where
  unhindered : w.channel.Unhindered
  due : w.channel.due = since w.channel.now (rest ++ (answer ++ more))
  patient : w.association.options.responseTimeout ≠ 0
  inTime : ∀ x ∈ rest ++ answer, x.1 < w.channel.now + w.association.options.responseTimeout ∧
    x.1 ≤ max w.channel.now (w.channel.limit (w.channel.now + w.association.options.responseTimeout))
  parsed : Acse.Incoming.parse (answer.map (·.2)) w.association.parameters.maxIncoming = .ok m
  verified : m.verifyResponse w.association.parameters w.association.invocationId = .ok ()

theorem Resumes.receive {rest answer more : List Timed} (h : w.Resumes rest answer more m)
    (harmless : w.association.PassesOver rest) : ∃ c, receive.run w = (.ok m, { w with channel := c }) := by
  obtain ⟨late, garbage, rfl, clean, stale⟩ := harmless
  have ahead : w.channel.now < w.channel.now + w.association.options.responseTimeout :=
    Nat.lt_add_of_pos_right (Nat.pos_of_ne_zero h.patient)
  -- as of now, each byte is still in time
  have timely {x : Timed} (hx : x ∈ since w.channel.now (late.flatMap Delivery.all ++ garbage ++ answer)) :
      x.1 < w.channel.now + w.association.options.responseTimeout ∧
        x.1 ≤ max w.channel.now (w.channel.limit (w.channel.now + w.association.options.responseTimeout)) := by
    obtain ⟨y, hy, rfl⟩ := List.mem_map.1 hx
    obtain ⟨early, within⟩ := h.inTime y hy
    exact ⟨Nat.max_lt.2 ⟨ahead, early⟩, Nat.max_le.2 ⟨Nat.le_max_left _ _, within⟩⟩
  have moved : (late.map (Delivery.since w.channel.now)).flatMap Delivery.all =
      since w.channel.now (late.flatMap Delivery.all) := Delivery.flatMap_since _ _
  let last : Delivery := Delivery.since w.channel.now ⟨garbage, answer, clean⟩
  have bytes : last.bytes = answer.map (·.2) := Delivery.bytes_since _ _
  have brings : w.Brings (late.map (Delivery.since w.channel.now)) last (since w.channel.now more) := by
    refine ⟨h.unhindered, ?_, ?_, ?_, ?_⟩
    · rw [h.due, moved, Delivery.all_since]
      simp [Delivery.all]
    · intro d hd
      obtain ⟨e, he, rfl⟩ := List.mem_map.1 hd
      rw [Delivery.bytes_since]
      exact stale e he
    · intro d hd x hx
      have mem : x ∈ since w.channel.now (late.flatMap Delivery.all) := moved ▸ List.mem_flatMap_of_mem hd hx
      refine timely ?_
      rw [since_append, since_append]
      exact List.mem_append_left _ (List.mem_append_left _ mem)
    · refine Channel.inParts_of_le (w.channel.limit_le _) fun part hpart x hx => ?_
      have mem : x ∈ since w.channel.now (garbage ++ answer) := by
        have whole := Delivery.mem_all_of_mem_parts hpart hx
        rwa [Delivery.all_since] at whole
      have within : x.1 ≤ max w.channel.now _ := (timely (by
        rw [List.append_assoc, since_append]
        exact List.mem_append_right _ mem)).2
      exact Nat.le_trans within (Nat.max_le.2 ⟨Nat.le_trans (le_latest _ _) (Nat.le_max_left _ _), Nat.le_max_right _ _⟩)
  exact receive_run brings h.patient (bytes ▸ h.parsed) h.verified

theorem Yields.congr {a b : Association} {plain : Bytes} (h : Yields a m plain responses)
    (same : b.settings = a.settings) : Yields b m plain responses := by
  unfold Yields
  rw [takeLeading_congr same]
  exact h

/-- **An exchange behind one that was given up** returns what it is answered in the clear. -/
theorem exchange_resumes {retries : Nat} {apdu : Bytes} {rest answer more : List Timed}
    (clear : s.association.Clear) (wait : Waits services s retries apdu w) (resumes : w.Resumes rest answer more m)
    (harmless : w.association.PassesOver rest) (plain : m.mode = .clear)
    (yields : Yields s.association m m.body responses) :
    ∃ u, (exchange services).run s = (.ok responses, u) := by
  obtain ⟨c, received⟩ := resumes.receive harmless
  have same : w.association.advanceId.opening = s.association.opening :=
    w.association.advanceId_opening.trans wait.opening
  obtain ⟨a, opened⟩ : ∃ a, (openAnswer services (some m)).run ⟨c, w.association.advanceId⟩ = (.ok responses, ⟨c, a⟩) :=
    openAnswer_clear (clear.congr same) plain (yields.congr (congrArg (·.settings) same))
  rw [exchange_of_receive wait received]
  exact ⟨_, opened⟩

end Associated

namespace Client

/-- An exchange under a caller's deadline. -/
def exchangeWithin (timeout : Duration) (services : List Bytes) : Step Client (List Bytes) :=
  within timeout (settle (onAssociated (Associated.exchange services)))

variable {c : Client} {a : Association} {timeout : Duration} {services responses : List Bytes}

/-- An exchange under a deadline is an exchange of its association, whose fault is settled. -/
theorem exchangeWithin_ok {u : Associated} (wire : c.wire = .apdus a)
    (run : (Associated.exchange services).run ⟨c.channel.setDeadline (some (c.channel.now + timeout)), a⟩ =
      (.ok responses, u)) :
    (exchangeWithin timeout services).run c =
      (.ok responses, { c with channel := u.channel.setDeadline none, wire := .apdus u.association }) := by
  let limited : Client := { c with channel := c.channel.setDeadline (some (c.channel.now + timeout)) }
  have carried := onAssociated_run (c := limited) (Associated.exchange services) (a := a) wire
  rw [run] at carried
  unfold exchangeWithin within setDeadline
  rw [Step.run_get_bind, Step.run_modify_bind, Step.run_outcome_bind, settle_run_ok carried]
  rfl

/-- What fails after the deadline is a timeout, and keeps the session. -/
theorem exchangeWithin_timeout {u : Associated} {j : Nat} (wire : c.wire = .apdus a)
    (run : (Associated.exchange services).run ⟨c.channel.setDeadline (some (c.channel.now + timeout)), a⟩ =
      (.error (.readTimeout j), u)) (hit : u.channel.deadlineHit = true) :
    (exchangeWithin timeout services).run c =
      (.error (.readTimeout 0), { c with channel := u.channel.setDeadline none, wire := .apdus u.association }) := by
  let limited : Client := { c with channel := c.channel.setDeadline (some (c.channel.now + timeout)) }
  have carried := onAssociated_run (c := limited) (Associated.exchange services) (a := a) wire
  rw [run] at carried
  have excused : (excuse (.readTimeout j)).run { limited with channel := u.channel, wire := .apdus u.association } =
      (.ok (.readTimeout 0), { limited with channel := u.channel, wire := .apdus u.association }) := by
    unfold excuse
    rw [Step.run_get_bind, if_pos (by simp [hit, endsChannel])]
    rfl
  have settled := settle_run_excused carried excused
  rw [if_neg (by simp [Fault.disposition])] at settled
  unfold exchangeWithin within setDeadline
  rw [Step.run_get_bind, Step.run_modify_bind, Step.run_outcome_bind, settled]
  rfl

/-- **A deadline that cuts a response leaves the session usable.** Where nothing is secured and a deadline passes
behind the first bytes of a response, the exchange reports a timeout, the session is kept and the rest of the
response is still to come. Wherever this session waits for the next answer, and that comes behind the rest, in
time, the exchange returns what the answer says, if the rest is passed over. -/
theorem exchange_after_deadline {first : List Bytes} {retries : Nat} {apdu : Bytes} {w : Associated} {r : Delivery}
    {more : List Timed} {k : Nat} (wire : c.wire = .apdus a) (clear : a.Clear)
    (wait : Associated.Waits first ⟨c.channel.setDeadline (some (c.channel.now + timeout)), a⟩ retries apdu w)
    (frame : Acse.IsFrame r.bytes) (begun : 0 < k) (inside : k < r.frame.length)
    (cut : w.channel.Cut (r.garbage ++ r.frame.take k) (r.frame.drop k ++ more) (c.channel.now + timeout))
    (bounded : w.channel.Bounded (c.channel.now + timeout))
    (past : c.channel.now + timeout < w.channel.now + a.options.responseTimeout) :
    ∃ channel, (exchangeWithin timeout first).run c =
        (.error (.readTimeout 0), { c with channel, wire := .apdus w.association }) ∧
      channel.Undisturbed ∧ channel.now = c.channel.now + timeout ∧
      channel.due = since channel.now (r.frame.drop k ++ more) ∧
      ∀ (c' : Client) (timeout' : Duration) (second : List Bytes) (retries' : Nat) (apdu' : Bytes) (w' : Associated)
          (answer more' : List Timed) (m : Acse.Incoming) (responses : List Bytes),
        c'.wire = .apdus w.association →
        Associated.Waits second ⟨c'.channel.setDeadline (some (c'.channel.now + timeout')), w.association⟩ retries' apdu'
          w' →
        w'.Resumes (r.frame.drop k) answer more' m → w'.association.PassesOver (r.frame.drop k) →
        m.mode = .clear → Associated.Yields a m m.body responses →
          ∃ channel association, (exchangeWithin timeout' second).run c' =
            (.ok responses, { c' with channel, wire := .apdus association }) := by
  have opening : w.association.opening = a.opening := wait.opening
  have settings : w.association.settings = a.settings := congrArg (·.settings) opening
  have options : w.association.options = a.options := congrArg (·.options) settings
  obtain ⟨j, channel, run, givenUp⟩ := Associated.exchange_cut wait frame begun inside cut bounded (options ▸ past)
  have size : (r.garbage ++ r.frame.take k).length = r.garbage.length + k := by
    rw [List.length_append, List.length_take_of_le (Nat.le_of_lt inside)]
  have left : channel.due = since channel.now (r.frame.drop k ++ more) := by
    rw [givenUp.due_eq, givenUp.now_eq, cut.due, drop_since, List.drop_left' size, since_since,
      Nat.max_eq_left bounded.ahead]
  refine ⟨channel.setDeadline none, exchangeWithin_timeout wire run givenUp.deadlineHit, ?_, givenUp.now_eq, left, ?_⟩
  · exact ⟨⟨givenUp.unhindered.connected, givenUp.unhindered.cancels, givenUp.unhindered.cancelled,
      givenUp.unhindered.items⟩, rfl⟩
  · intro c' timeout' second retries' apdu' w' answer more' m responses wire' wait' resumes harmless plain yields
    let limited : Associated := ⟨c'.channel.setDeadline (some (c'.channel.now + timeout')), w.association⟩
    have clear' : limited.association.Clear := clear.congr opening
    obtain ⟨u, run'⟩ := Associated.exchange_resumes clear' wait' resumes harmless plain (yields.congr settings)
    exact ⟨_, _, exchangeWithin_ok wire' run'⟩

/-- A response in the clear to the first request of a session. -/
def plainResponse (body : Bytes) : Bytes :=
  let size := UInt8.ofNat body.length
  [0x60, 0x11 + size, 0xA4, 0x03, 0x02, 0x01, 0x01, 0xA8, 0x03, 0x02, 0x01, 0x07, 0xBE, 0x05 + size, 0x28, 0x03 + size,
    0x81, 0x01 + size, 0x80] ++ body

/-- What answers a read of a table of one byte. -/
def byteRead (content : UInt8) : Bytes := plainResponse [0x05, 0x00, 0x00, 0x01, content, 0 - content]

/-- What answers the next one, in which nothing is read. -/
def nextRead : Bytes := plainResponse [0x01, 0x00]

/-- An association without keys. -/
def plainAssociation : Association where
  parameters := ⟨"", "", "", none, .clear, .always, [], 0x7FFF, 0x7FFF⟩
  options := { calledTitle := "", callingTitle := "", securityMode := .clear, responseTimeout := Duration.ofMillis 1000 }
  security := none
  invocationId := 1
  leadingSecurity := none
  linkRetries := 0
  turnaround := 0
  writeTimeout := Duration.ofMillis 6000
  entropy := fun _ => 7
  drawn := 1

/-- A session in the clear over a line where the start of a response comes at once, the rest of it half a second
later, and the next response after that. -/
def cutRead (content : UInt8) : Client where
  dialect := .c1222
  config := {}
  phase := .active
  channel :=
    { line :=
        { isClosed := false
          answers :=
            [fun _ => [(Duration.ofMillis 10, .arrival (.data ((byteRead content).take 4))),
                (Duration.ofMillis 520, .arrival (.data ((byteRead content).drop 4)))],
              fun _ => [(Duration.ofMillis 30, .arrival (.data nextRead))]] }
      connected := true }
  wire := .apdus plainAssociation

/-- What an exchange of such a session may take. -/
def halfSecond : Duration := Duration.ofMillis 500

/-- A session with that association at work under that deadline. -/
def limited (c : Client) : Associated := ⟨c.channel.setDeadline (some (c.channel.now + halfSecond)), plainAssociation⟩

/-- The services of the two reads. -/
def firstRead : List Bytes := [[0x30, 0x00, 0x01]]

def secondRead : List Bytes := [[0x30, 0x00, 0x02]]

/-- Such a session when the first read was given up. -/
def cutOff (content : UInt8) : Client := ((exchangeWithin halfSecond firstRead).run (cutRead content)).2

/-- What the next answer says. -/
def nextAnswer : Acse.Incoming where
  calledId := some 1
  callingId := some 7
  control := some ⟨.clear, .always, false⟩
  bodyHeader := [0xBE, 0x07, 0x28, 0x05, 0x81, 0x03, 0x80]
  body := [0x01, 0x00]

theorem yields_nextAnswer : Associated.Yields plainAssociation nextAnswer nextAnswer.body [[0x00]] :=
  ⟨⟨.clear, .always, false⟩, [0x01, 0x00], nextAnswer, [[0x00]], rfl, by decide +kernel, by decide +kernel,
    by decide +kernel⟩

/-- The wait of the second read, behind the rest of the first. -/
def secondWait (content : UInt8) : Associated := ((Associated.dispatch secondRead).run (limited (cutOff content))).2

/-- The rest of a response that holds no start tag is passed over. -/
theorem exchange_after_deadline_cutRead :
    ∃ c, (exchangeWithin halfSecond firstRead).run (cutRead 0x11) = (.error (.readTimeout 0), cutOff 0x11) ∧
      (cutOff 0x11).phase = .active ∧ (cutOff 0x11).channel.due.map (·.2) = (byteRead 0x11).drop 4 ∧
      (exchangeWithin halfSecond secondRead).run (cutOff 0x11) = (.ok [[0x00]], c) := by
  let w := ((Associated.dispatch firstRead).run (limited (cutRead 0x11))).2
  let r : Delivery := ⟨[], ((byteRead 0x11).take 4).map ((Duration.ofMillis 10, ·)) ++
    ((byteRead 0x11).drop 4).map ((Duration.ofMillis 520, ·)), by simp⟩
  obtain ⟨retries, apdu, wait⟩ : ∃ retries apdu, Associated.Waits firstRead (limited (cutRead 0x11)) retries apdu w :=
    Associated.waits_of_dispatch (by decide +kernel) (by decide +kernel)
  have frame : Acse.IsFrame r.bytes := ⟨0x17, [], (byteRead 0x11).drop 2, by decide +kernel, .short (by decide)⟩
  have cut : w.channel.Cut (r.garbage ++ r.frame.take 4) (r.frame.drop 4 ++ [])
      ((cutRead 0x11).channel.now + halfSecond) :=
    ⟨by decide +kernel, by decide +kernel, by decide +kernel, by decide +kernel⟩
  have bounded : w.channel.Bounded ((cutRead 0x11).channel.now + halfSecond) :=
    ⟨(Channel.unhindered_iff _).2 (by decide +kernel), by decide +kernel, by decide +kernel, by decide +kernel⟩
  have inside : 4 < r.frame.length := by decide
  have past : (cutRead 0x11).channel.now + halfSecond < w.channel.now + plainAssociation.options.responseTimeout := by
    decide +kernel
  obtain ⟨channel, first, -, -, -, next⟩ :=
    exchange_after_deadline (c := cutRead 0x11) rfl ⟨rfl, rfl⟩ wait frame (by decide) inside cut bounded past
  have kept : w.association = plainAssociation := wait.association.trans (Associated.pack_clear ⟨rfl, rfl⟩)
  rw [kept] at first next
  have left : cutOff 0x11 = { cutRead 0x11 with channel, wire := .apdus plainAssociation } := congrArg Prod.snd first
  have timeout : ((exchangeWithin halfSecond firstRead).run (cutRead 0x11)).1 = .error (.readTimeout 0) :=
    congrArg Prod.fst first
  -- the second read, on what the first one left
  obtain ⟨retries', apdu', wait'⟩ :
      ∃ retries apdu, Associated.Waits secondRead (limited (cutOff 0x11)) retries apdu (secondWait 0x11) :=
    Associated.waits_of_dispatch (by decide +kernel) (by decide +kernel)
  have resumes : (secondWait 0x11).Resumes (r.frame.drop 4) (nextRead.map ((Duration.ofMillis 530, ·))) [] nextAnswer :=
    ⟨(Channel.unhindered_iff _).2 (by decide +kernel), by decide +kernel, by decide +kernel, by decide +kernel,
      by decide +kernel, by decide +kernel⟩
  have harmless : (secondWait 0x11).association.PassesOver (r.frame.drop 4) :=
    ⟨[], r.frame.drop 4, rfl, by decide, by simp⟩
  obtain ⟨channel', association, second⟩ := next (cutOff 0x11) halfSecond secondRead retries' apdu' _ _ _ nextAnswer
    [[0x00]] (left ▸ rfl) wait' resumes harmless rfl yields_nextAnswer
  exact ⟨_, Step.run_eq_of_fst timeout, congrArg phase left, by decide +kernel, second⟩

/-- **A start tag in the rest of a response ends the session**: the byte that was read is taken for one, the byte behind
it for a length that no APDU has, and the answer behind that is lost. -/
theorem not_exchange_after_deadline :
    (exchangeWithin halfSecond firstRead).run (cutRead 0x60) = (.error (.readTimeout 0), cutOff 0x60) ∧
      (cutOff 0x60).phase = .active ∧
      ∃ rest retries apdu, rest.map (·.2) = (byteRead 0x60).drop 4 ∧
        Associated.Waits secondRead (limited (cutOff 0x60)) retries apdu (secondWait 0x60) ∧
        (secondWait 0x60).Resumes rest (nextRead.map ((Duration.ofMillis 530, ·))) [] nextAnswer ∧
        nextAnswer.mode = .clear ∧ Associated.Yields plainAssociation nextAnswer nextAnswer.body [[0x00]] ∧
        ∃ c, (exchangeWithin halfSecond secondRead).run (cutOff 0x60) = (.error (.frameInvalid (.lengthOctets 32)), c) ∧
          c.phase = .disconnected := by
  have timeout : ((exchangeWithin halfSecond firstRead).run (cutRead 0x60)).1 = .error (.readTimeout 0) := by
    decide +kernel
  obtain ⟨retries, apdu, wait⟩ :
      ∃ retries apdu, Associated.Waits secondRead (limited (cutOff 0x60)) retries apdu (secondWait 0x60) :=
    Associated.waits_of_dispatch (by decide +kernel) (by decide +kernel)
  have resumes : (secondWait 0x60).Resumes (((byteRead 0x60).drop 4).map ((Duration.ofMillis 520, ·)))
      (nextRead.map ((Duration.ofMillis 530, ·))) [] nextAnswer :=
    ⟨(Channel.unhindered_iff _).2 (by decide +kernel), by decide +kernel, by decide +kernel, by decide +kernel,
      by decide +kernel, by decide +kernel⟩
  have failed : ((exchangeWithin halfSecond secondRead).run (cutOff 0x60)).1 =
      .error (.frameInvalid (.lengthOctets 32)) := by decide +kernel
  exact ⟨Step.run_eq_of_fst timeout, by decide +kernel, _, retries, apdu, by decide +kernel, wait, resumes, rfl,
    yields_nextAnswer, _, Step.run_eq_of_fst failed, by decide +kernel⟩

end Client

end Metering
