import Mathlib.Tactic.MkIffOfInductiveProp
import Metering.Proofs.Channel

set_option autoImplicit false

/-! # When reads are in time

The bytes a channel will give are those in its ring and those still to arrive, each from some moment on
(`Channel.due`). While nothing disturbs the channel, that alone decides what reads do: a read of so many
bytes succeeds exactly if each of them comes before the deadline that is in force when it is waited for
(`Timed.InTime`), and it leaves the clock at the last of them. How the line cuts the bytes into pieces
does not matter. -/

namespace Metering

/-- A byte and the moment from which it can be had. -/
abbrev Timed := Nat × UInt8

namespace Timed

/-- What can be had no earlier than `now`. -/
def since (now : Nat) (bytes : List Timed) : List Timed := bytes.map fun x => (max now x.1, x.2)

/-- The moment at which all of it can be had, from `now` on. -/
def latest (now : Nat) (bytes : List Timed) : Nat := bytes.foldl (fun m x => max m x.1) now

/-- Each byte comes before the deadline in force; when it has come, the deadline is renewed. -/
def InTime (renew : Nat → Nat → Nat) : (deadline now : Nat) → List Timed → Prop
  | _, _, [] => True
  | deadline, now, x :: rest =>
    x.1 ≤ max now deadline ∧ InTime renew (renew deadline (max now x.1)) (max now x.1) rest

instance InTime.decidable (renew : Nat → Nat → Nat) :
    (deadline now : Nat) → (bytes : List Timed) → Decidable (InTime renew deadline now bytes)
  | _, _, [] => .isTrue trivial
  | deadline, now, x :: rest =>
    have := InTime.decidable renew (renew deadline (max now x.1)) (max now x.1) rest
    inferInstanceAs (Decidable (_ ∧ _))

variable {renew : Nat → Nat → Nat} {deadline now m n : Nat} {bytes front : List Timed}

@[simp] theorem length_since : (since now bytes).length = bytes.length := by simp [since]

@[simp] theorem since_append (front bytes : List Timed) :
    since now (front ++ bytes) = since now front ++ since now bytes := by simp [since]

theorem since_since (m n : Nat) (bytes : List Timed) : since m (since n bytes) = since (max m n) bytes := by
  simp [since, Function.comp_def, Nat.max_assoc]

theorem since_map {t : Nat} (h : t ≤ now) (bytes : Bytes) :
    since now (bytes.map ((t, ·))) = bytes.map ((now, ·)) := by
  simp [since, Nat.max_eq_left h]

theorem drop_since (k : Nat) : (since now bytes).drop k = since now (bytes.drop k) := by simp [since]

theorem take_since (k : Nat) : (since now bytes).take k = since now (bytes.take k) := by simp [since]

theorem le_latest (now : Nat) (bytes : List Timed) : now ≤ latest now bytes := by
  induction bytes generalizing now with
  | nil => exact Nat.le_refl _
  | cons x rest ih => exact Nat.le_trans (Nat.le_max_left _ _) (ih _)

theorem latest_append (now : Nat) (front bytes : List Timed) :
    latest now (front ++ bytes) = latest (latest now front) bytes := by
  simp [latest]

theorem latest_of_le (h : ∀ x ∈ bytes, x.1 ≤ now) : latest now bytes = now := by
  induction bytes with
  | nil => rfl
  | cons x rest ih =>
    have first : max now x.1 = now := Nat.max_eq_left (h x List.mem_cons_self)
    rw [latest, List.foldl_cons, first]
    exact ih fun y hy => h y (List.mem_cons_of_mem x hy)

theorem latest_since (h : n ≤ now) : latest now (since n bytes) = latest now bytes := by
  induction bytes generalizing now with
  | nil => rfl
  | cons x rest ih =>
    have first : max now (max n x.1) = max now x.1 := by omega
    simp only [since, latest, List.map_cons, List.foldl_cons, first] at ih ⊢
    exact ih (Nat.le_trans h (Nat.le_max_left _ _))

theorem le_latest_of_mem {x : Timed} (h : x ∈ bytes) : x.1 ≤ latest now bytes := by
  obtain ⟨front, rest, rfl⟩ := List.append_of_mem h
  rw [latest_append, latest, List.foldl_cons]
  exact Nat.le_trans (Nat.le_max_right _ _) (le_latest _ rest)

theorem latest_lt (hn : now < m) (h : ∀ x ∈ bytes, x.1 < m) : latest now bytes < m := by
  induction bytes generalizing now with
  | nil => exact hn
  | cons x rest ih =>
    exact ih (Nat.max_lt.2 ⟨hn, h x List.mem_cons_self⟩) fun y hy => h y (List.mem_cons_of_mem x hy)

/-- Bytes that can be had at once are in time, and change nothing. -/
theorem inTime_append (settled : renew deadline now = deadline) (h : ∀ x ∈ front, x.1 ≤ now) :
    InTime renew deadline now (front ++ bytes) ↔ InTime renew deadline now bytes := by
  induction front with
  | nil => exact Iff.rfl
  | cons x rest ih =>
    have first := h x List.mem_cons_self
    rw [List.cons_append, InTime, Nat.max_eq_left first, settled,
      ih fun y hy => h y (List.mem_cons_of_mem x hy)]
    exact and_iff_right (Nat.le_trans first (Nat.le_max_left _ _))

theorem inTime_since (h : n ≤ now) :
    InTime renew deadline now (since n bytes) ↔ InTime renew deadline now bytes := by
  induction bytes generalizing deadline now with
  | nil => exact Iff.rfl
  | cons x rest ih =>
    have first : max now (max n x.1) = max now x.1 := by omega
    have early : max n x.1 ≤ max now deadline ↔ x.1 ≤ max now deadline := by omega
    rw [since, List.map_cons, InTime, InTime, first, early]
    exact and_congr_right fun _ => ih (Nat.le_trans h (Nat.le_max_left _ _))

/-- A wait for the first byte that cannot be had at once: whether the bytes are in time is decided by
that byte, and then again when it has come. -/
theorem inTime_wait {x : Timed} (settled : renew deadline now = deadline) (h : ∀ y ∈ front, y.1 ≤ now)
    (first : now ≤ x.1) (settled' : renew (renew deadline x.1) x.1 = renew deadline x.1) :
    InTime renew deadline now (front ++ x :: bytes) ↔
      x.1 ≤ max now deadline ∧ InTime renew (renew deadline x.1) x.1 (since x.1 (front ++ x :: bytes)) := by
  have come : ∀ y ∈ front, y.1 ≤ x.1 := fun y hy => Nat.le_trans (h y hy) first
  rw [inTime_append settled h, InTime, Nat.max_eq_right first, inTime_since (Nat.le_refl _),
    inTime_append settled' come, InTime, Nat.max_self, settled']
  exact and_congr_right fun _ => (and_iff_right (Nat.le_max_left _ _)).symm

theorem latest_wait {x : Timed} (h : ∀ y ∈ front, y.1 ≤ now) (first : now ≤ x.1) :
    latest x.1 (since x.1 (front ++ x :: bytes)) = latest now (front ++ x :: bytes) := by
  have come : ∀ y ∈ front, y.1 ≤ x.1 := fun y hy => Nat.le_trans (h y hy) first
  rw [latest_since (Nat.le_refl _), latest_append, latest_append, latest_of_le come, latest_of_le h, latest,
    latest, List.foldl_cons, List.foldl_cons, Nat.max_eq_right first, Nat.max_self]

/-- With a deadline that stays, all bytes have to come before it. -/
theorem inTime_const (settled : ∀ now, renew deadline now = deadline) :
    InTime renew deadline now bytes ↔ ∀ x ∈ bytes, x.1 ≤ max now deadline := by
  induction bytes generalizing now with
  | nil => simp [InTime]
  | cons x rest ih =>
    rw [InTime, settled, ih, List.forall_mem_cons]
    refine and_congr_right fun first => forall₂_congr fun y _ => ?_
    omega

end Timed

namespace Line

/-- The data that will be heard, up to the first thing that is not data. -/
def coming : List (Moment × Arrival) → List Timed
  | (moment, .data bytes) :: rest => bytes.map (moment, ·) ++ coming rest
  | _ => []

/-- The first thing on its way that is not data. -/
def behind (arrivals : List (Moment × Arrival)) : Option (Moment × Arrival) :=
  arrivals.find? fun a => match a.2 with
    | .data _ => false
    | _ => true

variable {l : Line} {moment deadline : Moment} {item : Arrival} {rest : List (Moment × Arrival)}

theorem advanceTo_of_cancels (h : l.cancels = []) (t : Moment) : l.advanceTo t = { l with now := max l.now t } := by
  simp [advanceTo, h]

theorem await_run (hc : l.cancels = []) (hh : l.handle.cancelled = false)
    (ha : l.arrivals = (moment, item) :: rest) (deadline : Moment) (honour : Bool) :
    l.await deadline honour =
      if moment ≤ max l.now deadline then (.arrived, { l with now := max l.now moment })
      else (.elapsed, { l with now := max l.now deadline }) := by
  have next : l.nextArrival? = some moment := by simp [nextArrival?, ha]
  have cancels : (if honour then (l.cancels.filter (· ≤ earlier deadline (some moment))).min? else none) = none := by
    simp [hc]
  unfold await waitFor
  rw [next]
  dsimp only
  rw [hh, Bool.and_false, if_neg Bool.false_ne_true, cancels]
  simp only [advanceTo_of_cancels hc]
  by_cases here : moment ≤ l.now
  · rw [if_pos (decide_eq_true here), if_pos (Nat.le_trans here (Nat.le_max_left _ _)), Nat.max_eq_left here]
  rw [if_neg (by simpa using here)]
  by_cases past : deadline ≤ l.now
  · rw [if_pos past, Nat.max_eq_left past, if_neg here]
  rw [if_neg past, Nat.max_eq_right (Nat.le_of_not_le past)]
  by_cases timely : moment ≤ deadline
  · have target : earlier deadline (some moment) = moment := Nat.min_eq_right timely
    rw [target, if_pos (decide_eq_true (Nat.le_refl moment)), if_pos timely]
  · have target : earlier deadline (some moment) = deadline := Nat.min_eq_left (Nat.le_of_not_le timely)
    rw [target, if_neg (by simpa using timely), if_neg timely, Nat.max_eq_right (Nat.le_of_not_le past)]

theorem pause_run (hc : l.cancels = []) (hh : l.handle.cancelled = false) (moment : Moment) (honour : Bool) :
    l.pause moment honour = (.elapsed, { l with now := max l.now moment }) := by
  have none : (if honour then (l.cancels.filter (· ≤ earlier moment none)).min? else none) = none := by simp [hc]
  unfold pause waitFor
  dsimp only
  rw [hh, Bool.and_false, if_neg Bool.false_ne_true, if_neg Bool.false_ne_true, none]
  simp only [advanceTo_of_cancels hc]
  by_cases past : moment ≤ l.now
  · rw [if_pos past, Nat.max_eq_left past]
  · rw [if_neg past]
    rfl

/-- The line after a read took up to `most` bytes of its first item. -/
def taken (l : Line) (moment : Moment) (bytes : Bytes) (rest : List (Moment × Arrival)) (most : Nat) : Line :=
  { l with
    now := max l.now moment
    arrivals := if (bytes.drop most).isEmpty then rest else (moment, .data (bytes.drop most)) :: rest
    heard := bytes.take most :: l.heard }

theorem read_run (hc : l.cancels = []) (hh : l.handle.cancelled = false) {bytes : Bytes}
    (ha : l.arrivals = (moment, .data bytes) :: rest) (deadline : Moment) (honour : Bool) (most : Nat) :
    (read deadline honour most).run l =
      if moment ≤ max l.now deadline then (.ok (.data (bytes.take most)), l.taken moment bytes rest most)
      else (.ok .elapsed, { l with now := max l.now deadline }) := by
  unfold read
  rw [Step.run_get_bind, await_run hc hh ha]
  by_cases timely : moment ≤ max l.now deadline
  · rw [if_pos timely, if_pos timely]
    dsimp only
    rw [Step.run_set_bind, takeArrival, Step.run_get_bind]
    simp only [ha]
    rfl
  · rw [if_neg timely, if_neg timely]
    rfl

/-- A read ends at its deadline if nothing comes before. -/
theorem read_late (hc : l.cancels = []) (hh : l.handle.cancelled = false)
    (late : ∀ a ∈ l.arrivals.head?, max l.now deadline < a.1) (honour : Bool) (most : Nat) :
    (read deadline honour most).run l = (.ok .elapsed, { l with now := max l.now deadline }) := by
  have wait : l.await deadline honour = (.elapsed, { l with now := max l.now deadline }) := by
    cases ha : l.arrivals with
    | nil =>
      have silent : l.await deadline honour = l.pause deadline honour := by
        rw [await, nextArrival?, ha]
        rfl
      rw [silent, pause_run hc hh, ha]
    | cons first rest =>
      have past : max l.now deadline < first.1 := late first (by rw [ha]; rfl)
      rw [await_run hc hh ha, if_neg (Nat.not_le_of_lt past), ha]
  unfold read
  rw [Step.run_get_bind, wait]
  rfl

theorem length_coming_le (l : Line) : (coming l.arrivals).length ≤ l.waiting := by
  unfold waiting
  induction l.arrivals with
  | nil => exact Nat.le_refl _
  | cons first rest ih =>
    obtain ⟨moment, item⟩ := first
    cases item with
    | data bytes =>
      rw [coming, List.length_append, List.length_map, List.foldr_cons, Arrival.size]
      exact Nat.add_le_add_left ih _
    | ended => exact Nat.zero_le _
    | failure words => exact Nat.zero_le _

theorem coming_taken (l : Line) (moment : Moment) (bytes : Bytes) (rest : List (Moment × Arrival)) (most : Nat) :
    (bytes.take most).map ((moment, ·)) ++ coming (l.taken moment bytes rest most).arrivals =
      bytes.map ((moment, ·)) ++ coming rest := by
  unfold taken
  split
  next none =>
    have all : bytes.take most = bytes := by
      rw [← List.take_append_drop most bytes, List.isEmpty_iff.1 none, List.append_nil, List.take_take,
        Nat.min_self]
    rw [all]
  next =>
    rw [coming, ← List.append_assoc, ← List.map_append, List.take_append_drop]

@[simp] theorem behind_data {bytes : Bytes} : behind ((moment, .data bytes) :: rest) = behind rest := rfl

theorem behind_taken {bytes : Bytes} (ha : l.arrivals = (moment, .data bytes) :: rest) (most : Nat) :
    behind (l.taken moment bytes rest most).arrivals = behind l.arrivals := by
  rw [ha]
  unfold taken
  dsimp only
  split <;> simp

theorem waiting_taken {bytes : Bytes} (ha : l.arrivals = (moment, .data bytes) :: rest) (most : Nat) :
    (l.taken moment bytes rest most).waiting + (bytes.take most).length = l.waiting := by
  unfold taken waiting
  rw [ha, List.length_take]
  split
  next none =>
    have := congrArg List.length (List.isEmpty_iff.1 none)
    simp only [List.length_drop, List.length_nil] at this
    simp only [List.foldr_cons, Arrival.size]
    omega
  · simp only [List.foldr_cons, Arrival.size, List.length_drop]
    omega

end Line

namespace Channel

open Timed

/-- Nothing cuts a read short but a deadline. -/
@[mk_iff]
structure Unhindered (c : Channel) : Prop where
  connected : c.connected = true
  cancels : c.line.cancels = []
  cancelled : c.line.handle.cancelled = false
  items : ∀ a ∈ c.line.arrivals, a.2 ≠ .data []

/-- Nothing cuts a read short but its own timeout. -/
structure Undisturbed (c : Channel) : Prop extends Unhindered c where
  deadline : c.deadline = none

/-- How long a wait with a deadline goes on. -/
def limit (c : Channel) (deadline : Moment) : Moment := (c.capped deadline).1

/-- The bytes the channel will give, each with the moment from which it can be had. -/
def due (c : Channel) : List Timed :=
  since c.now (c.input.toList.map ((0, ·)) ++ Line.coming c.line.arrivals)

/-- The number of bytes still to be read, in the ring or on the line. -/
def left (c : Channel) : Nat := c.line.waiting + c.input.length

/-- Time passed, and the first `count` bytes were taken. -/
structure Later (c c' : Channel) (count : Nat) : Prop where
  unhindered : c'.Unhindered
  now_le : c.now ≤ c'.now
  due_eq : c'.due = since c'.now (c.due.drop count)
  behind_eq : Line.behind c'.line.arrivals = Line.behind c.line.arrivals
  intercharacter_eq : c'.intercharacter = c.intercharacter
  deadline_eq : c'.deadline = c.deadline
  deadlineHit_eq : c'.deadlineHit = c.deadlineHit
  window_eq : c'.window = c.window
  answers_eq : c'.line.answers = c.line.answers
  left_eq : c'.left + count = c.left

namespace Later

variable {c c' c'' : Channel} {m n : Nat}

theorem trans (h : Later c c' m) (h' : Later c' c'' n) : Later c c'' (m + n) where
  unhindered := h'.unhindered
  now_le := Nat.le_trans h.now_le h'.now_le
  due_eq := by
    rw [h'.due_eq, h.due_eq, drop_since, since_since, Nat.max_eq_left h'.now_le, List.drop_drop]
  behind_eq := h'.behind_eq.trans h.behind_eq
  intercharacter_eq := h'.intercharacter_eq.trans h.intercharacter_eq
  deadline_eq := h'.deadline_eq.trans h.deadline_eq
  deadlineHit_eq := h'.deadlineHit_eq.trans h.deadlineHit_eq
  window_eq := h'.window_eq.trans h.window_eq
  answers_eq := h'.answers_eq.trans h.answers_eq
  left_eq := by
    have := h.left_eq
    have := h'.left_eq
    omega

theorem undisturbed (h : Later c c' n) (hc : c.Undisturbed) : c'.Undisturbed :=
  ⟨h.unhindered, h.deadline_eq.trans hc.deadline⟩

theorem limit_eq (h : Later c c' n) : c'.limit = c.limit := by
  funext deadline
  rw [limit, limit, capped, capped, h.deadline_eq, h.window_eq]

end Later

theorem limit_of_undisturbed {c : Channel} (h : c.Undisturbed) (deadline : Moment) : c.limit deadline = deadline := by
  rw [limit, capped, h.deadline]

theorem limit_le (c : Channel) (deadline : Moment) : c.limit deadline ≤ deadline := by
  unfold limit capped
  cases c.deadline with
  | none => exact Nat.le_refl _
  | some most =>
    dsimp only
    split
    next lower =>
      simp only [Bool.and_eq_true, decide_eq_true_eq] at lower
      exact Nat.le_of_lt lower.1
    · exact Nat.le_refl _

theorem limit_limit (c : Channel) (deadline : Moment) : c.limit (c.limit deadline) = c.limit deadline := by
  unfold limit capped
  cases c.deadline with
  | none => rfl
  | some most =>
    dsimp only
    split
    · simp
    · rfl

theorem now_le_of_mem_due {c : Channel} {x : Timed} (h : x ∈ c.due) : c.now ≤ x.1 := by
  obtain ⟨y, -, rfl⟩ := List.mem_map.1 h
  exact Nat.le_max_left _ _

theorem due_eq (c : Channel) :
    c.due = c.input.toList.map ((c.now, ·)) ++ since c.now (Line.coming c.line.arrivals) := by
  simp [due, since, Function.comp_def]

theorem length_due_le (c : Channel) : c.due.length ≤ c.line.waiting + c.input.length := by
  rw [due_eq, List.length_append, List.length_map, Ring.length_toList, length_since, Nat.add_comm]
  exact Nat.add_le_add_right (Line.length_coming_le c.line) _

theorem due_since (c : Channel) : since c.now c.due = c.due := by
  rw [due, since_since, Nat.max_self]

theorem Later.due_of_now {c c' : Channel} {n : Nat} (h : Later c c' n) (same : c'.now = c.now) :
    c'.due = c.due.drop n := by
  rw [h.due_eq, same, ← drop_since, due_since]

theorem refl_later {c : Channel} (h : c.Unhindered) : Later c c 0 :=
  ⟨h, Nat.le_refl _, (due_since c).symm, rfl, rfl, rfl, rfl, rfl, rfl, rfl⟩

/-- Taking bytes out of the ring takes no time. -/
theorem later_discard {c : Channel} (h : c.Unhindered) {n : Nat} (enough : n ≤ c.input.length) :
    Later c { c with input := c.input.discard n } n where
  unhindered := ⟨h.connected, h.cancels, h.cancelled, h.items⟩
  now_le := Nat.le_refl _
  due_eq := by
    have ring : n ≤ (c.input.toList.map ((c.now, ·))).length := by simpa using enough
    rw [← due_since, due_eq c, List.drop_append_of_le_length ring, ← List.map_drop, due_eq, Ring.toList_discard]
    rfl
  behind_eq := rfl
  intercharacter_eq := rfl
  deadline_eq := rfl
  deadlineHit_eq := rfl
  window_eq := rfl
  answers_eq := rfl
  left_eq := by
    have ring := congrArg List.length (Ring.toList_discard c.input n)
    rw [List.length_drop, Ring.length_toList, Ring.length_toList] at ring
    show c.line.waiting + (c.input.discard n).length + n = c.line.waiting + c.input.length
    omega

/-- A sleep that the deadline of the channel does not cut short takes its time. -/
theorem sleep_run {c : Channel} (h : c.Unhindered) {d : Duration} (fits : (c.capped (c.now + d)).2 = false) :
    ∃ c', (sleep d).run c = (.ok (), c') ∧ Later c c' 0 := by
  have whole : c.capped (c.now + d) = ((c.capped (c.now + d)).1, false) := Prod.ext rfl fits
  generalize (c.capped (c.now + d)).1 = target at whole
  refine ⟨{ c with line := { c.line with now := max c.line.now target } }, ?_, ?_⟩
  · unfold sleep
    rw [Step.run_get_bind, whole]
    dsimp only
    rw [Line.pause_run h.cancels h.cancelled]
    rfl
  · refine ⟨⟨h.connected, h.cancels, h.cancelled, h.items⟩, Nat.le_max_left _ _, ?_, rfl, rfl, rfl, rfl, rfl, rfl, rfl⟩
    rw [List.drop_zero, due, due, since_since]
    exact congrArg (since · _) (Nat.max_eq_left (Nat.le_max_left _ _)).symm

theorem orDrop_ok {α : Type} {x : Step Line α} {c : Channel} {a : α} {line : Line}
    (h : x.run c.line = (.ok a, line)) : (orDrop x).run c = (.ok a, { c with line }) := by
  unfold orDrop
  rw [Step.run_outcome_bind, onLine, Step.run_within, h]
  rfl

/-- The first byte that is not in the ring yet. -/
theorem due_split {c : Channel} (h : c.Unhindered) (more : c.input.length < c.due.length) :
    ∃ moment bytes rest, c.line.arrivals = (moment, .data bytes) :: rest ∧ bytes ≠ [] ∧
      c.due = c.input.toList.map ((c.now, ·)) ++
        since c.now (bytes.map ((moment, ·)) ++ Line.coming rest) := by
  rw [due_eq c] at more ⊢
  rw [List.length_append, List.length_map, Ring.length_toList, length_since] at more
  cases ha : c.line.arrivals with
  | nil => simp [ha, Line.coming] at more
  | cons first rest =>
    obtain ⟨moment, item⟩ := first
    cases item with
    | ended => simp [ha, Line.coming] at more
    | failure words => simp [ha, Line.coming] at more
    | data bytes =>
      refine ⟨moment, bytes, rest, rfl, ?_, rfl⟩
      rintro rfl
      exact h.items (moment, .data []) (ha ▸ List.mem_cons_self) rfl

/-- The channel after what arrived was moved into its ring. -/
def filled (c : Channel) (moment : Moment) (bytes : Bytes) (rest : List (Moment × Arrival)) : Channel :=
  { c with
    line := c.line.taken moment bytes rest readChunk
    input := c.input.put (bytes.take readChunk)
    statistics := { c.statistics with received := c.statistics.received + (bytes.take readChunk).length } }

theorem later_filled {c : Channel} (h : c.Unhindered) {moment : Moment} {bytes : Bytes}
    {rest : List (Moment × Arrival)} (ha : c.line.arrivals = (moment, .data bytes) :: rest) :
    Later c (c.filled moment bytes rest) 0 where
  unhindered := by
    refine ⟨h.connected, h.cancels, h.cancelled, ?_⟩
    intro a mem
    have old {a : Moment × Arrival} (mem : a ∈ rest) : a.2 ≠ .data [] := h.items a (ha ▸ List.mem_cons_of_mem _ mem)
    simp only [filled, Line.taken] at mem
    split at mem
    · exact old mem
    next some =>
      rcases List.mem_cons.1 mem with rfl | mem
      · intro none
        simp [Arrival.data.inj none] at some
      · exact old mem
  now_le := Nat.le_max_left _ _
  due_eq := by
    have here : since (max c.now moment) ((bytes.take readChunk).map ((0, ·))) =
        since (max c.now moment) ((bytes.take readChunk).map ((moment, ·))) :=
      (since_map (Nat.zero_le _) _).trans (since_map (Nat.le_max_right c.now moment) _).symm
    have ring : (c.filled moment bytes rest).input.toList = c.input.toList ++ bytes.take readChunk :=
      Ring.toList_put _ _
    have coming : (c.filled moment bytes rest).line = c.line.taken moment bytes rest readChunk := rfl
    have moved : (c.filled moment bytes rest).now = max c.now moment := rfl
    rw [List.drop_zero, due, due, since_since, ring, coming, moved, Nat.max_eq_left (Nat.le_max_left _ _), ha,
      Line.coming, ← Line.coming_taken c.line moment bytes rest readChunk, List.map_append, List.append_assoc,
      since_append, since_append, here, ← since_append, ← since_append]
  behind_eq := Line.behind_taken ha readChunk
  intercharacter_eq := rfl
  deadline_eq := rfl
  deadlineHit_eq := rfl
  window_eq := rfl
  answers_eq := rfl
  left_eq := by
    have taken := Line.waiting_taken ha readChunk
    have put := congrArg List.length (Ring.toList_put c.input (bytes.take readChunk))
    rw [List.length_append, Ring.length_toList, Ring.length_toList] at put
    show (c.line.taken moment bytes rest readChunk).waiting + (c.input.put (bytes.take readChunk)).length + 0 =
      c.line.waiting + c.input.length
    omega

/-- What has arrived by the deadline is moved into the ring. -/
theorem fill_filled {c : Channel} (hc : c.line.cancels = []) (hh : c.line.handle.cancelled = false) {moment : Moment}
    {bytes : Bytes} {rest : List (Moment × Arrival)} (ha : c.line.arrivals = (moment, .data bytes) :: rest)
    {deadline : Moment} (timely : moment ≤ max c.line.now (c.limit deadline)) :
    (fill deadline).run c = (.ok .data, c.filled moment bytes rest) := by
  have read := Line.read_run hc hh ha (c.limit deadline) (!c.window.isActive) readChunk
  rw [if_pos timely] at read
  obtain ⟨byOperation, capped⟩ : ∃ byOperation, c.capped deadline = (c.limit deadline, byOperation) := ⟨_, rfl⟩
  unfold fill
  rw [Step.run_get_bind, capped]
  dsimp only
  rw [Step.run_bind_of_ok (orDrop_ok read)]
  rfl

theorem fill_run {c : Channel} (h : c.Unhindered) (more : c.input.length < c.due.length) (deadline : Moment) :
    ∃ x rest, c.due = c.input.toList.map ((c.now, ·)) ++ x :: rest ∧
      ((x.1 ≤ max c.now (c.limit deadline) ∧ ∃ c', (fill deadline).run c = (.ok .data, c') ∧ Later c c' 0 ∧
          c'.now = x.1 ∧ c.input.length < c'.input.length ∧ c'.line.waiting < c.line.waiting) ∨
        (max c.now (c.limit deadline) < x.1 ∧ ∃ c', (fill deadline).run c = (.ok .elapsed, c'))) := by
  obtain ⟨moment, bytes, rest, ha, some, hdue⟩ := due_split h more
  obtain ⟨b, tail, rfl⟩ := List.exists_cons_of_ne_nil some
  refine ⟨(max c.now moment, b), since c.now (tail.map ((moment, ·)) ++ Line.coming rest), hdue, ?_⟩
  by_cases timely : moment ≤ max c.line.now (c.limit deadline)
  · left
    have taken := Line.waiting_taken ha readChunk
    have some : 0 < ((b :: tail).take readChunk).length := by simp [readChunk]
    refine ⟨Nat.max_le.2 ⟨Nat.le_max_left _ _, timely⟩, c.filled moment (b :: tail) rest,
      fill_filled h.cancels h.cancelled ha timely, later_filled h ha, rfl, ?_, ?_⟩
    · have put := congrArg List.length (Ring.toList_put c.input ((b :: tail).take readChunk))
      rw [List.length_append, Ring.length_toList, Ring.length_toList] at put
      show c.input.length < (c.input.put ((b :: tail).take readChunk)).length
      omega
    · show (c.line.taken moment (b :: tail) rest readChunk).waiting < c.line.waiting
      omega
  · right
    have read := Line.read_run h.cancels h.cancelled ha (c.limit deadline) (!c.window.isActive) readChunk
    obtain ⟨byOperation, capped⟩ : ∃ byOperation, c.capped deadline = (c.limit deadline, byOperation) := ⟨_, rfl⟩
    unfold fill
    rw [Step.run_get_bind, capped]
    dsimp only
    rw [if_neg timely] at read
    rw [Step.run_bind_of_ok (orDrop_ok read)]
    refine ⟨Nat.lt_of_lt_of_le (Nat.lt_of_not_le timely) (Nat.le_max_right _ _), ?_⟩
    cases byOperation <;> exact ⟨_, rfl⟩

/-! ### Reads of so many bytes -/

/-- The deadline for the next byte after one came. -/
def Patience.renew (patience : Patience) (intercharacter : Duration) (deadline now : Moment) : Moment :=
  match patience with
  | .whole _ => deadline
  | .each _ => if intercharacter = 0 then deadline else now + intercharacter

theorem Patience.renew_renew (patience : Patience) (intercharacter : Duration) (deadline now : Moment) :
    patience.renew intercharacter (patience.renew intercharacter deadline now) now =
      patience.renew intercharacter deadline now := by
  cases patience with
  | whole _ => rfl
  | each _ =>
    unfold renew
    dsimp only
    split <;> rfl

/-- How long the wait for the next byte goes on after one came. -/
def extend (c : Channel) (patience : Patience) (deadline now : Moment) : Moment :=
  c.limit (patience.renew c.intercharacter deadline now)

/-- Waits are extended from where they are cut short. -/
theorem extend_limit (c : Channel) (patience : Patience) (deadline now : Moment) :
    c.extend patience (c.limit deadline) now = c.extend patience deadline now := by
  unfold extend
  cases patience with
  | whole _ => exact c.limit_limit deadline
  | each _ =>
    unfold Patience.renew
    dsimp only
    split
    · exact c.limit_limit deadline
    · rfl

theorem extend_extend (c : Channel) (patience : Patience) (deadline now : Moment) :
    c.extend patience (c.extend patience deadline now) now = c.extend patience deadline now :=
  calc c.extend patience (c.extend patience deadline now) now
    _ = c.extend patience (patience.renew c.intercharacter deadline now) now := c.extend_limit patience _ now
    _ = c.extend patience deadline now := congrArg c.limit (patience.renew_renew _ _ _)

theorem extend_of_undisturbed {c : Channel} (h : c.Undisturbed) (patience : Patience) :
    c.extend patience = patience.renew c.intercharacter := by
  funext deadline now
  exact limit_of_undisturbed h _

theorem fillRound_of_enough {c : Channel} {wanted : Nat} (h : wanted ≤ c.input.length) (patience : Patience)
    (deadline : Moment) : (fillRound wanted patience deadline).run c = (.ok (.inr ()), c) := by
  unfold fillRound
  rw [Step.run_get_bind, if_pos h]
  rfl

theorem fillRound_of_data {c c' : Channel} {wanted : Nat} {deadline : Moment} (h : ¬ wanted ≤ c.input.length)
    (patience : Patience) (filled : (fill deadline).run c = (.ok .data, c')) :
    (fillRound wanted patience deadline).run c =
      (.ok (.inl (patience.renew c'.intercharacter deadline c'.now)), c') := by
  unfold fillRound
  rw [Step.run_get_bind, if_neg h, Step.run_bind_of_ok filled]
  cases patience with
  | whole _ => rfl
  | each _ =>
    unfold Patience.renew
    dsimp only
    rw [Step.run_get_bind]
    split <;> rfl

theorem fillRound_of_elapsed {c c' : Channel} {wanted : Nat} {deadline : Moment} (h : ¬ wanted ≤ c.input.length)
    (patience : Patience) (elapsed : (fill deadline).run c = (.ok .elapsed, c')) :
    ∃ c'', (fillRound wanted patience deadline).run c = (.error (.readTimeout c'.input.length), c'') := by
  unfold fillRound
  rw [Step.run_get_bind, if_neg h, Step.run_bind_of_ok elapsed]
  exact ⟨_, rfl⟩

/-- What is in the ring can be had at once. -/
theorem le_now_of_mem_ring {c : Channel} {y : Timed} (h : y ∈ c.due.take c.input.length) : y.1 ≤ c.now := by
  rw [due_eq, List.take_left' (by simp)] at h
  obtain ⟨b, -, rfl⟩ := List.mem_map.1 h
  exact Nat.le_refl _

/-- A read is in time: each byte that is not in the ring yet comes before the deadline in force. -/
def Timely (c : Channel) (patience : Patience) (deadline : Moment) (part : List Timed) : Prop :=
  InTime (c.extend patience) (c.limit deadline) c.now (part.drop c.input.length)

instance (c : Channel) (patience : Patience) (deadline : Moment) (part : List Timed) :
    Decidable (c.Timely patience deadline part) :=
  inferInstanceAs (Decidable (InTime _ _ _ _))

/-- A byte in the ring does not count if it would not renew the deadline. -/
theorem timely_iff {c : Channel} {patience : Patience} {deadline : Moment} (wanted : Nat)
    (settled : patience.renew c.intercharacter deadline c.now = deadline) :
    c.Timely patience deadline (c.due.take wanted) ↔
      InTime (c.extend patience) (c.limit deadline) c.now (c.due.take wanted) := by
  have extended : c.extend patience (c.limit deadline) c.now = c.limit deadline := by
    rw [extend_limit, extend, settled]
  have ring : ∀ y ∈ (c.due.take wanted).take c.input.length, y.1 ≤ c.now := by
    intro y hy
    rw [List.take_take, Nat.min_comm, ← List.take_take] at hy
    exact le_now_of_mem_ring (List.mem_of_mem_take hy)
  have front : InTime (c.extend patience) (c.limit deadline) c.now
      ((c.due.take wanted).take c.input.length ++ (c.due.take wanted).drop c.input.length) ↔ _ :=
    inTime_append extended ring
  rw [List.take_append_drop] at front
  exact front.symm

/-- A wait for the first byte that is not in the ring: whether the read is in time is decided by that byte,
and then again when it has come. What is waited for may go on behind the bytes. -/
theorem timely_wait_append {c c1 : Channel} {patience : Patience} {deadline : Moment} {wanted : Nat} {x : Timed}
    {rest : List Timed} (behind : List Timed) (hdue : c.due = c.input.toList.map ((c.now, ·)) ++ x :: rest)
    (there : ¬ wanted ≤ c.input.length) (later : Later c c1 0) (moved : c1.now = x.1)
    (grown : c.input.length < c1.input.length) :
    c.Timely patience deadline ((c.due ++ behind).take wanted) ↔ x.1 ≤ max c.now (c.limit deadline) ∧
      c1.Timely patience (patience.renew c.intercharacter deadline x.1) ((c1.due ++ since x.1 behind).take wanted) := by
  have first : c.now ≤ x.1 := now_le_of_mem_due (hdue ▸ by simp)
  obtain ⟨k, rfl⟩ : ∃ k, wanted = c.input.length + (k + 1) := ⟨wanted - c.input.length - 1, by omega⟩
  obtain ⟨j, hj⟩ : ∃ j, c1.input.length = c.input.length + (j + 1) := ⟨c1.input.length - c.input.length - 1, by omega⟩
  have size : (c.input.toList.map ((c.now, ·))).length = c.input.length := by simp
  have extends1 : c1.extend patience = c.extend patience := by
    funext deadline now
    rw [extend, extend, later.limit_eq, later.intercharacter_eq]
  have due1 : c1.due = since x.1 c.due := by rw [later.due_eq, List.drop_zero, moved]
  have whole : c.due ++ behind = c.input.toList.map ((c.now, ·)) ++ x :: (rest ++ behind) := by
    rw [hdue, List.append_assoc, List.cons_append]
  have part : ((c.due ++ behind).take (c.input.length + (k + 1))).drop c.input.length =
      x :: (rest ++ behind).take k := by
    rw [whole, ← size, List.take_length_add_append, List.drop_left]
    rfl
  have part1 : ((c1.due ++ since x.1 behind).take (c.input.length + (k + 1))).drop c1.input.length =
      since x.1 (((rest ++ behind).take k).drop j) := by
    rw [due1, ← since_append, take_since, drop_since, hj, ← List.drop_drop, part]
    rfl
  -- what the ring has gained comes with the first byte
  have gained : ∀ y ∈ ((rest ++ behind).take k).take j, y.1 ≤ x.1 := by
    intro y hy
    have held : j ≤ rest.length := by
      have le : c1.input.length ≤ c1.due.length := by simp [due_eq c1]
      rw [due1, length_since, hdue, List.length_append, size, List.length_cons] at le
      omega
    rw [List.take_take, Nat.min_comm, ← List.take_take, List.take_append_of_le_length held] at hy
    have mem : (max x.1 y.1, y.2) ∈ c1.due.take c1.input.length := by
      rw [due1, take_since, hj, hdue, ← size, List.take_length_add_append]
      exact List.mem_map.2 ⟨y, List.mem_append_right _ (List.mem_cons_of_mem _ (List.mem_of_mem_take hy)), rfl⟩
    have := le_now_of_mem_ring mem
    rw [moved] at this
    exact Nat.le_trans (Nat.le_max_right _ _) this
  unfold Timely
  rw [part, part1, InTime, Nat.max_eq_right first, extends1, later.limit_eq, moved, inTime_since (Nat.le_refl _)]
  refine and_congr_right fun _ => ?_
  have settled : c.extend patience (c.extend patience (c.limit deadline) x.1) x.1 =
      c.extend patience (c.limit deadline) x.1 := c.extend_extend patience _ _
  have renewed : c.limit (patience.renew c.intercharacter deadline x.1) = c.extend patience (c.limit deadline) x.1 :=
    (c.extend_limit patience deadline x.1).symm
  have front : InTime (c.extend patience) (c.extend patience (c.limit deadline) x.1) x.1
      (((rest ++ behind).take k).take j ++ ((rest ++ behind).take k).drop j) ↔ _ := inTime_append settled gained
  rw [List.take_append_drop] at front
  rw [renewed, front]

theorem timely_wait {c c1 : Channel} {patience : Patience} {deadline : Moment} {wanted : Nat} {x : Timed}
    {rest : List Timed} (hdue : c.due = c.input.toList.map ((c.now, ·)) ++ x :: rest)
    (there : ¬ wanted ≤ c.input.length) (later : Later c c1 0) (moved : c1.now = x.1)
    (grown : c.input.length < c1.input.length) :
    c.Timely patience deadline (c.due.take wanted) ↔ x.1 ≤ max c.now (c.limit deadline) ∧
      c1.Timely patience (patience.renew c.intercharacter deadline x.1) (c1.due.take wanted) := by
  simpa [since] using timely_wait_append [] hdue there later moved grown

/-- Waiting for bytes succeeds exactly if it is in time, and ends at the last of them. -/
theorem fillRounds_run {c : Channel} {wanted : Nat} {patience : Patience} {deadline : Moment}
    (h : c.Unhindered) (enough : wanted ≤ c.due.length) {fuel : Nat} (left : c.line.waiting < fuel) :
    (c.Timely patience deadline (c.due.take wanted) →
      ∃ c', (Step.repeatUpTo (fillRound wanted patience) fuel deadline).run c = (.ok (), c') ∧ Later c c' 0 ∧
        wanted ≤ c'.input.length ∧ c'.now = latest c.now (c.due.take wanted)) ∧
    (¬ c.Timely patience deadline (c.due.take wanted) →
      ∃ k c', (Step.repeatUpTo (fillRound wanted patience) fuel deadline).run c =
        (.error (.readTimeout k), c')) := by
  induction fuel generalizing c deadline with
  | zero => exact absurd left (Nat.not_lt_zero _)
  | succ fuel ih =>
    unfold Step.repeatUpTo
    by_cases there : wanted ≤ c.input.length
    · -- all of it is in the ring
      have now : ∀ y ∈ c.due.take wanted, y.1 ≤ c.now := by
        intro y hy
        rw [← Nat.min_eq_left there, ← List.take_take] at hy
        exact le_now_of_mem_ring (List.mem_of_mem_take hy)
      have timely : c.Timely patience deadline (c.due.take wanted) := by
        unfold Timely
        rw [List.drop_eq_nil_of_le (Nat.le_trans (List.length_take_le _ _) there)]
        trivial
      rw [Step.run_bind_of_ok (fillRound_of_enough there _ _)]
      exact ⟨fun _ => ⟨c, rfl, refl_later h, there, (latest_of_le now).symm⟩, fun late => absurd timely late⟩
    obtain ⟨x, rest, hdue, wait⟩ := fill_run h (Nat.lt_of_lt_of_le (Nat.lt_of_not_le there) enough) deadline
    have first : c.now ≤ x.1 := now_le_of_mem_due (hdue ▸ by simp)
    have ring : ∀ y ∈ c.input.toList.map ((c.now, ·)), y.1 ≤ c.now := by
      intro y hy
      obtain ⟨b, -, rfl⟩ := List.mem_map.1 hy
      exact Nat.le_refl _
    obtain ⟨k, hk⟩ : ∃ k, wanted = (c.input.toList.map ((c.now, ·))).length + (k + 1) := by
      refine ⟨wanted - c.input.length - 1, ?_⟩
      rw [List.length_map, Ring.length_toList]
      omega
    have taken : c.due.take wanted = c.input.toList.map ((c.now, ·)) ++ x :: rest.take k := by
      rw [hdue, hk, List.take_length_add_append]
      rfl
    rcases wait with ⟨timely, c1, filled, later, moved, grown, less⟩ | ⟨late, c1, elapsed⟩
    · -- the ring has grown, and what is left to wait for is the same
      have due1 : c1.due.take wanted = since x.1 (c.due.take wanted) := by
        rw [later.due_eq, List.drop_zero, take_since, moved]
      have enough1 : wanted ≤ c1.due.length := by rwa [later.due_eq, length_since, List.drop_zero]
      obtain ⟨good, bad⟩ := @ih c1 (patience.renew c.intercharacter deadline x.1) later.unhindered enough1 (by omega)
      rw [due1, moved, taken, latest_wait ring first, ← taken, ← due1] at good
      rw [timely_wait hdue there later moved grown, and_iff_right timely,
        Step.run_bind_of_ok (fillRound_of_data there patience filled), later.intercharacter_eq, moved]
      refine ⟨fun rest => ?_, bad⟩
      obtain ⟨c', run, later', full, now⟩ := good rest
      exact ⟨c', run, later.trans later', full, now⟩
    · obtain ⟨c', round⟩ := fillRound_of_elapsed there patience elapsed
      rw [Step.run_bind_of_error round]
      refine ⟨fun timely => ?_, fun _ => ⟨_, c', rfl⟩⟩
      -- the first byte that is not in the ring is late
      unfold Timely at timely
      have part : (c.due.take wanted).drop c.input.length = x :: rest.take k := by
        rw [taken, List.drop_left' (by simp)]
      rw [part] at timely
      exact absurd timely.1 (Nat.not_le_of_lt late)

theorem fillTo_run {c : Channel} {wanted : Nat} {patience : Patience} (h : c.Unhindered)
    (enough : wanted ≤ c.due.length) :
    (c.Timely patience (patience.first c.now) (c.due.take wanted) →
      ∃ c', (fillTo wanted patience).run c = (.ok (), c') ∧ Later c c' 0 ∧ wanted ≤ c'.input.length ∧
        c'.now = latest c.now (c.due.take wanted)) ∧
    (¬ c.Timely patience (patience.first c.now) (c.due.take wanted) →
      ∃ k c', (fillTo wanted patience).run c = (.error (.readTimeout k), c')) := by
  unfold fillTo rounds
  rw [Step.run_get_bind, Step.run_get_bind]
  exact fillRounds_run h enough (Nat.lt_succ_self _)

theorem ensureConnected_run {c : Channel} (h : c.connected = true) : ensureConnected.run c = (.ok (), c) := by
  unfold ensureConnected
  rw [Step.run_get_bind, h]
  rfl

/-- **A read of so many bytes** that can be had gives them exactly if it is in time. -/
theorem readExactly_run {c : Channel} {count : Nat} {patience : Patience} (h : c.Unhindered)
    (enough : count ≤ c.due.length) :
    (c.Timely patience (patience.first c.now) (c.due.take count) →
      ∃ c', (readExactly count patience).run c = (.ok ((c.due.take count).map (·.2)), c') ∧
        Later c c' count ∧ c'.now = latest c.now (c.due.take count)) ∧
    (¬ c.Timely patience (patience.first c.now) (c.due.take count) →
      ∃ k c', (readExactly count patience).run c = (.error (.readTimeout k), c')) := by
  obtain ⟨good, bad⟩ := @fillTo_run c count patience h enough
  unfold readExactly
  rw [Step.run_bind_of_ok (ensureConnected_run h.connected), Step.run_outcome_bind]
  constructor
  · intro timely
    obtain ⟨c1, filled, later, full, now⟩ := good timely
    rw [filled]
    have taken : c1.input.toList.take count = (c.due.take count).map (·.2) := by
      have due1 : (c1.due.take count).map (·.2) = (c.due.take count).map (·.2) := by
        rw [later.due_eq, take_since, List.drop_zero]
        simp [since, Function.comp_def]
      rw [← due1, due_eq, List.take_append_of_le_length (by simpa using full), List.map_take, List.map_map]
      simp [Function.comp_def]
    refine ⟨{ c1 with input := c1.input.discard count }, ?_, ?_, now⟩
    · rw [← taken]
      exact take_run count c1
    · have both := later.trans (later_discard later.unhindered full)
      rwa [Nat.zero_add] at both
  · intro late
    obtain ⟨k, c1, failed⟩ := bad late
    rw [failed]
    exact ⟨k, _, rfl⟩

/-- The first part of what is to come is read exactly if it is in time. -/
theorem readFirst_run {c : Channel} {patience : Patience} {count : Nat} {part more : List Timed} (h : c.Unhindered)
    (due : c.due = since c.now (part ++ more)) (length : part.length = count)
    (settled : patience.renew c.intercharacter (patience.first c.now) c.now = patience.first c.now) :
    (InTime (c.extend patience) (c.limit (patience.first c.now)) c.now part →
      ∃ c', (readExactly count patience).run c = (.ok (part.map (·.2)), c') ∧ Later c c' count ∧
        c'.due = since c'.now more ∧ c'.now = latest c.now part) ∧
    (¬ InTime (c.extend patience) (c.limit (patience.first c.now)) c.now part →
      ∃ k c', (readExactly count patience).run c = (.error (.readTimeout k), c')) := by
  have enough : count ≤ c.due.length := by
    rw [due, length_since, List.length_append, length]
    exact Nat.le_add_right _ _
  have first : c.due.take count = since c.now part := by rw [due, take_since, List.take_left' length]
  have bytes : (since c.now part).map (·.2) = part.map (·.2) := by simp [since, Function.comp_def]
  obtain ⟨good, bad⟩ := @readExactly_run c count patience h enough
  rw [timely_iff count settled, first, inTime_since (Nat.le_refl _), bytes] at good
  rw [timely_iff count settled, first, inTime_since (Nat.le_refl _)] at bad
  refine ⟨fun timely => ?_, bad⟩
  obtain ⟨c', read, later, now⟩ := good timely
  refine ⟨c', read, later, ?_, now.trans (latest_since (Nat.le_refl _))⟩
  rw [later.due_eq, due, drop_since, since_since, List.drop_left' length, Nat.max_eq_left later.now_le]

/-! ### Start bytes -/

theorem startRound_run (wanted : Bytes) (deadline : Moment) (garbage : Nat) (c : Channel) :
    (startRound wanted deadline garbage).run c =
      match (c.input.discardUntil wanted).2.toList with
      | byte :: _ => (.ok (.inr byte), { c with input := (c.input.discardUntil wanted).2 })
      | [] => (do
          match ← fill deadline with
          | .elapsed => failTimeout (garbage + (c.input.discardUntil wanted).1.1)
          | .data => return .inl (garbage + (c.input.discardUntil wanted).1.1) : Step Channel (Nat ⊕ UInt8)).run
            { c with input := (c.input.discardUntil wanted).2 } := by
  have peek := (c.input.discardUntil wanted).2.peekByte?_zero
  unfold startRound
  rw [Step.run_get_bind]
  dsimp only
  rw [Step.run_set_bind, peek]
  cases hl : (c.input.discardUntil wanted).2.toList with
  | nil =>
    rw [List.getElem?_nil]
    cases (c.input.discardUntil wanted).1.2 <;> rfl
  | cons byte rest =>
    have found : (c.input.discardUntil wanted).1.2 = true := by
      have some : (c.input.discardUntil wanted).2.toList.length = rest.length + 1 := by rw [hl, List.length_cons]
      rw [Ring.discardUntil_eq] at some ⊢
      simp only [Ring.toList_discard, List.length_drop, Ring.length_toList] at some
      simp only [decide_eq_true_eq]
      omega
    rw [found]
    rfl

/-- The garbage in the ring is dropped; what is left of it starts with the wanted byte, if that is there. -/
theorem discardUntil_due {c : Channel} {wanted : Bytes} {front rest : List Timed} {x : Timed}
    (hdue : c.due = front ++ x :: rest) (garbage : ∀ y ∈ front, y.2 ∉ wanted) (found : x.2 ∈ wanted) :
    (front.length < c.input.length ∧ (c.input.discardUntil wanted).2 = c.input.discard front.length ∧
        ∃ more, (c.input.discardUntil wanted).2.toList = x.2 :: more) ∨
      (c.input.length ≤ front.length ∧ (c.input.discardUntil wanted).2 = c.input.discard c.input.length ∧
        (c.input.discardUntil wanted).2.toList = []) := by
  have ring : c.input.toList = (c.due.take c.input.length).map (·.2) := by
    rw [due_eq, List.take_left' (by simp)]
    simp [Function.comp_def]
  have unwanted : ∀ b ∈ front.map (·.2), (!wanted.contains b) = true := by
    intro b hb
    obtain ⟨y, hy, rfl⟩ := List.mem_map.1 hb
    simpa using garbage y hy
  rw [hdue] at ring
  by_cases there : front.length < c.input.length
  · left
    obtain ⟨k, hk⟩ : ∃ k, c.input.length = front.length + (k + 1) := ⟨c.input.length - front.length - 1, by omega⟩
    rw [hk, List.take_length_add_append, List.take_succ_cons, List.map_append, List.map_cons] at ring
    have dropped : (c.input.toList.takeWhile fun b => !wanted.contains b) = front.map (·.2) := by
      rw [ring, List.takeWhile_append_of_pos unwanted, List.takeWhile_cons_of_neg (by simpa using found),
        List.append_nil]
    refine ⟨there, ?_, (rest.take k).map (·.2), ?_⟩
    · rw [Ring.discardUntil_eq, dropped, List.length_map]
    · rw [Ring.toList_discardUntil, ring, List.dropWhile_append_of_pos unwanted,
        List.dropWhile_cons_of_neg (by simpa using found)]
  · right
    have le := Nat.le_of_not_lt there
    rw [List.take_append_of_le_length le] at ring
    have all : ∀ b ∈ c.input.toList, (!wanted.contains b) = true := by
      intro b hb
      rw [ring] at hb
      obtain ⟨y, hy, rfl⟩ := List.mem_map.1 hb
      exact unwanted _ (List.mem_map_of_mem (List.mem_of_mem_take hy))
    refine ⟨le, ?_, ?_⟩
    · have dropped : (c.input.toList.takeWhile fun b => !wanted.contains b) = c.input.toList := by
        rw [← List.append_nil c.input.toList, List.takeWhile_append_of_pos all, List.takeWhile_nil]
      rw [Ring.discardUntil_eq, dropped, Ring.length_toList]
    · rw [Ring.toList_discardUntil, ← List.append_nil c.input.toList, List.dropWhile_append_of_pos all,
        List.dropWhile_nil]

/-- A round that finds the wanted byte in the ring drops the garbage in front of it. -/
theorem startRound_there {c : Channel} {wanted more : Bytes} {front rest : List Timed} {x : Timed} (h : c.Unhindered)
    (hdue : c.due = front ++ x :: rest) (there : front.length < c.input.length)
    (discarded : (c.input.discardUntil wanted).2 = c.input.discard front.length)
    (first : (c.input.discardUntil wanted).2.toList = x.2 :: more) (deadline : Moment) (passed : Nat) :
    (∀ y ∈ front ++ [x], y.1 ≤ c.now) ∧ ∃ c', (startRound wanted deadline passed).run c = (.ok (.inr x.2), c') ∧
      Later c c' front.length ∧ 0 < c'.input.length ∧ c'.now = c.now := by
  have round := startRound_run wanted deadline passed c
  rw [first, discarded] at round
  constructor
  · intro y hy
    apply le_now_of_mem_ring
    obtain ⟨k, hk⟩ : ∃ k, c.input.length = (front ++ [x]).length + k :=
      ⟨c.input.length - (front ++ [x]).length, by simp; omega⟩
    have joined : c.due = front ++ [x] ++ rest := by rw [hdue, List.append_assoc, List.singleton_append]
    rw [joined, hk, List.take_length_add_append]
    exact List.mem_append_left _ hy
  · refine ⟨_, round, later_discard h (Nat.le_of_lt there), ?_, rfl⟩
    show 0 < (c.input.discard front.length).length
    rw [← discarded, ← Ring.length_toList, first]
    exact Nat.succ_pos _

/-- A round that finds only garbage in the ring drops it and waits for what comes next. -/
theorem startRound_gone {c : Channel} {wanted : Bytes} {front rest : List Timed} {x : Timed} (h : c.Unhindered)
    (hdue : c.due = front ++ x :: rest) (le : c.input.length ≤ front.length)
    (discarded : (c.input.discardUntil wanted).2 = c.input.discard c.input.length)
    (none : (c.input.discardUntil wanted).2.toList = []) (deadline : Moment) (passed : Nat) :
    (∀ z ∈ front.take c.input.length, z.1 ≤ c.now) ∧ ∃ y tail, front.drop c.input.length ++ [x] = y :: tail ∧
      c.now ≤ y.1 ∧
      ((y.1 ≤ max c.now (c.limit deadline) ∧ ∃ k c', (startRound wanted deadline passed).run c = (.ok (.inl k), c') ∧
          Later c c' c.input.length ∧ c'.now = y.1 ∧ c'.line.waiting < c.line.waiting) ∨
        (max c.now (c.limit deadline) < y.1 ∧ ∃ k c',
          (startRound wanted deadline passed).run c = (.error (.readTimeout k), c'))) := by
  have round := startRound_run wanted deadline passed c
  have dropped := later_discard h (Nat.le_refl c.input.length)
  rw [none, discarded] at round
  dsimp only at round
  generalize hc0 : ({ c with input := c.input.discard c.input.length } : Channel) = c0 at dropped round
  have now0 : c0.now = c.now := by rw [← hc0]; rfl
  have empty : c0.input.toList = [] := by rw [← hc0, ← none, discarded]
  have waiting0 : c0.line.waiting = c.line.waiting := by rw [← hc0]
  have due0 : c0.due = front.drop c.input.length ++ x :: rest := by
    rw [dropped.due_of_now now0, hdue, List.drop_append_of_le_length le]
  have more : c0.input.length < c0.due.length := by
    rw [← Ring.length_toList, empty, due0, List.length_append, List.length_cons]
    exact Nat.lt_of_lt_of_le (Nat.succ_pos _) (Nat.le_add_left _ _)
  obtain ⟨y, rest', hy, wait⟩ := fill_run dropped.unhindered more deadline
  rw [empty, List.map_nil, List.nil_append] at hy
  have next : ∃ tail, front.drop c.input.length ++ [x] = y :: tail := by
    rw [due0] at hy
    cases hd : front.drop c.input.length with
    | nil =>
      rw [hd, List.nil_append, List.cons.injEq] at hy
      exact ⟨[], by rw [hy.1, List.nil_append]⟩
    | cons z zs =>
      rw [hd, List.cons_append, List.cons.injEq] at hy
      exact ⟨zs ++ [x], by rw [hy.1, List.cons_append]⟩
  obtain ⟨tail, next⟩ := next
  constructor
  · intro z hz
    apply le_now_of_mem_ring
    rwa [hdue, List.take_append_of_le_length le]
  refine ⟨y, tail, next, now0 ▸ now_le_of_mem_due (hy ▸ List.mem_cons_self), ?_⟩
  rw [now0, dropped.limit_eq] at wait
  rcases wait with ⟨timely, c1, filled, later, moved, -, less⟩ | ⟨late, c1, elapsed⟩
  · refine .inl ⟨timely, passed + (c.input.discardUntil wanted).1.1, c1, ?_, dropped.trans later, moved, waiting0 ▸ less⟩
    rw [round, Step.run_bind_of_ok filled]
    rfl
  · refine .inr ⟨late, passed + (c.input.discardUntil wanted).1.1, ?_⟩
    rw [round, Step.run_bind_of_ok elapsed]
    exact ⟨_, rfl⟩

/-- Looking for a wanted byte succeeds exactly if it and the garbage in front of it come before the
deadline. -/
theorem startRounds_run {c : Channel} {wanted : Bytes} {front rest : List Timed} {x : Timed}
    (h : c.Unhindered) (hdue : c.due = front ++ x :: rest) (garbage : ∀ y ∈ front, y.2 ∉ wanted)
    (found : x.2 ∈ wanted) {fuel : Nat} (left : c.line.waiting < fuel) (deadline : Moment) (passed : Nat) :
    (InTime (fun d _ => d) (c.limit deadline) c.now (front ++ [x]) →
      ∃ c', (Step.repeatUpTo (startRound wanted deadline) fuel passed).run c = (.ok x.2, c') ∧
        Later c c' front.length ∧ 0 < c'.input.length ∧ c'.now = latest c.now (front ++ [x])) ∧
    (¬ InTime (fun d _ => d) (c.limit deadline) c.now (front ++ [x]) →
      ∃ k c', (Step.repeatUpTo (startRound wanted deadline) fuel passed).run c = (.error (.readTimeout k), c')) := by
  induction fuel generalizing c front x rest passed with
  | zero => exact absurd left (Nat.not_lt_zero _)
  | succ fuel ih =>
    unfold Step.repeatUpTo
    rcases discardUntil_due hdue garbage found with ⟨there, discarded, more, first⟩ | ⟨le, discarded, none⟩
    · -- the byte is in the ring
      obtain ⟨now, c', round, later, some, same⟩ := startRound_there h hdue there discarded first deadline passed
      have timely : InTime (fun d _ => d) (c.limit deadline) c.now (front ++ [x] ++ []) := (inTime_append rfl now).2 trivial
      rw [List.append_nil] at timely
      rw [Step.run_bind_of_ok round]
      exact ⟨fun _ => ⟨c', rfl, later, some, same.trans (latest_of_le now).symm⟩, fun late => absurd timely late⟩
    · -- the ring held garbage only
      obtain ⟨ringed, y, tail, next, first, wait⟩ := startRound_gone h hdue le discarded none deadline passed
      have whole : front ++ [x] = front.take c.input.length ++ y :: tail := by
        rw [← next, ← List.append_assoc, List.take_append_drop]
      have come : ∀ z ∈ since y.1 (front.take c.input.length), z.1 ≤ y.1 := by
        intro z hz
        obtain ⟨w, hw, rfl⟩ := List.mem_map.1 hz
        exact Nat.max_le.2 ⟨Nat.le_refl _, Nat.le_trans (ringed w hw) first⟩
      rw [whole, inTime_wait rfl ringed first rfl, ← latest_wait ringed first, since_append, inTime_append rfl come,
        latest_append, latest_of_le come, ← next, since_append]
      rcases wait with ⟨timely, k, c1, round, later, moved, less⟩ | ⟨late, k, c', round⟩
      · -- what arrived may be garbage again
        have due1 : c1.due = since y.1 (front.drop c.input.length) ++ (max y.1 x.1, x.2) :: since y.1 rest := by
          rw [later.due_eq, moved, hdue, List.drop_append_of_le_length le, since_append]
          rfl
        have garbage1 : ∀ z ∈ since y.1 (front.drop c.input.length), z.2 ∉ wanted := by
          intro z hz
          obtain ⟨w, hw, rfl⟩ := List.mem_map.1 hz
          exact garbage w (List.mem_of_mem_drop hw)
        obtain ⟨good, bad⟩ := ih later.unhindered due1 garbage1 found (by omega) k
        rw [moved, later.limit_eq] at good bad
        rw [Step.run_bind_of_ok round, and_iff_right timely]
        refine ⟨fun rest => ?_, bad⟩
        obtain ⟨c', run, later', some, now⟩ := good rest
        have total : c.input.length + (since y.1 (front.drop c.input.length)).length = front.length := by
          rw [length_since, List.length_drop]
          omega
        exact ⟨c', run, total ▸ later.trans later', some, now⟩
      · rw [Step.run_bind_of_error round]
        exact ⟨fun timely => absurd timely.1 (Nat.not_le_of_lt late), fun _ => ⟨k, c', rfl⟩⟩

/-- **A read of a start byte** passes over the garbage in front of it, if it comes in time. -/
theorem readStart_run {c : Channel} {wanted : Bytes} {front more : List Timed} {x : Timed} {timeout : Duration}
    (h : c.Unhindered) (due : c.due = since c.now (front ++ x :: more)) (garbage : ∀ y ∈ front, y.2 ∉ wanted)
    (found : x.2 ∈ wanted) :
    ((∀ y ∈ front ++ [x], y.1 ≤ max c.now (c.limit (c.now + timeout))) →
      ∃ c', (readStart wanted timeout).run c = (.ok x.2, c') ∧ Later c c' (front.length + 1) ∧
        c'.due = since c'.now more ∧ c'.now = latest c.now (front ++ [x])) ∧
    (¬ (∀ y ∈ front ++ [x], y.1 ≤ max c.now (c.limit (c.now + timeout))) →
      ∃ k c', (readStart wanted timeout).run c = (.error (.readTimeout k), c')) := by
  have hdue : c.due = since c.now front ++ (max c.now x.1, x.2) :: since c.now more := by
    rw [due, since_append]
    rfl
  have garbage' : ∀ y ∈ since c.now front, y.2 ∉ wanted := by
    intro y hy
    obtain ⟨z, hz, rfl⟩ := List.mem_map.1 hy
    exact garbage z hz
  have whole : since c.now front ++ [(max c.now x.1, x.2)] = since c.now (front ++ [x]) := by
    rw [since_append]
    rfl
  obtain ⟨good, bad⟩ := startRounds_run h hdue garbage' found (Nat.lt_succ_self _) (c.now + timeout) 0
  rw [whole, inTime_since (Nat.le_refl _), inTime_const fun _ => rfl, length_since, latest_since (Nat.le_refl _)] at good
  rw [whole, inTime_since (Nat.le_refl _), inTime_const fun _ => rfl] at bad
  have wait : (waitStart wanted timeout).run c =
      (Step.repeatUpTo (startRound wanted (c.now + timeout)) (c.line.waiting + 1) 0).run c := by
    unfold waitStart rounds
    rw [Step.run_bind_of_ok (ensureConnected_run h.connected), Step.run_get_bind, Step.run_get_bind]
  unfold readStart
  constructor
  · intro timely
    obtain ⟨c1, run, later, some, now⟩ := good timely
    have taken := later.trans (later_discard later.unhindered some)
    rw [Step.run_bind_of_ok (wait.trans run)]
    refine ⟨{ c1 with input := c1.input.discard 1 }, rfl, taken, ?_, now⟩
    have size : (front ++ [x]).length = front.length + 1 := List.length_append
    rw [taken.due_eq, due, drop_since, since_since, Nat.max_eq_left taken.now_le, List.append_cons,
      List.drop_left' size]
  · intro late
    obtain ⟨k, c1, run⟩ := bad late
    rw [Step.run_bind_of_error (wait.trans run)]
    exact ⟨k, c1, rfl⟩

end Channel

end Metering
