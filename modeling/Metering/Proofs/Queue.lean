import Metering.Proofs.Feed

set_option autoImplicit false

/-! # A channel is a queue of bytes

Whoever reads from a channel sees a plain queue (`Queue`): the bytes that wait in the ring followed by those
that are still to arrive. What a call gives is decided by the queue alone (`Queue.answer`), as long as the bytes
it needs come before its timeouts (`Channel.InTimeFor`). So neither the pieces in which bytes arrive nor the ring
show (`Channel.answers_eq`). A call that needs more than there is fails, and how it fails says what follows the
last byte: the far end has closed by then, or there is silence.

Such a call takes in all that comes and then waits for what follows it. Up to there the rounds of the wait are
those of a wait for the bytes; the last round meets the end or the deadline (`Channel.fill_end`). -/

namespace Metering

open Timed

/-! ## The queue -/

/-- What a caller asks of a channel. -/
inductive Channel.Call where
  | readExact (count : Nat) (timeout : Duration)
  | readExactUntil (count : Nat) (deadline : Moment)
  | peekExact (count : Nat) (timeout : Duration)
  | unread (bytes : Bytes)
  | waitStart (wanted : Bytes) (timeout : Duration)
  | readStart (wanted : Bytes) (timeout : Duration)
  /-- The caller does something else for a while. -/
  | idle (d : Duration)
  deriving DecidableEq

/-- Bytes in the order in which they are read, and whether the far end is known to be there. -/
structure Queue where
  bytes : Bytes
  connected : Bool
  deriving DecidableEq

namespace Queue

/-- How a call ends that needs more bytes than there are, when `left` of them stay: the far end has closed, or
there is silence. -/
def runOut (q : Queue) (closed : Bool) (left : Bytes) : Except Fault Bytes × Queue :=
  (.error (if closed then .disconnected else .readTimeout q.bytes.length), ⟨left, !closed⟩)

/-- Takes `count` bytes; what was there before a timeout is dropped. -/
def read (q : Queue) (closed : Bool) (count : Nat) : Except Fault Bytes × Queue :=
  if count ≤ q.bytes.length then (.ok (q.bytes.take count), { q with bytes := q.bytes.drop count })
  else q.runOut closed (if closed then q.bytes else [])

/-- Looks at `count` bytes. -/
def peek (q : Queue) (closed : Bool) (count : Nat) : Except Fault Bytes × Queue :=
  if count ≤ q.bytes.length then (.ok (q.bytes.take count), q) else q.runOut closed q.bytes

/-- Drops bytes up to the first wanted one, and that one too if it is to be taken. -/
def start (q : Queue) (closed : Bool) (wanted : Bytes) (taken : Bool) : Except Fault Bytes × Queue :=
  match q.bytes.dropWhile fun b => !wanted.contains b with
  | byte :: rest => (.ok [byte], { q with bytes := if taken then rest else byte :: rest })
  | [] => q.runOut closed []

/-- What a call gives, and the queue it leaves. Whether the far end has closed matters to a call that needs more
bytes than there are. -/
def answer (q : Queue) (closed : Bool) : Channel.Call → Except Fault Bytes × Queue
  | .unread bytes => (.ok [], { q with bytes := bytes ++ q.bytes })
  | .idle _ => (.ok [], q)
  | call =>
    if !q.connected then (.error (.connection (.notOpen "Channel")), q)
    else match call with
      | .readExact count _ | .readExactUntil count _ => q.read closed count
      | .peekExact count _ => q.peek closed count
      | .waitStart wanted _ => q.start closed wanted false
      | .readStart wanted _ => q.start closed wanted true
      | .unread _ | .idle _ => (.ok [], q)

/-- What calls give, one after the other, each with whether the far end has closed. -/
def answers : Queue → List (Channel.Call × Bool) → List (Except Fault Bytes) × Queue
  | q, [] => ([], q)
  | q, (call, closed) :: rest =>
    let (results, left) := (q.answer closed call).2.answers rest
    ((q.answer closed call).1 :: results, left)

end Queue

/-! ## What follows the data on a line -/

namespace Line

variable {l : Line} {arrivals rest : List (Moment × Arrival)} {moment : Moment} {bytes : Bytes}

/-- Without data on its way, what is behind them comes first. -/
theorem head?_of_coming (items : ∀ a ∈ arrivals, a.2 ≠ .data []) (none : coming arrivals = []) :
    arrivals.head? = behind arrivals := by
  cases arrivals with
  | nil => rfl
  | cons first rest =>
    obtain ⟨moment, item⟩ := first
    cases item with
    | data bytes =>
      have nothing : bytes = [] := by simpa [coming] using (List.append_eq_nil_iff.1 none).1
      exact absurd (congrArg Arrival.data nothing) (items _ List.mem_cons_self)
    | ended => rfl
    | failure words => rfl

/-- A read when no data come any more ends with the end of the line or with its deadline. -/
theorem read_end (hc : l.cancels = []) (hh : l.handle.cancelled = false)
    (items : ∀ a ∈ l.arrivals, a.2 ≠ .data []) (none : coming l.arrivals = [])
    (ends : ∀ a ∈ behind l.arrivals, a.2 = .ended) (deadline : Moment) (honour : Bool) (most : Nat) :
    ∃ now isClosed, (read deadline honour most).run l =
      (.ok (if ∃ a ∈ behind l.arrivals, a.1 ≤ max l.now deadline then .ended else .elapsed),
        { l with now, isClosed }) := by
  have first := head?_of_coming items none
  by_cases closed : ∃ a ∈ behind l.arrivals, a.1 ≤ max l.now deadline
  · obtain ⟨a, ha, timely⟩ := closed
    have ended : a.2 = .ended := ends a ha
    obtain ⟨moment, item⟩ := a
    obtain ⟨rest, arrivals⟩ : ∃ rest, l.arrivals = (moment, .ended) :: rest := by
      rw [Option.mem_def.1 ha, show item = .ended from ended] at first
      exact List.head?_eq_some_iff.1 first
    rw [if_pos ⟨_, ha, timely⟩]
    unfold read
    rw [Step.run_get_bind, await_run hc hh arrivals, if_pos timely]
    dsimp only
    rw [Step.run_set_bind, takeArrival, Step.run_get_bind]
    simp only [arrivals]
    exact ⟨_, _, rfl⟩
  · have late : ∀ a ∈ l.arrivals.head?, max l.now deadline < a.1 := by
      rw [first]
      intro a ha
      exact Nat.lt_of_not_le fun timely => closed ⟨a, ha, timely⟩
    rw [if_neg closed]
    exact ⟨_, l.isClosed, read_late hc hh late honour most⟩

/-- A stream of bytes in pieces, each with the moment at which it arrives, and when the far end closes behind it. -/
def cut (pieces : List (Moment × Bytes)) (closing : Option Moment) : List (Moment × Arrival) :=
  pieces.map (fun p => (p.1, .data p.2)) ++ closing.toList.map (·, .ended)

variable {pieces : List (Moment × Bytes)} {closing : Option Moment}

theorem coming_cut : (coming (cut pieces closing)).map (·.2) = pieces.flatMap (·.2) := by
  unfold cut
  induction pieces with
  | nil => cases closing <;> rfl
  | cons p rest ih => simp [coming, ih, Function.comp_def]

theorem behind_cut : behind (cut pieces closing) = closing.map (·, .ended) := by
  unfold cut
  induction pieces with
  | nil => cases closing <;> rfl
  | cons p rest ih => exact ih

theorem items_cut (some : ∀ p ∈ pieces, p.2 ≠ []) : ∀ a ∈ cut pieces closing, a.2 ≠ .data [] := by
  intro a ha none
  rcases List.mem_append.1 ha with data | ended
  · obtain ⟨p, hp, rfl⟩ := List.mem_map.1 data
    exact some p hp (Arrival.data.inj none)
  · obtain ⟨moment, -, rfl⟩ := List.mem_map.1 ended
    cases none

end Line

namespace Channel

/-! ## Channels and queues -/

/-- When the first thing comes that is not data. -/
def ending (c : Channel) : List Timed := since c.now ((Line.behind c.line.arrivals).toList.map fun a => (a.1, 0))

/-- What will come over the channel is what is in the queue; behind it nothing comes but perhaps the end. -/
structure Mirrors (c : Channel) (closing : Option Moment) (q : Queue) : Prop where
  connected : c.connected = q.connected
  cancels : c.line.cancels = []
  cancelled : c.line.handle.cancelled = false
  items : ∀ a ∈ c.line.arrivals, a.2 ≠ .data []
  ends : Line.behind c.line.arrivals = closing.map (·, .ended)
  bytes : c.due.map (·.2) = q.bytes

/-- All of it is in the ring. -/
structure Drained (c : Channel) (closing : Option Moment) (q : Queue) : Prop extends Mirrors c closing q where
  ring : c.input.toList = q.bytes

variable {c c' : Channel} {closing : Option Moment} {q : Queue} {wanted : Bytes} {deadline : Moment}

theorem bytes_due (c : Channel) : c.due.map (·.2) = c.input.toList ++ (Line.coming c.line.arrivals).map (·.2) := by
  simp [due, since, Function.comp_def]

theorem Mirrors.unhindered (h : c.Mirrors closing q) (open_ : q.connected = true) : c.Unhindered :=
  ⟨h.connected.trans open_, h.cancels, h.cancelled, h.items⟩

theorem Mirrors.length (h : c.Mirrors closing q) : c.due.length = q.bytes.length := by
  rw [← h.bytes, List.length_map]

theorem Mirrors.ended (h : c.Mirrors closing q) : ∀ a ∈ Line.behind c.line.arrivals, a.2 = .ended := by
  intro a ha
  rw [h.ends] at ha
  obtain ⟨moment, -, rfl⟩ := Option.map_eq_some_iff.1 ha
  rfl

theorem Mirrors.input_le (h : c.Mirrors closing q) : c.input.length ≤ q.bytes.length := by
  rw [← h.bytes, bytes_due, List.length_append, Ring.length_toList]
  exact Nat.le_add_right _ _

theorem Drained.coming (h : c.Drained closing q) : Line.coming c.line.arrivals = [] := by
  have whole := (bytes_due c).symm.trans (h.bytes.trans h.ring.symm)
  simpa using whole

theorem Mirrors.drained (h : c.Mirrors closing q) (all : c.due.length ≤ c.input.length) : c.Drained closing q where
  toMirrors := h
  ring := by
    have front := bytes_due c
    have none : (Line.coming c.line.arrivals).map (·.2) = [] := by
      have size := congrArg List.length front
      rw [List.length_append, List.length_map, Ring.length_toList] at size
      exact List.eq_nil_of_length_eq_zero (by omega)
    rw [none, List.append_nil] at front
    exact front.symm.trans h.bytes

/-- The channel gave up some bytes at the front, and time passed. -/
theorem Mirrors.later {n : Nat} (h : c.Mirrors closing q) (open_ : q.connected = true) (later : Later c c' n) :
    c'.Mirrors closing { q with bytes := q.bytes.drop n } where
  connected := later.unhindered.connected.trans open_.symm
  cancels := later.unhindered.cancels
  cancelled := later.unhindered.cancelled
  items := later.unhindered.items
  ends := later.behind_eq ▸ h.ends
  bytes := by
    rw [later.due_eq, ← h.bytes]
    simp [since, Function.comp_def]

/-! ## The last round -/

/-- The end comes while a wait goes on. -/
def endsBy (c : Channel) (deadline : Moment) : Bool :=
  decide (∃ x ∈ c.ending, x.1 ≤ max c.now (c.limit deadline))

theorem fill_end (h : c.Drained closing q) (open_ : q.connected = true) (deadline : Moment) :
    ∃ c', (fill deadline).run c = (if c.endsBy deadline then .error .disconnected else .ok .elapsed, c') ∧
      c'.Drained closing { q with connected := !c.endsBy deadline } := by
  have silent {now : Moment} {isClosed hit : Bool} : Drained
      { c with line := { c.line with now, isClosed }, deadlineHit := hit } closing { q with connected := !false } :=
    ⟨⟨h.connected.trans open_, h.cancels, h.cancelled, h.items, h.ends, by rw [← h.bytes, bytes_due, bytes_due]⟩,
      h.ring⟩
  have lost {now : Moment} {isClosed : Bool} : Drained
      { c with line := { c.line with now, isClosed }, connected := false } closing { q with connected := !true } :=
    ⟨⟨rfl, h.cancels, h.cancelled, h.items, h.ends, by rw [← h.bytes, bytes_due, bytes_due]⟩, h.ring⟩
  obtain ⟨byOperation, capped⟩ : ∃ byOperation, c.capped deadline = (c.limit deadline, byOperation) := ⟨_, rfl⟩
  obtain ⟨now, isClosed, read⟩ :=
    Line.read_end h.cancels h.cancelled h.items h.coming h.ended (c.limit deadline) (!c.window.isActive) readChunk
  have same : c.endsBy deadline =
      decide (∃ a ∈ Line.behind c.line.arrivals, a.1 ≤ max c.line.now (c.limit deadline)) := by
    unfold endsBy ending
    refine decide_eq_decide.2 ?_
    cases Line.behind c.line.arrivals with
    | none => simp [since]
    | some a =>
      have sooner : max c.line.now a.1 ≤ max c.line.now (c.limit deadline) ↔ a.1 ≤ max c.line.now (c.limit deadline) :=
        ⟨fun le => (Nat.max_le.1 le).2, fun le => Nat.max_le.2 ⟨Nat.le_max_left _ _, le⟩⟩
      simpa [since, Channel.now] using sooner
  unfold fill
  rw [Step.run_get_bind, capped]
  dsimp only
  rw [Step.run_bind_of_ok (orDrop_ok read), same]
  by_cases closed : ∃ a ∈ Line.behind c.line.arrivals, a.1 ≤ max c.line.now (c.limit deadline)
  · rw [if_pos closed, decide_eq_true closed]
    exact ⟨_, rfl, lost⟩
  · rw [if_neg closed, decide_eq_false closed]
    cases byOperation
    · exact ⟨_, rfl, silent⟩
    · exact ⟨_, rfl, silent⟩

theorem Later.ending_eq {n : Nat} (h : Later c c' n) : c'.ending = since c'.now c.ending := by
  rw [ending, ending, h.behind_eq, since_since, Nat.max_eq_left h.now_le]

/-- What was to come before the deadline still does when time has passed. -/
theorem Later.timely {n : Nat} {moment : Moment} (h : Later c c' n) (early : moment ≤ max c.now (c.limit deadline)) :
    max c'.now moment ≤ max c'.now (c'.limit deadline) := by
  have le : max c.now (c.limit deadline) ≤ max c'.now (c.limit deadline) :=
    Nat.max_le.2 ⟨Nat.le_trans h.now_le (Nat.le_max_left _ _), Nat.le_max_right _ _⟩
  rw [h.limit_eq]
  exact Nat.max_le.2 ⟨Nat.le_max_left _ _, Nat.le_trans early le⟩

/-! ## Waits for more bytes than there are -/

/-- The end comes while a wait for the byte behind the last one goes on. -/
def closesBy (c : Channel) (patience : Patience) (deadline : Moment) : Bool :=
  decide (∃ x ∈ c.ending, c.Timely patience deadline (c.due ++ [x]))

/-- A far end that stays is never taken for one that closes. -/
theorem Mirrors.closesBy_eq_false (h : c.Mirrors none q) (patience : Patience) (deadline : Moment) :
    c.closesBy patience deadline = false := by
  unfold closesBy ending
  simp [h.ends, since]

/-- Once all bytes are in the ring, the wait for what follows them is the last. -/
theorem Drained.closesBy_eq (h : c.Drained closing q) (patience : Patience) (deadline : Moment) :
    c.closesBy patience deadline = c.endsBy deadline := by
  have whole : (c.due ++ ([] : List Timed)).length = c.input.length := by
    rw [List.append_nil, h.length, ← h.ring, Ring.length_toList]
  unfold closesBy endsBy Timely
  congr 1
  refine propext (exists_congr fun x => and_congr_right fun _ => ?_)
  rw [← whole, List.append_nil, List.drop_left]
  simp [InTime]

theorem fillRounds_short {count : Nat} {patience : Patience} (h : c.Mirrors closing q) (open_ : q.connected = true)
    (few : q.bytes.length < count) (timely : c.Timely patience deadline c.due) {fuel : Nat}
    (left : c.line.waiting < fuel) :
    ∃ c', (Step.repeatUpTo (fillRound count patience) fuel deadline).run c =
        (.error (if c.closesBy patience deadline then .disconnected else .readTimeout q.bytes.length), c') ∧
      c'.Drained closing { q with connected := !c.closesBy patience deadline } := by
  induction fuel generalizing c deadline with
  | zero => exact absurd left (Nat.not_lt_zero _)
  | succ fuel ih =>
    have size := h.length
    unfold Step.repeatUpTo
    by_cases more : c.input.length < c.due.length
    · -- a byte is still on the line, and comes in time
      have there : ¬ count ≤ c.input.length := by omega
      obtain ⟨x, rest, hdue, wait⟩ := fill_run (h.unhindered open_) more deadline
      have all : (c.due ++ []).take count = c.due := by
        rw [List.append_nil, List.take_of_length_le (by omega)]
      rcases wait with ⟨early, c1, filled, later, moved, grown, less⟩ | ⟨late, -⟩
      · have due1 : c1.due = since x.1 c.due := by rw [later.due_eq, List.drop_zero, moved]
        have size1 : c1.due.length = c.due.length := by rw [due1, length_since]
        have waits (more : List Timed) (short : more.length ≤ 1) :
            c.Timely patience deadline (c.due ++ more) ↔
              c1.Timely patience (patience.renew c.intercharacter deadline x.1) (c1.due ++ since x.1 more) := by
          have wait : c.Timely patience deadline ((c.due ++ more).take count) ↔ _ :=
            timely_wait_append more hdue there later moved grown
          rw [List.take_of_length_le (by rw [List.length_append]; omega),
            List.take_of_length_le (by rw [List.length_append, length_since]; omega), and_iff_right early] at wait
          exact wait
        have closes : c1.closesBy patience (patience.renew c.intercharacter deadline x.1) = c.closesBy patience deadline := by
          have ending1 : c1.ending = since x.1 c.ending := by rw [later.ending_eq, moved]
          unfold closesBy
          rw [ending1]
          congr 1
          refine propext ⟨?_, ?_⟩
          · rintro ⟨e, he, comes⟩
            obtain ⟨e0, he0, rfl⟩ := List.mem_map.1 he
            exact ⟨e0, he0, (waits [e0] (Nat.le_refl _)).2 comes⟩
          · rintro ⟨e, he, comes⟩
            exact ⟨_, List.mem_map_of_mem he, (waits [e] (Nat.le_refl _)).1 comes⟩
        have timely1 : c1.Timely patience (patience.renew c.intercharacter deadline x.1) c1.due := by
          simpa [since] using (waits [] (Nat.zero_le _)).1 (by simpa using timely)
        obtain ⟨c', run, drained⟩ := ih (h.later open_ later) timely1 (by omega)
        rw [closes] at run drained
        rw [Step.run_bind_of_ok (fillRound_of_data there patience filled), later.intercharacter_eq, moved]
        exact ⟨c', run, drained⟩
      · -- the byte would be late
        have next : c.due.drop c.input.length = x :: rest := by
          rw [hdue, List.drop_left' (by simp)]
        unfold Timely at timely
        rw [next] at timely
        exact absurd timely.1 (Nat.not_le_of_lt late)
    · -- all of it is in the ring
      have drained := h.drained (Nat.le_of_not_lt more)
      have there : ¬ count ≤ c.input.length := by
        rw [← Ring.length_toList, drained.ring]
        omega
      obtain ⟨c1, filled, last⟩ := fill_end drained open_ deadline
      rw [drained.closesBy_eq]
      cases closed : c.endsBy deadline with
      | true =>
        rw [closed] at filled last
        have round : (fillRound count patience deadline).run c = (.error .disconnected, c1) := by
          unfold fillRound
          rw [Step.run_get_bind, if_neg there, Step.run_bind_of_error filled]
        rw [Step.run_bind_of_error round]
        exact ⟨c1, rfl, last⟩
      | false =>
        rw [closed] at filled last
        have ring : c1.input.length = q.bytes.length := by rw [← Ring.length_toList, last.ring]
        rw [← ring]
        have round : (fillRound count patience deadline).run c = (.error (.readTimeout c1.input.length),
            { c1 with statistics := { c1.statistics with readTimeouts := c1.statistics.readTimeouts + 1 } }) := by
          unfold fillRound
          rw [Step.run_get_bind, if_neg there, Step.run_bind_of_ok filled]
          rfl
        rw [Step.run_bind_of_error round]
        exact ⟨_, rfl, ⟨last.connected, last.cancels, last.cancelled, last.items, last.ends, last.bytes⟩, last.ring⟩

/-- A ring without a wanted byte is dropped as a whole. -/
theorem discardUntil_none {r : Ring} (garbage : ∀ b ∈ r.toList, b ∉ wanted) :
    r.discardUntil wanted = ((r.length, false), r.discard r.length) := by
  have all : (r.toList.takeWhile fun b => !wanted.contains b).length = r.length := by
    have whole : ∀ b ∈ r.toList, (!wanted.contains b) = true := by simpa using garbage
    rw [← List.append_nil r.toList, List.takeWhile_append_of_pos whole, List.takeWhile_nil, List.append_nil,
      Ring.length_toList]
  rw [Ring.discardUntil_eq, all]
  simp

/-- Whether the end comes while a wait with a deadline that stays goes on does not change before. -/
theorem Later.endsBy_eq {n : Nat} (h : Later c c' n) (early : c'.now ≤ max c.now (c.limit deadline)) :
    c'.endsBy deadline = c.endsBy deadline := by
  have le : max c.now (c.limit deadline) ≤ max c'.now (c.limit deadline) :=
    Nat.max_le.2 ⟨Nat.le_trans h.now_le (Nat.le_max_left _ _), Nat.le_max_right _ _⟩
  have ge : max c'.now (c.limit deadline) ≤ max c.now (c.limit deadline) := Nat.max_le.2 ⟨early, Nat.le_max_right _ _⟩
  unfold endsBy
  rw [h.ending_eq, h.limit_eq]
  congr 1
  refine propext ⟨?_, ?_⟩
  · rintro ⟨x, hx, comes⟩
    obtain ⟨y, hy, rfl⟩ := List.mem_map.1 hx
    exact ⟨y, hy, Nat.le_trans (Nat.le_trans (Nat.le_max_right _ _) comes) ge⟩
  · rintro ⟨y, hy, comes⟩
    exact ⟨_, List.mem_map_of_mem hy, Nat.max_le.2 ⟨Nat.le_max_left _ _, Nat.le_trans comes le⟩⟩

/-- A round that finds only garbage drops it, and goes on if more is to come. -/
theorem startRound_unwanted (h : c.Mirrors closing q) (open_ : q.connected = true) (garbage : ∀ b ∈ q.bytes, b ∉ wanted)
    (timely : ∀ x ∈ c.due, x.1 ≤ max c.now (c.limit deadline)) (passed : Nat) :
    (∃ c', (startRound wanted deadline passed).run c = (.ok (.inl (passed + c.input.length)), c') ∧
        Later c c' c.input.length ∧ c'.now ≤ max c.now (c.limit deadline) ∧ c'.line.waiting < c.line.waiting) ∨
      (c.input.length = q.bytes.length ∧ ∃ c', (startRound wanted deadline passed).run c =
          (.error (if c.endsBy deadline then .disconnected else .readTimeout (passed + c.input.length)), c') ∧
        c'.Drained closing ⟨[], !c.endsBy deadline⟩) := by
  have unwanted : ∀ b ∈ c.input.toList, b ∉ wanted := by
    intro b hb
    apply garbage
    rw [← h.bytes, bytes_due]
    exact List.mem_append_left _ hb
  -- the ring is dropped
  have round := startRound_run wanted deadline passed c
  have dropped := later_discard (h.unhindered open_) (Nat.le_refl c.input.length)
  have none : (c.input.discard c.input.length).toList = [] := by simp
  rw [discardUntil_none unwanted, none] at round
  dsimp only at round
  obtain ⟨c0, hc0⟩ : ∃ c0, c0 = { c with input := c.input.discard c.input.length } := ⟨_, rfl⟩
  rw [← hc0] at round dropped
  have now0 : c0.now = c.now := by rw [hc0]; rfl
  have empty : c0.input.length = 0 := by rw [← Ring.length_toList, hc0, none]; rfl
  have due0 : c0.due = c.due.drop c.input.length := dropped.due_of_now now0
  by_cases more : 0 < c0.due.length
  · left
    obtain ⟨x, rest, hdue, wait⟩ := fill_run dropped.unhindered (by omega) deadline
    have early : x.1 ≤ max c.now (c.limit deadline) := by
      apply timely x
      apply List.mem_of_mem_drop (i := c.input.length)
      rw [← due0, hdue]
      exact List.mem_append_right _ List.mem_cons_self
    have waiting0 : c0.line.waiting = c.line.waiting := by rw [hc0]
    rw [now0, dropped.limit_eq] at wait
    rcases wait with ⟨-, c', filled, later, moved, -, less⟩ | ⟨late, -⟩
    · refine ⟨c', ?_, dropped.trans later, moved ▸ early, waiting0 ▸ less⟩
      rw [round, Step.run_bind_of_ok filled]
      rfl
    · exact absurd early (Nat.not_le_of_lt late)
  · right
    have mirrors0 := h.later open_ dropped
    have ends0 : c0.endsBy deadline = c.endsBy deadline := by rw [hc0]; rfl
    have drained := mirrors0.drained (by omega)
    have gone : q.bytes.drop c.input.length = [] :=
      drained.ring.symm.trans (List.eq_nil_of_length_eq_zero (by rw [Ring.length_toList, empty]))
    have all : c.input.length = q.bytes.length := by
      have le := List.drop_eq_nil_iff.1 gone
      have ge := h.input_le
      omega
    obtain ⟨c', filled, last⟩ := fill_end drained open_ deadline
    rw [ends0] at filled last
    rw [gone] at last
    refine ⟨all, ?_⟩
    rw [round]
    cases closed : c.endsBy deadline with
    | true =>
      rw [closed] at filled last
      rw [Step.run_bind_of_error filled]
      exact ⟨c', rfl, last⟩
    | false =>
      rw [closed] at filled last
      rw [Step.run_bind_of_ok filled]
      exact ⟨_, rfl, ⟨last.connected, last.cancels, last.cancelled, last.items, last.ends, last.bytes⟩, last.ring⟩

theorem startRounds_short (h : c.Mirrors closing q) (open_ : q.connected = true) (garbage : ∀ b ∈ q.bytes, b ∉ wanted)
    (timely : ∀ x ∈ c.due, x.1 ≤ max c.now (c.limit deadline)) {fuel : Nat} (left : c.line.waiting < fuel)
    (passed : Nat) :
    ∃ c', (Step.repeatUpTo (startRound wanted deadline) fuel passed).run c =
        (.error (if c.endsBy deadline then .disconnected else .readTimeout (passed + q.bytes.length)), c') ∧
      c'.Drained closing ⟨[], !c.endsBy deadline⟩ := by
  induction fuel generalizing c q passed with
  | zero => exact absurd left (Nat.not_lt_zero _)
  | succ fuel ih =>
    unfold Step.repeatUpTo
    rcases startRound_unwanted h open_ garbage timely passed with
      ⟨c1, round, later, early, less⟩ | ⟨all, c', round, last⟩
    · -- what arrived is garbage again
      have timely1 : ∀ y ∈ c1.due, y.1 ≤ max c1.now (c1.limit deadline) := by
        intro y hy
        rw [later.due_eq] at hy
        obtain ⟨z, hz, rfl⟩ := List.mem_map.1 hy
        exact later.timely (timely z (List.mem_of_mem_drop hz))
      have garbage1 : ∀ b ∈ q.bytes.drop c.input.length, b ∉ wanted := fun b hb => garbage b (List.mem_of_mem_drop hb)
      have held := h.input_le
      have sum : passed + c.input.length + (q.bytes.drop c.input.length).length = passed + q.bytes.length := by
        rw [List.length_drop]
        omega
      obtain ⟨c', run, drained⟩ := ih (h.later open_ later) open_ garbage1 timely1 (by omega) (passed + c.input.length)
      rw [later.endsBy_eq early, sum] at run
      rw [later.endsBy_eq early] at drained
      rw [Step.run_bind_of_ok round]
      exact ⟨c', run, drained⟩
    · rw [Step.run_bind_of_error round, all]
      exact ⟨c', rfl, last⟩

/-! ## Calls -/

namespace Call

/-- What the channel does. -/
def step : Call → Step Channel Bytes
  | .readExact count timeout => Channel.readExact count timeout
  | .readExactUntil count deadline => Channel.readExactUntil count deadline
  | .peekExact count timeout => Channel.peekExact count timeout
  | .unread bytes => do
    Channel.unread bytes
    return []
  | .waitStart wanted timeout => do return [← Channel.waitStart wanted timeout]
  | .readStart wanted timeout => do return [← Channel.readStart wanted timeout]
  | .idle d => do
    modify fun c => { c with line := c.line.advanceTo (c.now + d) }
    return []

/-- How long a call waits that starts at a given moment. -/
def patience (now : Moment) : Call → Patience
  | .readExact _ timeout | .peekExact _ timeout => .each timeout
  | .readExactUntil _ deadline => .whole deadline
  | .waitStart _ timeout | .readStart _ timeout => .whole (now + timeout)
  | .unread _ | .idle _ => .whole now

/-- How many bytes a call takes or passes over, given those to come. -/
def need (bytes : Bytes) : Call → Nat
  | .readExact count _ | .readExactUntil count _ | .peekExact count _ => count
  | .waitStart wanted _ | .readStart wanted _ => (bytes.takeWhile fun b => !wanted.contains b).length + 1
  | .unread _ | .idle _ => 0

end Call

/-- The bytes that a call needs, so far as there are any, come before its timeouts. -/
def InTimeFor (c : Channel) (call : Call) : Prop :=
  c.Timely (call.patience c.now) ((call.patience c.now).first c.now) (c.due.take (call.need (c.due.map (·.2))))

instance (c : Channel) (call : Call) : Decidable (c.InTimeFor call) := inferInstanceAs (Decidable (Timely _ _ _ _))

/-- The far end has closed before a call that needs more bytes than there are gives up waiting. -/
def closedFor (c : Channel) (call : Call) : Bool :=
  c.closesBy (call.patience c.now) ((call.patience c.now).first c.now)

/-- Every call of a run finds what it needs in time. -/
def Prompt : Channel → List Call → Prop
  | _, [] => True
  | c, call :: rest => (c.connected = true → c.InTimeFor call) ∧ (call.step.run c).2.Prompt rest

instance Prompt.decidable : (c : Channel) → (calls : List Call) → Decidable (c.Prompt calls)
  | _, [] => .isTrue trivial
  | c, call :: rest =>
    have := Prompt.decidable (call.step.run c).2 rest
    inferInstanceAs (Decidable (_ ∧ _))

/-- What calls give, one after the other. -/
def answers : Channel → List Call → List (Except Fault Bytes) × Channel
  | c, [] => ([], c)
  | c, call :: rest =>
    let (results, left) := (call.step.run c).2.answers rest
    ((call.step.run c).1 :: results, left)

/-- The calls of a run, each with whether the far end has closed. -/
def outlook : Channel → List Call → List (Call × Bool)
  | _, [] => []
  | c, call :: rest => (call, c.closedFor call) :: (call.step.run c).2.outlook rest

theorem fillTo_short {count : Nat} {patience : Patience} (h : c.Mirrors closing q) (open_ : q.connected = true)
    (few : q.bytes.length < count) (timely : c.Timely patience (patience.first c.now) c.due) :
    ∃ c', (fillTo count patience).run c =
        (.error (if c.closesBy patience (patience.first c.now) then .disconnected else .readTimeout q.bytes.length), c') ∧
      c'.Drained closing { q with connected := !c.closesBy patience (patience.first c.now) } := by
  unfold fillTo rounds
  rw [Step.run_get_bind, Step.run_get_bind]
  exact fillRounds_short h open_ few timely (Nat.lt_succ_self _)

theorem readExactly_mirrors {count : Nat} {patience : Patience} (h : c.Mirrors closing q) (open_ : q.connected = true)
    (timely : c.Timely patience (patience.first c.now) (c.due.take count)) :
    ∃ c', (readExactly count patience).run c =
        ((q.read (c.closesBy patience (patience.first c.now)) count).1, c') ∧
      c'.Mirrors closing (q.read (c.closesBy patience (patience.first c.now)) count).2 := by
  unfold Queue.read
  by_cases enough : count ≤ q.bytes.length
  · rw [if_pos enough]
    obtain ⟨c', run, later, -⟩ := (readExactly_run (h.unhindered open_) (h.length ▸ enough)).1 timely
    refine ⟨c', ?_, h.later open_ later⟩
    rw [run, List.map_take, h.bytes]
  · rw [if_neg enough]
    rw [List.take_of_length_le (by rw [h.length]; omega)] at timely
    obtain ⟨c1, filled, last⟩ := fillTo_short h open_ (Nat.lt_of_not_le enough) timely
    unfold readExactly Queue.runOut
    rw [Step.run_bind_of_ok (ensureConnected_run (h.connected.trans open_)), Step.run_outcome_bind, filled]
    cases closed : c.closesBy patience (patience.first c.now) with
    | true =>
      rw [closed] at last
      exact ⟨c1, rfl, last.toMirrors⟩
    | false =>
      rw [closed] at last
      refine ⟨{ c1 with input := c1.input.clear }, rfl,
        ⟨last.connected, last.cancels, last.cancelled, last.items, last.ends, ?_⟩⟩
      rw [bytes_due, last.coming, Ring.toList_clear]
      rfl

theorem peekExact_mirrors {count : Nat} {timeout : Duration} (h : c.Mirrors closing q) (open_ : q.connected = true)
    (timely : c.Timely (.each timeout) (c.now + timeout) (c.due.take count)) :
    ∃ c', (peekExact count timeout).run c = ((q.peek (c.closesBy (.each timeout) (c.now + timeout)) count).1, c') ∧
      c'.Mirrors closing (q.peek (c.closesBy (.each timeout) (c.now + timeout)) count).2 := by
  unfold peekExact Queue.peek
  rw [Step.run_bind_of_ok (ensureConnected_run (h.connected.trans open_))]
  by_cases enough : count ≤ q.bytes.length
  · rw [if_pos enough]
    obtain ⟨c', run, later, full, -⟩ := (fillTo_run (h.unhindered open_) (h.length ▸ enough)).1 timely
    have mirrors : c'.Mirrors closing q := h.later open_ later
    rw [Step.run_bind_of_ok run, Step.run_get_bind]
    refine ⟨c', ?_, mirrors⟩
    have front : c'.input.peek count = q.bytes.take count := by
      rw [← mirrors.bytes, bytes_due, List.take_append_of_le_length (by rwa [Ring.length_toList]), Ring.peek_eq]
    rw [front]
    rfl
  · rw [if_neg enough]
    rw [List.take_of_length_le (by rw [h.length]; omega)] at timely
    obtain ⟨c', filled, last⟩ := fillTo_short h open_ (Nat.lt_of_not_le enough) timely
    rw [Step.run_bind_of_error filled]
    exact ⟨c', rfl, last.toMirrors⟩

theorem timely_whole (c : Channel) (deadline : Moment) (count : Nat) :
    c.Timely (.whole deadline) deadline (c.due.take count) ↔
      ∀ x ∈ c.due.take count, x.1 ≤ max c.now (c.limit deadline) :=
  (timely_iff count rfl).trans (inTime_const fun _ => c.limit_limit deadline)

theorem closesBy_whole (timely : ∀ x ∈ c.due, x.1 ≤ max c.now (c.limit deadline)) :
    c.closesBy (.whole deadline) deadline = c.endsBy deadline := by
  have ring : c.input.length ≤ c.due.length := by simp [due_eq]
  unfold closesBy endsBy Timely
  congr 1
  refine propext (exists_congr fun x => and_congr_right fun _ => ?_)
  rw [inTime_const fun _ => c.limit_limit deadline, List.drop_append_of_le_length ring]
  constructor
  · intro all
    exact all x (by simp)
  · intro last y hy
    rcases List.mem_append.1 hy with old | new
    · exact timely y (List.mem_of_mem_drop old)
    · rwa [List.mem_singleton.1 new]

theorem waitStart_mirrors {timeout : Duration} (h : c.Mirrors closing q) (open_ : q.connected = true)
    (timely : c.InTimeFor (.waitStart wanted timeout)) :
    match q.bytes.dropWhile fun b => !wanted.contains b with
    | byte :: rest => ∃ c', (waitStart wanted timeout).run c = (.ok byte, c') ∧
        c'.Mirrors closing { q with bytes := byte :: rest } ∧ 0 < c'.input.length
    | [] => ∃ c', (waitStart wanted timeout).run c =
          (.error (if c.closedFor (.waitStart wanted timeout) then .disconnected else .readTimeout q.bytes.length), c') ∧
        c'.Mirrors closing ⟨[], !c.closedFor (.waitStart wanted timeout)⟩ := by
  have loop : (waitStart wanted timeout).run c =
      (Step.repeatUpTo (startRound wanted (c.now + timeout)) (c.line.waiting + 1) 0).run c := by
    unfold waitStart rounds
    rw [Step.run_bind_of_ok (ensureConnected_run (h.connected.trans open_)), Step.run_get_bind, Step.run_get_bind]
  have early := (c.timely_whole (c.now + timeout) _).1 timely
  have whole := h.bytes.trans (List.takeWhile_append_dropWhile (p := fun b => !wanted.contains b)).symm
  have front_unwanted : ∀ b ∈ q.bytes.takeWhile fun b => !wanted.contains b, b ∉ wanted := by
    intro b hb
    simpa using List.all_eq_true.1 List.all_takeWhile b hb
  rw [h.bytes] at early
  rw [loop]
  cases hd : q.bytes.dropWhile fun b => !wanted.contains b with
  | cons byte rest =>
    rw [hd] at whole
    obtain ⟨front, tail, hdue, hfront, htail⟩ := List.map_eq_append_iff.1 whole
    obtain ⟨x, more, rfl, hx, hmore⟩ := List.map_eq_cons_iff.1 htail
    have garbage : ∀ y ∈ front, y.2 ∉ wanted := by
      intro y hy
      apply front_unwanted
      rw [← hfront]
      exact List.mem_map_of_mem hy
    have found : x.2 ∈ wanted := by
      have stops := List.head?_dropWhile_not (fun b => !wanted.contains b) q.bytes
      rw [hd] at stops
      rw [hx]
      simpa using stops
    have part : c.due.take ((q.bytes.takeWhile fun b => !wanted.contains b).length + 1) = front ++ [x] := by
      rw [hdue, ← hfront, List.length_map, List.take_length_add_append]
      rfl
    have comes : InTime (fun d _ => d) (c.limit (c.now + timeout)) c.now (front ++ [x]) := by
      rw [inTime_const fun _ => rfl, ← part]
      exact early
    obtain ⟨c', run, later, some, -⟩ :=
      (startRounds_run (h.unhindered open_) hdue garbage found (Nat.lt_succ_self _) (c.now + timeout) 0).1 comes
    have mirrors := h.later open_ later
    have left : q.bytes.drop front.length = byte :: rest := by
      rw [← h.bytes, whole, ← hfront, List.drop_left' (List.length_map _)]
    rw [left] at mirrors
    rw [hx] at run
    exact ⟨c', run, mirrors, some⟩
  | nil =>
    rw [hd, List.append_nil] at whole
    have garbage : ∀ b ∈ q.bytes, b ∉ wanted := by
      rw [← h.bytes, whole]
      exact front_unwanted
    have all : c.due.take ((q.bytes.takeWhile fun b => !wanted.contains b).length + 1) = c.due := by
      rw [← whole, List.length_map]
      exact List.take_of_length_le (Nat.le_succ _)
    have timely : ∀ x ∈ c.due, x.1 ≤ max c.now (c.limit (c.now + timeout)) := by
      rw [← all]
      exact early
    have closes : c.closedFor (.waitStart wanted timeout) = c.endsBy (c.now + timeout) := closesBy_whole timely
    obtain ⟨c', run, last⟩ := startRounds_short h open_ garbage timely (Nat.lt_succ_self _) 0
    rw [Nat.zero_add] at run
    rw [closes]
    exact ⟨c', run, last.toMirrors⟩

theorem ensureConnected_lost (lost : c.connected = false) :
    ensureConnected.run c = (.error (.connection (.notOpen "Channel")), c) := by
  unfold ensureConnected
  rw [Step.run_get_bind, lost]
  rfl

/-- A call that needs the far end. -/
theorem reading_mirrors {x : Step Channel Bytes} {answer : Except Fault Bytes × Queue} (h : c.Mirrors closing q)
    (guarded : c.connected = false → x.run c = (.error (.connection (.notOpen "Channel")), c))
    (reads : q.connected = true → ∃ c', x.run c = (answer.1, c') ∧ c'.Mirrors closing answer.2) :
    (x.run c).1 = (if !q.connected then (.error (.connection (.notOpen "Channel")), q) else answer).1 ∧
      (x.run c).2.Mirrors closing (if !q.connected then (.error (.connection (.notOpen "Channel")), q) else answer).2 := by
  cases open_ : q.connected with
  | true =>
    obtain ⟨c', run, mirrors⟩ := reads open_
    rw [run]
    exact ⟨rfl, mirrors⟩
  | false =>
    rw [guarded (h.connected.trans open_)]
    exact ⟨rfl, h⟩

/-- **A call** gives what the queue gives, and leaves what the queue leaves. -/
theorem step_mirrors (h : c.Mirrors closing q) (call : Call) (timely : c.connected = true → c.InTimeFor call) :
    (call.step.run c).1 = (q.answer (c.closedFor call) call).1 ∧
      (call.step.run c).2.Mirrors closing (q.answer (c.closedFor call) call).2 := by
  have timely (open_ : q.connected = true) : c.InTimeFor call := timely (h.connected.trans open_)
  cases call with
  | unread bytes =>
    refine ⟨rfl, ⟨h.connected, h.cancels, h.cancelled, h.items, h.ends, ?_⟩⟩
    show (due { c with input := c.input.unget bytes }).map (·.2) = bytes ++ q.bytes
    rw [← h.bytes, bytes_due, bytes_due, Ring.toList_unget, List.append_assoc]
  | idle d =>
    refine ⟨rfl, ?_⟩
    show Mirrors { c with line := c.line.advanceTo (c.now + d) } closing q
    rw [Line.advanceTo_of_cancels h.cancels]
    exact ⟨h.connected, h.cancels, h.cancelled, h.items, h.ends, by rw [← h.bytes, bytes_due, bytes_due]⟩
  | readExact count timeout =>
    refine reading_mirrors h (fun lost => ?_) fun open_ => readExactly_mirrors h open_ (timely open_)
    exact Step.run_bind_of_error (ensureConnected_lost lost)
  | readExactUntil count deadline =>
    refine reading_mirrors h (fun lost => ?_) fun open_ => readExactly_mirrors h open_ (timely open_)
    exact Step.run_bind_of_error (ensureConnected_lost lost)
  | peekExact count timeout =>
    refine reading_mirrors h (fun lost => ?_) fun open_ => peekExact_mirrors h open_ (timely open_)
    exact Step.run_bind_of_error (ensureConnected_lost lost)
  | waitStart wanted timeout =>
    refine reading_mirrors h (fun lost => ?_) fun open_ => ?_
    · exact Step.run_bind_of_error (Step.run_bind_of_error (ensureConnected_lost lost))
    · have wait := waitStart_mirrors h open_ (timely open_)
      unfold Queue.start
      split at wait
      next byte rest _ =>
        obtain ⟨c', run, mirrors, -⟩ := wait
        exact ⟨c', Step.run_bind_of_ok run, mirrors⟩
      next =>
        obtain ⟨c', run, mirrors⟩ := wait
        exact ⟨c', Step.run_bind_of_error run, mirrors⟩
  | readStart wanted timeout =>
    refine reading_mirrors h (fun lost => ?_) fun open_ => ?_
    · exact Step.run_bind_of_error (Step.run_bind_of_error (Step.run_bind_of_error (ensureConnected_lost lost)))
    · have wait := waitStart_mirrors h open_ (timely open_)
      unfold Queue.start
      split at wait
      next byte rest _ =>
        obtain ⟨c', run, mirrors, some⟩ := wait
        have taken := mirrors.later open_ (later_discard (mirrors.unhindered open_) some)
        refine ⟨_, ?_, taken⟩
        have read : (Channel.readStart wanted timeout).run c = (.ok byte, { c' with input := c'.input.discard 1 }) :=
          Step.run_bind_of_ok run
        exact Step.run_bind_of_ok read
      next =>
        obtain ⟨c', run, mirrors⟩ := wait
        exact ⟨c', Step.run_bind_of_error (Step.run_bind_of_error run), mirrors⟩

/-- Calls one after the other. -/
theorem answers_mirrors {calls : List Call} (h : c.Mirrors closing q) (prompt : c.Prompt calls) :
    (c.answers calls).1 = (q.answers (c.outlook calls)).1 ∧
      (c.answers calls).2.Mirrors closing (q.answers (c.outlook calls)).2 := by
  induction calls generalizing c q with
  | nil => exact ⟨rfl, h⟩
  | cons call rest ih =>
    obtain ⟨timely, prompt⟩ := prompt
    obtain ⟨first, left⟩ := step_mirrors h call timely
    obtain ⟨others, last⟩ := ih left prompt
    refine ⟨?_, last⟩
    show (call.step.run c).1 :: ((call.step.run c).2.answers rest).1 =
      (q.answer (c.closedFor call) call).1 :: ((q.answer (c.closedFor call) call).2.answers _).1
    rw [first, others]

/-- A far end that stays never closes. -/
theorem outlook_of_silence {calls : List Call} (h : c.Mirrors none q) (prompt : c.Prompt calls) :
    ∀ x ∈ c.outlook calls, x.2 = false := by
  induction calls generalizing c q with
  | nil => simp [outlook]
  | cons call rest ih =>
    obtain ⟨timely, prompt⟩ := prompt
    have never : c.closedFor call = false := h.closesBy_eq_false _ _
    intro x hx
    rcases List.mem_cons.1 hx with rfl | later
    · exact never
    · exact ih (step_mirrors h call timely).2 prompt x later

/-- What is on its way over an open channel. -/
theorem mirrors_of_cut {pieces : List (Moment × Bytes)} (open_ : c.connected = true) (cancels : c.line.cancels = [])
    (cancelled : c.line.handle.cancelled = false) (some : ∀ p ∈ pieces, p.2 ≠ [])
    (arrivals : c.line.arrivals = Line.cut pieces closing) :
    c.Mirrors closing ⟨c.input.toList ++ pieces.flatMap (·.2), true⟩ where
  connected := open_
  cancels := cancels
  cancelled := cancelled
  items := arrivals ▸ Line.items_cut some
  ends := arrivals ▸ Line.behind_cut
  bytes := by rw [bytes_due, arrivals, Line.coming_cut]

/-- **A channel is a queue of bytes.** Whatever is in the ring and however the line cuts what arrives, calls on an
open channel that find what they need in time give what they give on a queue of all the bytes, and leave the channel
connected or not as they leave the queue. A call that needs more bytes than there are fails with the number of
bytes there were if there is silence, and otherwise because the far end has closed; a far end that stays is never
taken for one that closed. -/
theorem answers_eq {pieces : List (Moment × Bytes)} {calls : List Call} (open_ : c.connected = true)
    (cancels : c.line.cancels = []) (cancelled : c.line.handle.cancelled = false) (some : ∀ p ∈ pieces, p.2 ≠ [])
    (arrivals : c.line.arrivals = Line.cut pieces closing) (prompt : c.Prompt calls) :
    (c.answers calls).1 =
        (Queue.answers ⟨c.input.toList ++ pieces.flatMap (·.2), true⟩ (c.outlook calls)).1 ∧
      (c.answers calls).2.connected =
        (Queue.answers ⟨c.input.toList ++ pieces.flatMap (·.2), true⟩ (c.outlook calls)).2.connected ∧
      (closing = none → ∀ x ∈ c.outlook calls, x.2 = false) := by
  have mirrors := mirrors_of_cut open_ cancels cancelled some arrivals
  obtain ⟨results, left⟩ := answers_mirrors mirrors prompt
  refine ⟨results, left.connected, ?_⟩
  rintro rfl
  exact outlook_of_silence mirrors prompt

/-- The channel of the witness. -/
def piecemeal : Channel where
  line := { arrivals := [(5, .data [1]), (7, .data [2, 3, 0x55, 0xEE]), (9, .data [4]), (20, .ended)] }
  connected := true

/-- Calls in which a byte is looked at and another pushed back, garbage is passed over, and a read that wants one
byte too many is cut off by the far end. -/
def piecemealCalls : List Call :=
  [.peekExact 1 10, .unread [0], .readExact 3 10, .readStart [0xEE] 10, .idle 2, .readExactUntil 2 30, .readExact 1 10]

theorem answers_eq_piecemeal :
    piecemeal.Prompt piecemealCalls ∧
      (piecemeal.answers piecemealCalls).1 = [.ok [1], .ok [], .ok [0, 1, 2], .ok [0xEE], .ok [],
        .error .disconnected, .error (.connection (.notOpen "Channel"))] ∧
      (piecemeal.answers piecemealCalls).2.connected = false := by
  have prompt : piecemeal.Prompt piecemealCalls := by decide +kernel
  have outlook : piecemeal.outlook piecemealCalls =
      piecemealCalls.zip [false, false, false, false, false, true, true] := by decide +kernel
  have arrivals : piecemeal.line.arrivals =
      Line.cut [(5, [1]), (7, [2, 3, 0x55, 0xEE]), (9, [4])] (some 20) := rfl
  obtain ⟨results, connected, -⟩ := answers_eq rfl rfl rfl (by decide) arrivals prompt
  have empty : piecemeal.input.toList = [] := by decide +kernel
  rw [outlook, empty] at results connected
  exact ⟨prompt, results, connected⟩

end Channel

end Metering
