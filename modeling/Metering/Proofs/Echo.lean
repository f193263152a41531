import Metering.Proofs.Queue
import Metering.Proofs.Turns

set_option autoImplicit false

/-! # The echo of a write

On a medium that echoes, a write hears its bytes again. It is judged by what is heard: the bytes that wait in the ring,
and those that come in pieces, each before the echo is given up. The write succeeds if its bytes come first, and leaves
what stands behind them; it is a collision as soon as another byte is heard; and with fewer bytes than were sent, the
line has fallen silent or has closed (`Channel.write_echo`). How the pieces are cut makes no difference, and neither do
requests to stop nor the deadline of the channel, for all of it happens within the window of the write. -/

namespace Metering

open Timed
open Step (Moves Same)

namespace Line

variable {l : Line} {deadline moment : Moment} {rest : List (Moment × Arrival)}

/-! ## Waits within a window -/

/-- A wait that honours no requests ends with what it waits for. Requests that fall due meanwhile are noted. -/
theorem waitFor_arrived (timely : moment ≤ max l.now deadline) :
    ∃ handle cancels, l.waitFor (some moment) deadline false =
      (.arrived, { l with now := max l.now moment, handle, cancels }) := by
  unfold waitFor
  dsimp only
  rw [Bool.false_and, if_neg Bool.false_ne_true]
  by_cases here : moment ≤ l.now
  · rw [if_pos (decide_eq_true here), Nat.max_eq_left here]
    exact ⟨_, _, rfl⟩
  · have ahead : l.now ≤ deadline := Nat.le_of_not_le fun past => here (Nat.max_eq_left past ▸ timely)
    rw [Nat.max_eq_right ahead] at timely
    have later : ¬ deadline ≤ l.now := fun past => here (Nat.le_trans timely past)
    have target : earlier deadline (some moment) = moment := Nat.min_eq_right timely
    rw [if_neg (by simpa using here), if_neg later, if_neg Bool.false_ne_true, target]
    dsimp only
    rw [if_pos (decide_eq_true (Nat.le_refl moment))]
    exact ⟨_, _, rfl⟩

/-- If that does not come before the deadline, the wait ends there. -/
theorem waitFor_elapsed {arrival : Option Moment} (late : ∀ m ∈ arrival, max l.now deadline < m) :
    ∃ handle cancels, l.waitFor arrival deadline false =
      (.elapsed, { l with now := max l.now deadline, handle, cancels }) := by
  unfold waitFor
  dsimp only
  rw [Bool.false_and, if_neg Bool.false_ne_true]
  cases arrival with
  | none =>
    rw [if_neg Bool.false_ne_true]
    by_cases past : deadline ≤ l.now
    · rw [if_pos past, Nat.max_eq_left past]
      exact ⟨_, _, rfl⟩
    · rw [if_neg past, if_neg Bool.false_ne_true]
      exact ⟨_, _, rfl⟩
  | some m =>
    have late := late m rfl
    have undue : ¬ m ≤ l.now := Nat.not_le_of_lt (Nat.lt_of_le_of_lt (Nat.le_max_left _ _) late)
    have early : deadline < m := Nat.lt_of_le_of_lt (Nat.le_max_right _ _) late
    have target : earlier deadline (some m) = deadline := Nat.min_eq_left (Nat.le_of_lt early)
    rw [if_neg (by simpa using undue)]
    by_cases past : deadline ≤ l.now
    · rw [if_pos past, Nat.max_eq_left past]
      exact ⟨_, _, rfl⟩
    · rw [if_neg past, if_neg Bool.false_ne_true, target]
      dsimp only
      rw [if_neg (by simpa using early)]
      exact ⟨_, _, rfl⟩

section Read

variable {bytes : Bytes} {words : String} (most : Nat)

theorem read_unhonoured_data (ha : l.arrivals = (moment, .data bytes) :: rest) (timely : moment ≤ max l.now deadline) :
    ∃ handle cancels, (read deadline false most).run l =
      (.ok (.data (bytes.take most)), { l.taken moment bytes rest most with handle, cancels }) := by
  obtain ⟨handle, cancels, wait⟩ := waitFor_arrived timely
  have next : l.nextArrival? = some moment := by rw [nextArrival?, ha]; rfl
  refine ⟨handle, cancels, ?_⟩
  unfold read
  rw [Step.run_get_bind, await, next, wait]
  dsimp only
  rw [Step.run_set_bind, takeArrival, Step.run_get_bind]
  simp only [ha]
  rfl

theorem read_unhonoured_ended (ha : l.arrivals = (moment, .ended) :: rest) (timely : moment ≤ max l.now deadline) :
    ∃ l', (read deadline false most).run l = (.ok .ended, l') := by
  obtain ⟨handle, cancels, wait⟩ := waitFor_arrived timely
  have next : l.nextArrival? = some moment := by rw [nextArrival?, ha]; rfl
  unfold read
  rw [Step.run_get_bind, await, next, wait]
  dsimp only
  rw [Step.run_set_bind, takeArrival, Step.run_get_bind]
  simp only [ha]
  exact ⟨_, rfl⟩

theorem read_unhonoured_failure (ha : l.arrivals = (moment, .failure words) :: rest)
    (timely : moment ≤ max l.now deadline) :
    ∃ l', (read deadline false most).run l = (.error (.connection (.reported words)), l') := by
  obtain ⟨handle, cancels, wait⟩ := waitFor_arrived timely
  have next : l.nextArrival? = some moment := by rw [nextArrival?, ha]; rfl
  unfold read
  rw [Step.run_get_bind, await, next, wait]
  dsimp only
  rw [Step.run_set_bind, takeArrival, Step.run_get_bind]
  simp only [ha]
  exact ⟨_, rfl⟩

theorem read_unhonoured_late (late : ∀ a ∈ l.arrivals.head?, max l.now deadline < a.1) :
    ∃ handle cancels, (read deadline false most).run l =
      (.ok .elapsed, { l with now := max l.now deadline, handle, cancels }) := by
  have late' : ∀ m ∈ l.nextArrival?, max l.now deadline < m := by
    intro m hm
    obtain ⟨a, ha, rfl⟩ := Option.map_eq_some_iff.1 hm
    exact late a ha
  obtain ⟨handle, cancels, wait⟩ := waitFor_elapsed late'
  refine ⟨handle, cancels, ?_⟩
  unfold read
  rw [Step.run_get_bind, await, wait]
  rfl

end Read

/-! ## Pieces -/

/-- The bytes of pieces, each with the moment at which its piece arrives. -/
def timed (pieces : List (Moment × Bytes)) : List Timed := pieces.flatMap fun p => p.2.map (p.1, ·)

/-- Data in pieces, and what follows them. -/
def delivered (pieces : List (Moment × Bytes)) (rest : List (Moment × Arrival)) : List (Moment × Arrival) :=
  pieces.map (fun p => (p.1, .data p.2)) ++ rest

/-- The pieces that are left when up to `most` bytes of a first one are taken. -/
def behindRead (most : Nat) (moment : Moment) (bytes : Bytes) (pieces : List (Moment × Bytes)) :
    List (Moment × Bytes) :=
  if (bytes.drop most).isEmpty then pieces else (moment, bytes.drop most) :: pieces

section Pieces

variable {bytes : Bytes} {pieces : List (Moment × Bytes)} (most : Nat)

theorem timed_behindRead (moment : Moment) (bytes : Bytes) (pieces : List (Moment × Bytes)) :
    timed ((moment, bytes) :: pieces) =
      (bytes.take most).map ((moment, ·)) ++ timed (behindRead most moment bytes pieces) := by
  have front :
      bytes.map ((moment, ·)) = (bytes.take most).map ((moment, ·)) ++ (bytes.drop most).map ((moment, ·)) := by
    rw [← List.map_append, List.take_append_drop]
  unfold behindRead timed
  rw [List.flatMap_cons, front]
  split
  next none => rw [List.isEmpty_iff.1 none, List.map_nil, List.append_nil]
  next => rw [List.flatMap_cons, List.append_assoc]

theorem map_timed (pieces : List (Moment × Bytes)) : (timed pieces).map (·.2) = pieces.flatMap (·.2) := by
  simp [timed, List.map_flatMap, Function.comp_def]

theorem flatMap_behindRead (moment : Moment) (bytes : Bytes) (pieces : List (Moment × Bytes)) :
    bytes.take most ++ (behindRead most moment bytes pieces).flatMap (·.2) = bytes ++ pieces.flatMap (·.2) := by
  have cut := congrArg (List.map (·.2)) (timed_behindRead most moment bytes pieces)
  rw [List.map_append, map_timed, map_timed, List.flatMap_cons, List.map_map] at cut
  simpa [Function.comp_def] using cut.symm

theorem arrivals_taken (l : Line) (moment : Moment) (bytes : Bytes) (pieces : List (Moment × Bytes))
    (rest : List (Moment × Arrival)) :
    (l.taken moment bytes (delivered pieces rest) most).arrivals =
      delivered (behindRead most moment bytes pieces) rest := by
  unfold taken behindRead
  dsimp only
  split <;> rfl

theorem behindRead_some (some : ∀ p ∈ pieces, p.2 ≠ []) (moment : Moment) (bytes : Bytes) :
    ∀ p ∈ behindRead most moment bytes pieces, p.2 ≠ [] := by
  unfold behindRead
  split
  · exact some
  next left =>
    intro p hp
    rcases List.mem_cons.1 hp with rfl | later
    · exact fun none => left (List.isEmpty_iff.2 none)
    · exact some p later

theorem coming_delivered (pieces : List (Moment × Bytes)) (rest : List (Moment × Arrival)) :
    coming (delivered pieces rest) = timed pieces ++ coming rest := by
  unfold delivered timed
  induction pieces with
  | nil => rfl
  | cons p pieces ih => rw [List.map_cons, List.cons_append, coming, ih, List.flatMap_cons, List.append_assoc]

end Pieces

/-! ## Media that echo -/

theorem passTime_echoes (delay : Duration) (deadline : Option Moment) :
    Moves (Same Line.echoes) (passTime delay deadline) := by
  refine .get_bind fun l => ?_
  cases deadline with
  | none => rfl
  | some d =>
    dsimp only
    split
    · rfl
    · split <;> rfl

theorem write_echoes (deadline : Option Moment) (bytes : Bytes) : Moves (Same Line.echoes) (write deadline bytes) := by
  refine .get_bind fun l => ?_
  rcases nextOutcome l.writes with ⟨outcome, writes⟩
  cases outcome with
  | failure words => rfl
  | nothing => rfl
  | success =>
    have passed (count : Nat) : Moves (Same Line.echoes) (do
        if ← passTime l.writeDelay deadline then return some count else return none : Step Line (Option Nat)) :=
      .bind (passTime_echoes _ _) fun _ => .ite (.pure _) (.pure _)
    exact passed _ _

theorem deliver_echoes (l : Line) : l.deliver.echoes = l.echoes := by
  have planned (message : Bytes) : (l.planEcho message).echoes = l.echoes := by
    unfold planEcho
    split
    · exact congrArg Prod.snd (schedule_prospect _ _ _)
    · rfl
  unfold deliver
  split
  · rfl
  · exact (congrArg Prod.snd (planAnswer_prospect _).1).trans (planned _)

theorem flush_echoes (deadline : Option Moment) : Moves (Same Line.echoes) (flush deadline) := by
  refine .bind .get fun _ => .bind (passTime_echoes _ _) fun timely => .ite (.get_bind fun l => ?_) (.pure _)
  rcases nextOutcome l.flushes with ⟨outcome, flushes⟩
  cases outcome with
  | failure words => rfl
  | success => exact deliver_echoes _
  | nothing => exact deliver_echoes _

end Line

/-! ## What is heard against what was sent -/

namespace Bytes

variable {sent heard : Bytes} {k : Nat}

/-- Heard bytes differ from those that were sent at a place of theirs, and nowhere before it. -/
def DiffersAt (sent heard : Bytes) (k : Nat) : Prop :=
  k < sent.length ∧ k < heard.length ∧ heard.take k = sent.take k ∧ heard[k]? ≠ sent[k]?

instance (sent heard : Bytes) (k : Nat) : Decidable (DiffersAt sent heard k) := inferInstanceAs (Decidable (_ ∧ _))

theorem DiffersAt.cons (h : DiffersAt sent heard k) (b : UInt8) : DiffersAt (b :: sent) (b :: heard) (k + 1) := by
  obtain ⟨inside, there, same, other⟩ := h
  refine ⟨Nat.succ_lt_succ inside, Nat.succ_lt_succ there, ?_, ?_⟩
  · rw [List.take_succ_cons, List.take_succ_cons, same]
  · rwa [List.getElem?_cons_succ, List.getElem?_cons_succ]

/-- Heard bytes begin with those that were sent, or differ from them somewhere, or are fewer. -/
theorem heard_cases (sent heard : Bytes) :
    sent <+: heard ∨ (∃ k, DiffersAt sent heard k) ∨ (heard <+: sent ∧ heard.length < sent.length) := by
  induction sent generalizing heard with
  | nil => exact .inl List.nil_prefix
  | cons s sent ih =>
    cases heard with
    | nil => exact .inr (.inr ⟨List.nil_prefix, Nat.succ_pos _⟩)
    | cons h heard =>
      by_cases same : h = s
      · subst same
        rcases ih heard with whole | ⟨k, differs⟩ | ⟨part, fewer⟩
        · exact .inl ((List.prefix_cons_inj h).2 whole)
        · exact .inr (.inl ⟨k + 1, differs.cons h⟩)
        · exact .inr (.inr ⟨(List.prefix_cons_inj h).2 part, Nat.succ_lt_succ fewer⟩)
      · exact .inr (.inl ⟨0, Nat.succ_pos _, Nat.succ_pos _, rfl, fun eq => same (Option.some.inj eq)⟩)

/-- What was heard first differs as the whole does. -/
theorem DiffersAt.append (h : DiffersAt sent heard k) (more : Bytes) : DiffersAt sent (heard ++ more) k := by
  obtain ⟨inside, there, same, other⟩ := h
  refine ⟨inside, ?_, ?_, ?_⟩
  · rw [List.length_append]
    exact Nat.lt_of_lt_of_le there (Nat.le_add_right _ _)
  · rwa [List.take_append_of_le_length (Nat.le_of_lt there)]
  · rwa [List.getElem?_append_left there]

/-- Bytes that differ at a place have no common run that reaches behind it. -/
theorem DiffersAt.take_ne (h : DiffersAt sent heard k) {n : Nat} (behind : k < n) : heard.take n ≠ sent.take n := by
  intro same
  have at_k := congrArg (·[k]?) same
  simp only [List.getElem?_take_of_lt behind] at at_k
  exact h.2.2.2 at_k

theorem DiffersAt.not_whole (h : DiffersAt sent heard k) : ¬ sent <+: heard := by
  intro whole
  refine h.take_ne h.1 ?_
  rw [List.take_length, ← List.prefix_iff_eq_take.1 whole]

theorem DiffersAt.not_part (h : DiffersAt sent heard k) : ¬ heard <+: sent := by
  intro part
  refine h.take_ne h.2.1 ?_
  rw [List.take_length, ← List.prefix_iff_eq_take.1 part]

theorem DiffersAt.unique {k' : Nat} (h : DiffersAt sent heard k) (h' : DiffersAt sent heard k') : k = k' := by
  rcases Nat.lt_trichotomy k k' with before | same | behind
  · exact absurd h'.2.2.1 (h.take_ne before)
  · exact same
  · exact absurd h.2.2.1 (h'.take_ne behind)

end Bytes

namespace Channel

variable {c : Channel} {sent : Bytes} {timeout deadline : Moment}

/-! ## One round -/

theorem echoRound_whole (whole : sent <+: c.input.toList) (timeout : Duration) (deadline : Moment) :
    (echoRound sent timeout deadline).run c = (.ok (.inr ()), { c with input := c.input.discard sent.length }) := by
  have enough : sent.length ≤ c.input.length := by
    rw [← Ring.length_toList]
    exact whole.length_le
  have same : ¬ c.input.peek sent.length ≠ sent.take sent.length := by
    rw [Ring.peek_eq, List.take_length, ← List.prefix_iff_eq_take.1 whole]
    exact not_not_intro rfl
  unfold echoRound
  rw [Step.run_get_bind, Nat.min_eq_right enough]
  dsimp only
  rw [if_neg same, if_pos rfl]
  rfl

theorem echoRound_differs {k : Nat} (differs : Bytes.DiffersAt sent c.input.toList k) (timeout : Duration)
    (deadline : Moment) :
    ∃ c', (echoRound sent timeout deadline).run c = (.error .collision, c') ∧ c'.now = c.now := by
  obtain ⟨inside, there, -⟩ := id differs
  rw [Ring.length_toList] at there
  have other : c.input.peek (min c.input.length sent.length) ≠ sent.take (min c.input.length sent.length) := by
    rw [Ring.peek_eq]
    exact differs.take_ne (Nat.lt_min.2 ⟨there, inside⟩)
  unfold echoRound
  rw [Step.run_get_bind]
  dsimp only
  rw [if_pos other]
  exact ⟨_, rfl, rfl⟩

/-- A round that has heard too little waits for more. -/
theorem echoRound_part (part : c.input.toList <+: sent) (fewer : c.input.length < sent.length) (timeout : Duration)
    (deadline : Moment) :
    (echoRound sent timeout deadline).run c = (do
      match ← fill deadline with
      | .data => return .inl ((← get).now + timeout)
      | .elapsed => throw (.writeTimeout c.input.length) : Step Channel (Moment ⊕ Unit)).run c := by
  have same : ¬ c.input.peek c.input.length ≠ sent.take c.input.length := by
    have front := List.prefix_iff_eq_take.1 part
    rw [Ring.length_toList] at front
    rw [Ring.peek_eq, List.take_of_length_le (Nat.le_of_eq (Ring.length_toList _)), front]
    simp
  unfold echoRound
  rw [Step.run_get_bind, Nat.min_eq_left (Nat.le_of_lt fewer)]
  dsimp only
  rw [if_neg same]
  exact congrFun (congrArg Step.run (if_neg (Nat.ne_of_lt fewer))) c

/-! ### Waiting within a window -/

variable {moment : Moment} {rest : List (Moment × Arrival)} {bytes : Bytes} {words : String}

theorem capped_of_active (active : c.window.isActive = true) (deadline : Moment) :
    c.capped deadline = (deadline, false) := by
  unfold capped
  cases c.deadline with
  | none => rfl
  | some most => simp [active]

theorem fill_active (active : c.window.isActive = true) (deadline : Moment) :
    (fill deadline).run c = (do
      match ← orDrop (Line.read deadline false readChunk) with
      | .cancelled => honourCancel
      | .elapsed =>
        noteDeadline false
        return .elapsed
      | .ended =>
        drop
        throw .disconnected
      | .data bytes =>
        modify fun c => { c with input := c.input.put bytes }
        count fun s => { s with received := s.received + bytes.length }
        return .data : Step Channel Fill).run c := by
  unfold fill
  rw [Step.run_get_bind, capped_of_active active, active]
  rfl

theorem orDrop_error {α : Type} {x : Step Line α} {e : Fault} {line : Line} (h : x.run c.line = (.error e, line)) :
    (orDrop x).run c = (.error e, { c with line, connected := false }) := by
  unfold orDrop
  rw [Step.run_outcome_bind, onLine, Step.run_within, h]
  rfl

theorem fill_active_data (active : c.window.isActive = true) (ha : c.line.arrivals = (moment, .data bytes) :: rest)
    (timely : moment ≤ max c.now deadline) :
    ∃ handle cancels, (fill deadline).run c =
      (.ok .data, { c.filled moment bytes rest with
        line := { c.line.taken moment bytes rest readChunk with handle, cancels } }) := by
  obtain ⟨handle, cancels, read⟩ := Line.read_unhonoured_data readChunk ha timely
  refine ⟨handle, cancels, ?_⟩
  rw [fill_active active, Step.run_bind_of_ok (orDrop_ok read)]
  rfl

theorem fill_active_ended (active : c.window.isActive = true) (ha : c.line.arrivals = (moment, .ended) :: rest)
    (timely : moment ≤ max c.now deadline) : ∃ c', (fill deadline).run c = (.error .disconnected, c') := by
  obtain ⟨l', read⟩ := Line.read_unhonoured_ended readChunk ha timely
  rw [fill_active active, Step.run_bind_of_ok (orDrop_ok read)]
  exact ⟨_, rfl⟩

theorem fill_active_failure (active : c.window.isActive = true)
    (ha : c.line.arrivals = (moment, .failure words) :: rest) (timely : moment ≤ max c.now deadline) :
    ∃ c', (fill deadline).run c = (.error (.connection (.reported words)), c') := by
  obtain ⟨l', read⟩ := Line.read_unhonoured_failure readChunk ha timely
  rw [fill_active active, Step.run_bind_of_error (orDrop_error read)]
  exact ⟨_, rfl⟩

theorem fill_active_late (active : c.window.isActive = true)
    (late : ∀ a ∈ c.line.arrivals.head?, max c.now deadline < a.1) :
    ∃ c', (fill deadline).run c = (.ok .elapsed, c') ∧ c'.now = max c.now deadline := by
  obtain ⟨handle, cancels, read⟩ := Line.read_unhonoured_late readChunk late
  rw [fill_active active, Step.run_bind_of_ok (orDrop_ok read)]
  exact ⟨_, rfl, rfl⟩

/-! ## All rounds -/

/-- Each byte comes before the echo is given up, which is some time after the byte in front of it. -/
def EchoInTime (timeout : Duration) (now : Moment) (bytes : List Timed) : Prop :=
  InTime (fun _ now => now + timeout) (now + timeout) now bytes

instance (timeout : Duration) (now : Moment) (bytes : List Timed) : Decidable (EchoInTime timeout now bytes) :=
  inferInstanceAs (Decidable (InTime _ _ _ _))

section Chunk

variable {now : Moment} {chunk : Bytes} {later : List Timed}

theorem latest_chunk (some : chunk ≠ []) : latest now (chunk.map ((moment, ·))) = max now moment := by
  obtain ⟨b, tail, rfl⟩ := List.exists_cons_of_ne_nil some
  have come : ∀ x ∈ tail.map ((moment, ·)), x.1 ≤ max now moment := by
    intro x hx
    obtain ⟨y, -, rfl⟩ := List.mem_map.1 hx
    exact Nat.le_max_right _ _
  exact latest_of_le come

/-- The bytes of a chunk come together: from there on, what is behind them is waited for. -/
theorem latest_take_chunk (some : chunk ≠ []) {n : Nat} (positive : 0 < n) :
    latest now ((chunk.map ((moment, ·)) ++ later).take n) =
      latest (max now moment) (later.take (n - chunk.length)) := by
  have front : chunk.take n ≠ [] := by
    intro none
    rcases List.take_eq_nil_iff.1 none with zero | empty
    · exact Nat.ne_of_gt positive zero
    · exact some empty
  rw [List.take_append, latest_append, ← List.map_take, latest_chunk front, List.length_map]

theorem echoInTime_chunk (some : chunk ≠ []) (timely : EchoInTime timeout now (chunk.map ((moment, ·)) ++ later)) :
    moment ≤ max now (now + timeout) ∧ EchoInTime timeout (max now moment) later := by
  obtain ⟨b, tail, rfl⟩ := List.exists_cons_of_ne_nil some
  obtain ⟨first, next⟩ := timely
  have come : ∀ x ∈ tail.map ((moment, ·)), x.1 ≤ max now moment := by
    intro x hx
    obtain ⟨y, -, rfl⟩ := List.mem_map.1 hx
    exact Nat.le_max_right _ _
  exact ⟨first, (inTime_append rfl come).1 next⟩

end Chunk

/-- What the echo of sent bytes comes to on a channel that has bytes in its ring, gets others in pieces and something
else, or nothing, behind them. -/
structure Judged (sent : Bytes) (timeout : Duration) (c : Channel) (pieces : List (Moment × Bytes))
    (rest : List (Moment × Arrival)) (r : Except Fault Unit) (c' : Channel) : Prop where
  /-- They are heard: what is behind them is left, and no time was spent on waiting for it. -/
  whole : sent <+: c.input.toList ++ pieces.flatMap (·.2) → r = .ok () ∧
    c'.due.map (·.2) = (c.input.toList ++ pieces.flatMap (·.2)).drop sent.length ++ (Line.coming rest).map (·.2) ∧
    c'.now = latest c.now ((Line.timed pieces).take (sent.length - c.input.length))
  /-- Another byte is heard: that is found when it has come. -/
  differs : ∀ k, Bytes.DiffersAt sent (c.input.toList ++ pieces.flatMap (·.2)) k → r = .error .collision ∧
    c'.now = latest c.now ((Line.timed pieces).take (k + 1 - c.input.length))
  silent : c.input.toList ++ pieces.flatMap (·.2) <+: sent →
    (c.input.toList ++ pieces.flatMap (·.2)).length < sent.length →
    (∀ a ∈ rest.head?, latest c.now (Line.timed pieces) + timeout < a.1) →
    r = .error (.writeTimeout (c.input.toList ++ pieces.flatMap (·.2)).length) ∧
      c'.now = latest c.now (Line.timed pieces) + timeout
  closed : c.input.toList ++ pieces.flatMap (·.2) <+: sent →
    (c.input.toList ++ pieces.flatMap (·.2)).length < sent.length →
    ∀ a ∈ rest.head?, a.1 ≤ latest c.now (Line.timed pieces) + timeout → a.2 = .ended → r = .error .disconnected
  failed : c.input.toList ++ pieces.flatMap (·.2) <+: sent →
    (c.input.toList ++ pieces.flatMap (·.2)).length < sent.length →
    ∀ a ∈ rest.head?, a.1 ≤ latest c.now (Line.timed pieces) + timeout → ∀ words, a.2 = .failure words →
      r = .error (.connection (.reported words))

variable {pieces : List (Moment × Bytes)} {r : Except Fault Unit} {c' : Channel}

/-- All of them are in the ring. -/
theorem judged_whole (arrivals : c.line.arrivals = Line.delivered pieces rest) (whole : sent <+: c.input.toList) :
    Judged sent timeout c pieces rest (.ok ()) { c with input := c.input.discard sent.length } := by
  have enough : sent.length ≤ c.input.length := by
    rw [← Ring.length_toList]
    exact whole.length_le
  have there : sent <+: c.input.toList ++ pieces.flatMap (·.2) := whole.trans (List.prefix_append _ _)
  refine ⟨fun _ => ⟨rfl, ?_, ?_⟩, fun k differs => absurd there differs.not_whole,
    fun _ fewer => ?_, fun _ fewer => ?_, fun _ fewer => ?_⟩
  · rw [bytes_due, Ring.toList_discard, arrivals, Line.coming_delivered, List.map_append, Line.map_timed,
      ← List.append_assoc, List.drop_append_of_le_length (by rwa [Ring.length_toList])]
  · rw [Nat.sub_eq_zero_of_le enough]
    rfl
  all_goals exact absurd there.length_le (Nat.not_le_of_lt fewer)

/-- The ring differs already. -/
theorem judged_differs {k : Nat} (differs : Bytes.DiffersAt sent c.input.toList k) (same : c'.now = c.now) :
    Judged sent timeout c pieces rest (.error .collision) c' := by
  have there := differs.append (pieces.flatMap (·.2))
  have held : k + 1 ≤ c.input.length := by
    rw [← Ring.length_toList]
    exact differs.2.1
  refine ⟨fun whole => absurd whole there.not_whole, fun k' differs' => ⟨rfl, ?_⟩,
    fun part => absurd part there.not_part, fun part => absurd part there.not_part,
    fun part => absurd part there.not_part⟩
  rw [← there.unique differs', Nat.sub_eq_zero_of_le held, same]
  rfl

/-- The ring falls short, and a first piece comes: what is judged then is judged of the whole. -/
theorem Judged.earlier {c₁ : Channel} {most : Nat} (positive : 0 < most) (some : bytes ≠ [])
    (part : c.input.toList <+: sent) (fewer : c.input.length < sent.length) (moved : c₁.now = max c.now moment)
    (grown : c₁.input.toList = c.input.toList ++ bytes.take most)
    (h : Judged sent timeout c₁ (Line.behindRead most moment bytes pieces) rest r c') :
    Judged sent timeout c ((moment, bytes) :: pieces) rest r c' := by
  have chunk : bytes.take most ≠ [] := by
    intro none
    rcases List.take_eq_nil_iff.1 none with zero | empty
    · exact Nat.ne_of_gt positive zero
    · exact some empty
  have size : c₁.input.length = c.input.length + (bytes.take most).length := by
    rw [← Ring.length_toList, grown, List.length_append, Ring.length_toList]
  have heard : c₁.input.toList ++ (Line.behindRead most moment bytes pieces).flatMap (·.2) =
      c.input.toList ++ ((moment, bytes) :: pieces).flatMap (·.2) := by
    rw [grown, List.append_assoc, Line.flatMap_behindRead, List.flatMap_cons]
  have upTo {n : Nat} (more : c.input.length < n) :
      latest c₁.now ((Line.timed (Line.behindRead most moment bytes pieces)).take (n - c₁.input.length)) =
        latest c.now ((Line.timed ((moment, bytes) :: pieces)).take (n - c.input.length)) := by
    rw [Line.timed_behindRead most, latest_take_chunk chunk (Nat.sub_pos_of_lt more), moved, size, Nat.sub_sub]
  have last : latest c₁.now (Line.timed (Line.behindRead most moment bytes pieces)) =
      latest c.now (Line.timed ((moment, bytes) :: pieces)) := by
    rw [Line.timed_behindRead most, latest_append, latest_chunk chunk, moved]
  refine ⟨fun whole => ?_, fun k differs => ?_, ?_, ?_, ?_⟩
  · rw [← upTo fewer, ← heard]
    exact h.whole (heard ▸ whole)
  · have behind : ¬ k < c.input.length := by
      intro inside
      rw [← Ring.length_toList] at inside
      refine differs.take_ne inside ?_
      rw [List.take_left]
      exact List.prefix_iff_eq_take.1 part
    rw [← upTo (Nat.lt_succ_of_le (Nat.le_of_not_lt behind))]
    exact h.differs k (heard ▸ differs)
  all_goals rw [← last, ← heard]
  · exact h.silent
  · exact h.closed
  · exact h.failed

/-- A round that falls short goes on with the next piece. -/
theorem echoRound_more (timeout : Duration) (active : c.window.isActive = true) (part : c.input.toList <+: sent)
    (fewer : c.input.length < sent.length) (ha : c.line.arrivals = (moment, .data bytes) :: rest)
    (timely : moment ≤ max c.now deadline) :
    ∃ c₁, (echoRound sent timeout deadline).run c = (.ok (.inl (c₁.now + timeout)), c₁) ∧
      c₁.window.isActive = true ∧ c₁.now = max c.now moment ∧
      c₁.input.toList = c.input.toList ++ bytes.take readChunk ∧
      c₁.line.arrivals = (c.line.taken moment bytes rest readChunk).arrivals := by
  obtain ⟨handle, cancels, filled⟩ := fill_active_data active ha timely
  rw [echoRound_part part fewer, Step.run_bind_of_ok filled]
  exact ⟨_, rfl, active, rfl, Ring.toList_put _ _, rfl⟩

/-- How a round ends that falls short and meets what stands behind the pieces. -/
theorem echoRound_short (timeout : Duration) (active : c.window.isActive = true) (part : c.input.toList <+: sent)
    (fewer : c.input.length < sent.length) :
    ((∀ a ∈ c.line.arrivals.head?, c.now + timeout < a.1) → ∃ c',
      (echoRound sent timeout (c.now + timeout)).run c = (.error (.writeTimeout c.input.length), c') ∧
        c'.now = c.now + timeout) ∧
    ∀ a ∈ c.line.arrivals.head?, a.1 ≤ c.now + timeout →
      (a.2 = .ended → ∃ c', (echoRound sent timeout (c.now + timeout)).run c = (.error .disconnected, c')) ∧
      ∀ words, a.2 = .failure words →
        ∃ c', (echoRound sent timeout (c.now + timeout)).run c = (.error (.connection (.reported words)), c') := by
  have ahead : max c.now (c.now + timeout) = c.now + timeout := Nat.max_eq_right (Nat.le_add_right _ _)
  rw [echoRound_part part fewer]
  refine ⟨fun late => ?_, fun a first timely => ?_⟩
  · rw [← ahead] at late
    obtain ⟨c', filled, moved⟩ := fill_active_late active late
    rw [Step.run_bind_of_ok filled]
    exact ⟨c', rfl, moved.trans ahead⟩
  · rw [← ahead] at timely
    obtain ⟨moment, item⟩ := a
    obtain ⟨rest, arrivals⟩ := List.head?_eq_some_iff.1 first
    refine ⟨?_, ?_⟩
    · rintro rfl
      obtain ⟨c', filled⟩ := fill_active_ended active arrivals timely
      exact ⟨c', Step.run_bind_of_error filled⟩
    · rintro words rfl
      obtain ⟨c', filled⟩ := fill_active_failure active arrivals timely
      exact ⟨c', Step.run_bind_of_error filled⟩

/-- The ring falls short, and no piece is left. -/
theorem judged_short (active : c.window.isActive = true) (part : c.input.toList <+: sent)
    (fewer : c.input.length < sent.length) (fuel : Nat) :
    Judged sent timeout c [] c.line.arrivals
      ((Step.repeatUpTo (echoRound sent timeout) (fuel + 1) (c.now + timeout)).run c).1
      ((Step.repeatUpTo (echoRound sent timeout) (fuel + 1) (c.now + timeout)).run c).2 := by
  obtain ⟨silent, met⟩ := echoRound_short timeout active part fewer
  have nothing : c.input.toList ++ ([] : List (Moment × Bytes)).flatMap (·.2) = c.input.toList := List.append_nil _
  unfold Step.repeatUpTo
  refine ⟨fun whole => ?_, fun k differs => ?_, fun _ _ late => ?_, fun _ _ a first timely ended => ?_,
    fun _ _ a first timely words failed => ?_⟩
  · rw [nothing] at whole
    rw [← Ring.length_toList] at fewer
    exact absurd whole.length_le (Nat.not_le_of_lt fewer)
  · rw [nothing] at differs
    exact absurd part differs.not_part
  · obtain ⟨c', round, moved⟩ := silent late
    rw [Step.run_bind_of_error round, nothing, Ring.length_toList]
    exact ⟨rfl, moved⟩
  · obtain ⟨c', round⟩ := (met a first timely).1 ended
    rw [Step.run_bind_of_error round]
  · obtain ⟨c', round⟩ := (met a first timely).2 words failed
    rw [Step.run_bind_of_error round]

/-- **The echo is judged by what is heard.** -/
theorem echoRounds_judged (active : c.window.isActive = true) (arrivals : c.line.arrivals = Line.delivered pieces rest)
    (some : ∀ p ∈ pieces, p.2 ≠ []) (timely : EchoInTime timeout c.now (Line.timed pieces)) {fuel : Nat}
    (enough : c.line.waiting < fuel) :
    Judged sent timeout c pieces rest ((Step.repeatUpTo (echoRound sent timeout) fuel (c.now + timeout)).run c).1
      ((Step.repeatUpTo (echoRound sent timeout) fuel (c.now + timeout)).run c).2 := by
  -- each round that goes on has taken at least a byte, so the bound of the loop is not met
  induction fuel generalizing c pieces with
  | zero => exact absurd enough (Nat.not_lt_zero _)
  | succ fuel ih =>
    rcases Bytes.heard_cases sent c.input.toList with whole | ⟨k, differs⟩ | ⟨part, fewer⟩
    · unfold Step.repeatUpTo
      rw [Step.run_bind_of_ok (echoRound_whole whole timeout _)]
      exact judged_whole arrivals whole
    · obtain ⟨c', round, same⟩ := echoRound_differs differs timeout (c.now + timeout)
      unfold Step.repeatUpTo
      rw [Step.run_bind_of_error round]
      exact judged_differs differs same
    · rw [Ring.length_toList] at fewer
      cases pieces with
      | nil =>
        obtain rfl : c.line.arrivals = rest := arrivals
        exact judged_short active part fewer fuel
      | cons p pieces =>
        obtain ⟨moment, bytes⟩ := p
        have here : bytes ≠ [] := some _ List.mem_cons_self
        have chunk : bytes.take readChunk ≠ [] := by
          intro none
          rcases List.take_eq_nil_iff.1 none with zero | empty
          · cases zero
          · exact here empty
        rw [Line.timed_behindRead readChunk] at timely
        obtain ⟨soon, later⟩ := echoInTime_chunk chunk timely
        obtain ⟨c₁, round, active₁, moved, grown, arrivals₁⟩ :=
          echoRound_more timeout active part fewer arrivals soon
        have less : c₁.line.waiting < fuel := by
          have taken := Line.waiting_taken arrivals readChunk
          have positive := List.length_pos_iff.2 chunk
          have same : c₁.line.waiting = (c.line.taken moment bytes (Line.delivered pieces rest) readChunk).waiting := by
            unfold Line.waiting
            rw [arrivals₁]
            rfl
          refine Nat.lt_of_lt_of_le ?_ (Nat.le_of_lt_succ enough)
          rw [same, ← taken]
          exact Nat.lt_add_of_pos_right positive
        unfold Step.repeatUpTo
        rw [Step.run_bind_of_ok round]
        refine Judged.earlier (Nat.succ_pos _) here part fewer moved grown ?_
        rw [← moved] at later
        exact ih active₁ (arrivals₁.trans (Line.arrivals_taken readChunk _ _ _ _ _))
          (Line.behindRead_some readChunk (fun p hp => some p (List.mem_cons_of_mem _ hp)) _ _) later less

theorem checkEcho_judged (sent : Bytes) (active : c.window.isActive = true)
    (arrivals : c.line.arrivals = Line.delivered pieces rest)
    (some : ∀ p ∈ pieces, p.2 ≠ []) (timely : EchoInTime timeout c.now (Line.timed pieces)) :
    Judged sent timeout c pieces rest ((checkEcho sent timeout).run c).1 ((checkEcho sent timeout).run c).2 := by
  unfold checkEcho rounds
  rw [Step.run_get_bind, Step.run_get_bind]
  exact echoRounds_judged active arrivals some timely (Nat.lt_succ_self c.line.waiting)

/-! ## Verdicts -/

/-- Too little is heard, and no data follow in time. -/
theorem Judged.short (h : Judged sent timeout c pieces rest r c')
    (last : ∀ a ∈ rest.head?, a.1 ≤ latest c.now (Line.timed pieces) + timeout → ∀ bytes, a.2 ≠ .data bytes)
    (part : c.input.toList ++ pieces.flatMap (·.2) <+: sent)
    (fewer : (c.input.toList ++ pieces.flatMap (·.2)).length < sent.length) :
    ∃ e, r = .error e ∧ e ≠ .collision := by
  by_cases late : ∀ a ∈ rest.head?, latest c.now (Line.timed pieces) + timeout < a.1
  · exact ⟨_, (h.silent part fewer late).1, nofun⟩
  · push Not at late
    obtain ⟨⟨moment, item⟩, first, soon⟩ := late
    cases item with
    | data bytes => exact absurd rfl (last _ first soon bytes)
    | ended => exact ⟨_, h.closed part fewer _ first soon rfl, nofun⟩
    | failure words => exact ⟨_, h.failed part fewer _ first soon words rfl, nofun⟩

/-- The verdict tells the three cases of what is heard apart. -/
theorem Judged.verdict (h : Judged sent timeout c pieces rest r c')
    (last : ∀ a ∈ rest.head?, a.1 ≤ latest c.now (Line.timed pieces) + timeout → ∀ bytes, a.2 ≠ .data bytes) :
    (r = .ok () ↔ sent <+: c.input.toList ++ pieces.flatMap (·.2)) ∧
      (r = .error .collision ↔ ∃ k, Bytes.DiffersAt sent (c.input.toList ++ pieces.flatMap (·.2)) k) := by
  rcases Bytes.heard_cases sent (c.input.toList ++ pieces.flatMap (·.2)) with whole | ⟨k, differs⟩ | ⟨part, fewer⟩
  · obtain rfl := (h.whole whole).1
    exact ⟨iff_of_true rfl whole, iff_of_false nofun fun ⟨_, differs⟩ => differs.not_whole whole⟩
  · obtain rfl := (h.differs k differs).1
    exact ⟨iff_of_false nofun differs.not_whole, iff_of_true rfl ⟨k, differs⟩⟩
  · obtain ⟨e, rfl, other⟩ := h.short last part fewer
    refine ⟨iff_of_false nofun fun whole => ?_, iff_of_false (fun eq => other (Except.error.inj eq)) ?_⟩
    · exact Nat.not_le_of_lt fewer whole.length_le
    · rintro ⟨k, differs⟩
      exact differs.not_part part

/-! ## Up to the echo -/

/-- All of a write but its echo: the bytes are handed to the line, and its window is open. -/
def handOver (bytes : Bytes) (timeout : Duration) : Step Channel Nat := do
  ensureConnected
  checkCancelled
  modify fun c => { c with window := c.window.enter }
  let deadline := (← get).now + timeout
  let written ← Step.repeatUpTo (writeRound deadline) (bytes.length + 1) (bytes, 0)
  if !(← onLine (Line.flush (some deadline))) then throw (.writeTimeout written)
  count fun s => { s with sent := s.sent + bytes.length }
  return written

/-- How long the echo of a write may be silent. -/
def echoTimeout (c : Channel) (timeout : Duration) : Duration :=
  if c.intercharacter = 0 then timeout else c.intercharacter

/-- What handing bytes to the line leaves alone. -/
def bystanders (c : Channel) : Ring × Duration × Window × Bool := (c.input, c.intercharacter, c.window, c.line.echoes)

theorem onLine_bystanders {α : Type} {x : Step Line α} (h : Moves (Same Line.echoes) x) :
    Moves (Same bystanders) (onLine x) :=
  h.within fun c _ same => congrArg (c.input, c.intercharacter, c.window, ·) same

theorem orDrop_bystanders {α : Type} {x : Step Line α} (h : Moves (Same Line.echoes) x) :
    Moves (Same bystanders) (orDrop x) := by
  refine .bind (.outcome (onLine_bystanders h)) fun r => ?_
  cases r with
  | ok a => exact .pure _
  | error e => exact .bind (.modify fun _ => rfl) fun _ => .throw _

theorem writeRound_bystanders (deadline : Moment) (p : Bytes × Nat) :
    Moves (Same bystanders) (writeRound deadline p) := by
  refine .ite (.pure _) (.bind (orDrop_bystanders (Line.write_echoes _ _)) fun taken => ?_)
  match taken with
  | none => exact .throw _
  | some 0 => exact .bind (.modify fun _ => rfl) fun _ => .throw _
  | some (n + 1) => exact .pure _

/-- When the bytes are with the line, the ring is as before, and the window of the write is open. -/
theorem handOver_ok {n : Nat} {c₁ : Channel} (h : (handOver sent timeout).run c = (.ok n, c₁)) :
    c₁.bystanders = (c.input, c.intercharacter, c.window.enter, c.line.echoes) := by
  have connected : Moves (Same bystanders) ensureConnected := .bind .get fun _ => .ite (.throw _) (.pure _)
  have checked : Moves (Same bystanders) checkCancelled :=
    .bind .get fun _ => .ite (.bind (.modify fun _ => rfl) fun _ => .throw _) (.pure _)
  have handed : Moves (Same bystanders) (do
      let deadline := (← get).now + timeout
      let written ← Step.repeatUpTo (writeRound deadline) (sent.length + 1) (sent, 0)
      if !(← onLine (Line.flush (some deadline))) then throw (.writeTimeout written)
      count fun s => { s with sent := s.sent + sent.length }
      return written : Step Channel Nat) :=
    .bind .get fun _ => .bind (.repeatUpTo (writeRound_bystanders _) _ _) fun _ =>
      .bind (onLine_bystanders (Line.flush_echoes _)) fun _ =>
        .ite (.throw_bind _ _) (.bind (.modify fun _ => rfl) fun _ => .pure _)
  obtain ⟨_, ca, first, h⟩ := Step.run_bind_ok.1 h
  obtain ⟨_, cb, second, h⟩ := Step.run_bind_ok.1 h
  rw [Step.run_modify_bind] at h
  have same : cb.bystanders = c.bystanders := (checked.of_run second).trans (connected.of_run first)
  obtain ⟨input, same⟩ := Prod.mk.inj same
  obtain ⟨intercharacter, same⟩ := Prod.mk.inj same
  obtain ⟨window, echoes⟩ := Prod.mk.inj same
  refine (handed.of_run h).trans ?_
  show (cb.input, cb.intercharacter, cb.window.enter, cb.line.echoes) = _
  rw [input, intercharacter, window, echoes]

/-- From there on, a write is the reading of its echo. -/
theorem write_of_handOver {n : Nat} {c₁ : Channel} (h : (handOver sent timeout).run c = (.ok n, c₁))
    (echoes : c.line.echoes = true) :
    (write sent timeout).run c =
      (((checkEcho sent (c.echoTimeout timeout)).run c₁).1.map fun _ => n,
        { ((checkEcho sent (c.echoTimeout timeout)).run c₁).2 with
          window := ((checkEcho sent (c.echoTimeout timeout)).run c₁).2.window.leave }) := by
  have same := handOver_ok h
  obtain ⟨-, same⟩ := Prod.mk.inj same
  obtain ⟨intercharacter, same⟩ := Prod.mk.inj same
  obtain ⟨-, heard⟩ := Prod.mk.inj same
  rw [echoes] at heard
  obtain ⟨_, ca, connected, h⟩ := Step.run_bind_ok.1 h
  obtain ⟨_, cb, checked, h⟩ := Step.run_bind_ok.1 h
  rw [Step.run_modify_bind, Step.run_get_bind] at h
  obtain ⟨written, cc, wrote, h⟩ := Step.run_bind_ok.1 h
  obtain ⟨timely, cd, flushed, h⟩ := Step.run_bind_ok.1 h
  cases timely with
  | false => exact absurd h (by simp)
  | true =>
    rw [Bool.not_true, if_neg Bool.false_ne_true] at h
    obtain ⟨_, ce, counted, h⟩ := Step.run_bind_ok.1 h
    obtain ⟨ok, rfl⟩ := Prod.mk.inj h
    obtain rfl := Except.ok.inj ok
    have transmitted : (transmit sent timeout).run { cb with window := cb.window.enter } =
        (((checkEcho sent (c.echoTimeout timeout)).run ce).1.map fun _ => written,
          ((checkEcho sent (c.echoTimeout timeout)).run ce).2) := by
      unfold transmit
      rw [Step.run_get_bind]
      dsimp only
      rw [Step.run_bind_of_ok wrote, Step.run_bind_of_ok flushed, Bool.not_true, if_neg Bool.false_ne_true,
        Step.run_bind_of_ok counted, Step.run_get_bind, if_pos heard, intercharacter, ← echoTimeout, Step.run_bind]
      rcases (checkEcho sent (c.echoTimeout timeout)).run ce with ⟨r, c'⟩
      cases r <;> rfl
    unfold write
    rw [Step.run_bind_of_ok connected, Step.run_bind_of_ok checked, inWindow, Step.run_modify_bind,
      Step.run_outcome_bind, Step.run_modify_bind, transmitted, Step.run_ofExcept]

/-- **The echo of a write decides how it ends.** Once its bytes are with the line, let a medium that echoes give, after
what waits in the ring, bytes in pieces, each of them before the echo is given up, and behind them nothing in time, the
end or a failure. The write succeeds exactly if these bytes begin with those sent, and what stands behind those is left
to be read. It is a collision exactly if they differ somewhere, and that is found at the moment the other byte comes. If
they are too few, it is told how many they were when silence follows, and that the far end is gone when that has closed.

Nothing is supposed of requests to stop, those made before or those that fall due meanwhile, nor of the deadline of the
channel: a write is within its window. -/
theorem write_echo {n : Nat} {c₁ : Channel} (handed : (handOver sent timeout).run c = (.ok n, c₁))
    (echoes : c.line.echoes = true) (arrivals : c₁.line.arrivals = Line.delivered pieces rest)
    (some : ∀ p ∈ pieces, p.2 ≠ []) (timely : EchoInTime (c.echoTimeout timeout) c₁.now (Line.timed pieces))
    (last : ∀ a ∈ rest.head?, a.1 ≤ latest c₁.now (Line.timed pieces) + c.echoTimeout timeout →
      ∀ bytes, a.2 ≠ .data bytes) :
    let heard := c.input.toList ++ pieces.flatMap (·.2)
    let ending := (write sent timeout).run c
    ((∃ m, ending.1 = .ok m) ↔ sent <+: heard) ∧
    (sent <+: heard →
      ending.2.due.map (·.2) = heard.drop sent.length ++ (Line.coming rest).map (·.2) ∧
      ending.2.now = latest c₁.now ((Line.timed pieces).take (sent.length - c.input.length))) ∧
    (ending.1 = .error .collision ↔ ∃ k, Bytes.DiffersAt sent heard k) ∧
    (∀ k, Bytes.DiffersAt sent heard k →
      ending.2.now = latest c₁.now ((Line.timed pieces).take (k + 1 - c.input.length))) ∧
    (heard <+: sent → heard.length < sent.length →
      ((∀ a ∈ rest.head?, latest c₁.now (Line.timed pieces) + c.echoTimeout timeout < a.1) →
        ending.1 = .error (.writeTimeout heard.length)) ∧
      ∀ a ∈ rest.head?, a.1 ≤ latest c₁.now (Line.timed pieces) + c.echoTimeout timeout →
        (a.2 = .ended → ending.1 = .error .disconnected) ∧
        ∀ words, a.2 = .failure words → ending.1 = .error (.connection (.reported words))) := by
  have same := handOver_ok handed
  obtain ⟨input, same⟩ := Prod.mk.inj same
  obtain ⟨-, same⟩ := Prod.mk.inj same
  obtain ⟨window, -⟩ := Prod.mk.inj same
  have active : c₁.window.isActive = true := by rw [window, Window.isActive_enter]
  have judged := checkEcho_judged sent active arrivals some timely
  rcases echo : (checkEcho sent (c.echoTimeout timeout)).run c₁ with ⟨r, c'⟩
  rw [echo] at judged
  have verdict := judged.verdict last
  obtain ⟨whole, differs, silent, closed, failed⟩ := judged
  rw [input] at verdict whole differs silent closed failed
  dsimp only
  rw [write_of_handOver handed echoes, echo]
  have ok : (∃ m, (r.map fun _ => n) = .ok m) ↔ r = .ok () := by
    cases r with
    | ok u => exact iff_of_true ⟨n, rfl⟩ rfl
    | error e => exact iff_of_false nofun nofun
  have error {e : Fault} : (r.map fun _ => n) = .error e ↔ r = .error e := by
    cases r with
    | ok u => exact iff_of_false nofun nofun
    | error e' => exact ⟨fun eq => congrArg _ (Except.error.inj eq), fun eq => congrArg _ (Except.error.inj eq)⟩
  refine ⟨ok.trans verdict.1, fun there => (whole there).2, error.trans verdict.2, fun k other => (differs k other).2,
    fun part fewer => ⟨fun late => error.2 (silent part fewer late).1, fun a first soon => ?_⟩⟩
  exact ⟨fun ended => error.2 (closed part fewer a first soon ended),
    fun words failure => error.2 (failed part fewer a first soon words failure)⟩

/-- A channel that hears part of what it writes too early and the rest late, with a byte of another station behind it,
while a request to stop falls due and its deadline has passed. -/
def overhearing : Channel :=
  { line := {
      echoes := true
      now := 20
      arrivals := [(25, .data [0x61]), (90, .data [0x62, 0x7F]), (400, .ended)]
      cancels := [30] }
    connected := true
    input := (Ring.withCapacity 2).put [0x60]
    intercharacter := 80
    deadline := some 10 }

theorem write_echo_overhearing :
    (∃ m, ((write [0x60, 0x61, 0x62] 50).run overhearing).1 = .ok m) ∧
      ((write [0x60, 0x61, 0x62] 50).run overhearing).2.due.map (·.2) = [0x7F] ∧
      ((write [0x60, 0x61, 0x62] 50).run overhearing).2.now = 90 := by
  have handed : (handOver [0x60, 0x61, 0x62] 50).run overhearing = (.ok 3, { overhearing with
      line := { overhearing.line with history := [(20, .message [0x60, 0x61, 0x62])] }
      window := ⟨1⟩
      statistics := { sent := 3 } }) := rfl
  have behind : ∀ a ∈ [(400, Arrival.ended)].head?, a.1 ≤ 90 + 80 → ∀ bytes, a.2 ≠ .data bytes := by
    intro a first
    obtain rfl := Option.some.inj first
    nofun
  have whole : [0x60, 0x61, 0x62] <+: overhearing.input.toList ++ [(25, [0x61]), (90, [0x62, 0x7F])].flatMap (·.2) := by
    decide
  have arrivals : overhearing.line.arrivals = Line.delivered [(25, [0x61]), (90, [0x62, 0x7F])] [(400, .ended)] := rfl
  obtain ⟨ok, left, -⟩ := write_echo handed rfl arrivals (by decide) (by decide) behind
  exact ⟨ok.2 whole, left whole⟩

end Channel

end Metering
