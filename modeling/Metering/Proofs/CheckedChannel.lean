import Metering.Proofs.CheckedRing
import Metering.Proofs.Feed

set_option autoImplicit false

/-! # Reading from a channel does not trap

The loops of a channel move what arrives into its ring and count it. A read asks for so few bytes that the ring
stays small whatever arrives (`Channel.Spends`), so all that is needed is a ring in memory and counters that have
room (`Channel.Room`). The clock is not counted on. -/

namespace Metering

open Checked
open Step (Moves Same)

/-! ## What a read takes from the line -/

namespace Line

theorem waitFor_waiting (arrival : Option Moment) (deadline : Moment) (honour : Bool) (l : Line) :
    (l.waitFor arrival deadline honour).2.waiting = l.waiting := by
  unfold waitFor
  extract_lets target due
  split
  · rfl
  split
  · rfl
  split
  · rfl
  split <;> rfl

theorem takeArrival_waiting (most : Nat) (l : Line) :
    ((takeArrival most).run l).2.waiting + (Heard.bytes ((takeArrival most).run l).1).length = l.waiting ∧
      (Heard.bytes ((takeArrival most).run l).1).length ≤ most := by
  unfold takeArrival
  rw [Step.run_get_bind]
  split
  next => exact ⟨rfl, Nat.zero_le _⟩
  next moment bytes rest arrivals =>
    exact ⟨waiting_taken arrivals most, List.length_take_le _ _⟩
  next => exact ⟨rfl, Nat.zero_le _⟩
  next words rest arrivals =>
    refine ⟨?_, Nat.zero_le _⟩
    unfold waiting
    rw [arrivals]
    exact (Nat.zero_add _).symm

/-- What a read gives was to be heard, and it is no more than was asked for. -/
theorem read_waiting (deadline : Moment) (honour : Bool) (most : Nat) (l : Line) :
    ((read deadline honour most).run l).2.waiting + (Heard.bytes ((read deadline honour most).run l).1).length =
        l.waiting ∧
      (Heard.bytes ((read deadline honour most).run l).1).length ≤ most := by
  have waited := waitFor_waiting l.nextArrival? deadline honour l
  unfold read
  rw [Step.run_get_bind, await]
  rcases hw : l.waitFor l.nextArrival? deadline honour with ⟨wake, t⟩
  rw [hw] at waited
  dsimp only at waited ⊢
  rw [← waited]
  cases wake with
  | cancelled => exact ⟨rfl, Nat.zero_le _⟩
  | elapsed => exact ⟨rfl, Nat.zero_le _⟩
  | arrived => exact takeArrival_waiting most t

end Line

namespace Channel

variable {α β σ : Type} {c c' c'' : Channel} {k n : Nat}

/-! ## What reading costs -/

/-- The most bytes that are waited for at once: those behind a header that announces as many as it can. -/
def mostWanted : Nat := 0xFFFF + 2

/-- The largest capacity that a ring has to grow to. -/
def mostHeld : Nat := 2 * (mostWanted + readChunk)

/-- Between two states of a channel no byte came to be that was not to come, every byte that was taken from the line
is counted once at most, and so are `n` timeouts. A ring that grew is small. -/
structure Spends (n : Nat) (c c' : Channel) : Prop where
  left : c'.left ≤ c.left
  received : c'.statistics.received + c'.line.waiting ≤ c.statistics.received + c.line.waiting
  timeouts : c'.statistics.readTimeouts ≤ c.statistics.readTimeouts + n
  capacity : c'.input.capacity ≤ max c.input.capacity mostHeld

namespace Spends

theorem refl (c : Channel) : Spends 0 c c :=
  ⟨Nat.le_refl _, Nat.le_refl _, Nat.le_refl _, Nat.le_max_left _ _⟩

theorem trans (h : Spends k c c') (h' : Spends n c' c'') : Spends (k + n) c c'' where
  left := Nat.le_trans h'.left h.left
  received := Nat.le_trans h'.received h.received
  timeouts := by
    have := h.timeouts
    have := h'.timeouts
    omega
  capacity := by
    have := h.capacity
    have := h'.capacity
    omega

theorem le (h : Spends k c c') (less : k ≤ n) : Spends n c c' :=
  ⟨h.left, h.received, Nat.le_trans h.timeouts (Nat.add_le_add_left less _), h.capacity⟩

/-- With the line as far as it was, the counters as they were, and bytes gone from the ring at most. -/
theorem of_same (waiting : c'.line.waiting = c.line.waiting) (statistics : c'.statistics = c.statistics)
    (length : c'.input.length ≤ c.input.length) (capacity : c'.input.capacity = c.input.capacity) : Spends 0 c c' where
  left := by
    unfold Channel.left
    omega
  received := Nat.le_of_eq (by rw [waiting, statistics])
  timeouts := Nat.le_of_eq (congrArg ChannelStatistics.readTimeouts statistics)
  capacity := by rw [capacity]; exact Nat.le_max_left _ _

end Spends

/-- From a state the step costs a timeout at most, and only if it fails. The channel is found by `view`. -/
def Charges (view : σ → Channel) (s : σ) (x : Step σ α) : Prop :=
  match x.run s with
  | (.ok _, t) => Spends 0 (view s) (view t)
  | (.error _, t) => Spends 1 (view s) (view t)

namespace Charges

variable {view : σ → Channel} {s t : σ} {x : Step σ α} {f : α → Step σ β}

theorem ok {a : α} (h : Charges view s x) (run : x.run s = (.ok a, t)) : Spends 0 (view s) (view t) := by
  rwa [Charges, run] at h

theorem once (h : Charges view s x) : Spends 1 (view s) (view (x.run s).2) := by
  unfold Charges at h
  rcases run : x.run s with ⟨e | a, t⟩ <;> rw [run] at h
  · exact h
  · exact h.le (Nat.zero_le 1)

theorem of_free (h : Spends 0 (view s) (view (x.run s).2)) : Charges view s x := by
  unfold Charges
  rcases run : x.run s with ⟨e | a, t⟩ <;> rw [run] at h
  · exact h.le (Nat.zero_le 1)
  · exact h

/-- A fault that costs a timeout. -/
theorem of_fault (h : Spends 1 (view s) (view (x.run s).2)) (fails : ∀ a t, x.run s ≠ (.ok a, t)) : Charges view s x := by
  unfold Charges
  rcases run : x.run s with ⟨e | a, t⟩
  · rwa [run] at h
  · exact absurd run (fails a t)

theorem of_same (h : Moves (Same view) x) : Charges view s x := by
  have same : view (x.run s).2 = view s := h s
  refine of_free ?_
  rw [same]
  exact Spends.refl _

theorem pure (a : α) : Charges view s (Pure.pure a) := of_same (.pure a)

theorem throw (e : Fault) : Charges view s (MonadExcept.throw e : Step σ α) := of_same (.throw e)

theorem get_bind {f : σ → Step σ α} (h : Charges view s (f s)) : Charges view s (get >>= f) := h

/-- A step that does what another one does after something that is free. -/
theorem of_run {y : Step σ α} (free : Spends 0 (view s) (view t)) (h : Charges view t x) (same : y.run s = x.run t) :
    Charges view s y := by
  unfold Charges at *
  rw [same]
  rcases run : x.run t with ⟨e | a, u⟩ <;> rw [run] at h
  · exact free.trans h
  · exact free.trans h

/-- What follows in a row may go by the state that was reached. -/
theorem bind (hx : Charges view s x) (hf : ∀ a t, x.run s = (.ok a, t) → Charges view t (f a)) :
    Charges view s (x >>= f) := by
  rcases run : x.run s with ⟨e | a, t⟩
  · unfold Charges at *
    rw [run] at hx
    rw [Step.run_bind_of_error run]
    exact hx
  · exact of_run (hx.ok run) (hf a t run) (Step.run_bind_of_ok run)

/-- What follows a fault costs nothing and fails as well. -/
theorem outcome_bind {f : Except Fault α → Step σ β} (hx : Charges view s x) (hok : ∀ a t, Charges view t (f (.ok a)))
    (free : ∀ e t, Spends 0 (view t) (view ((f (.error e)).run t).2))
    (fails : ∀ e t b u, (f (.error e)).run t ≠ (.ok b, u)) : Charges view s (x.outcome >>= f) := by
  rcases run : x.run s with ⟨e | a, t⟩
  · have spent := hx.once
    rw [run] at spent
    refine of_fault ?_ fun b u => ?_ <;> rw [Step.run_outcome_bind, run]
    · exact spent.trans (free e t)
    · exact fails e t b u
  · exact of_run (hx.ok run) (hok a t) (by rw [Step.run_outcome_bind, run])

theorem repeatUpTo {next : α → Step σ (α ⊕ β)} (h : ∀ a t, Charges view t (next a)) (fuel : Nat) (a : α) :
    Charges view s (Step.repeatUpTo next fuel a) := by
  induction fuel generalizing a s with
  | zero => exact throw _
  | succ fuel ih =>
    refine bind (h a s) fun r t _ => ?_
    cases r with
    | inl a => exact ih a
    | inr b => exact pure b

end Charges

/-! ### Waiting for the line -/

theorem ensureConnected_charges : Charges id c ensureConnected :=
  .of_same (.bind .get fun _ => .ite (.throw _) (.pure _))

/-- Counting a timeout costs it. -/
theorem failTimeout_charges (bytesRead : Nat) : Charges id c (failTimeout bytesRead : Step Channel α) := by
  refine .of_fault ⟨Nat.le_refl _, Nat.le_refl _, Nat.le_refl _, Nat.le_max_left _ _⟩ fun a t run => ?_
  obtain ⟨_, _, _, run⟩ := Step.run_bind_ok.1 run
  exact absurd run Step.run_throw_ne_ok

/-- What a read of the line gives was to be heard, and the rest of the channel stays. -/
theorem orDrop_read {deadline : Moment} {honour : Bool} {r : Except Fault Line.Heard}
    (run : (orDrop (Line.read deadline honour readChunk)).run c = (r, c')) :
    c'.line.waiting + (Line.Heard.bytes r).length = c.line.waiting ∧ (Line.Heard.bytes r).length ≤ readChunk ∧
      c'.input = c.input ∧ c'.statistics = c.statistics := by
  obtain ⟨taken, most⟩ := Line.read_waiting deadline honour readChunk c.line
  unfold orDrop at run
  rw [Step.run_outcome_bind, onLine, Step.run_within] at run
  rcases read : (Line.read deadline honour readChunk).run c.line with ⟨_ | _, line⟩ <;> rw [read] at taken most run <;>
    obtain ⟨rfl, rfl⟩ := Prod.mk.inj run <;> exact ⟨taken, most, rfl, rfl⟩

/-- What was taken from the line is put into the ring and counted. -/
theorem spends_put {bytes : Bytes} (few : c.input.length ≤ mostWanted) (most : bytes.length ≤ readChunk)
    (input : c'.input = c.input.put bytes) (taken : c'.line.waiting + bytes.length = c.line.waiting)
    (statistics : c'.statistics = { c.statistics with received := c.statistics.received + bytes.length }) :
    Spends 0 c c' where
  left := by
    have length : (c.input.put bytes).length = c.input.length + bytes.length := congrArg (· + _) (Ring.length_reserve _ _)
    unfold Channel.left
    rw [input, length]
    omega
  received := by
    rw [statistics]
    dsimp only
    omega
  timeouts := by
    have same := congrArg ChannelStatistics.readTimeouts statistics
    exact Nat.le_of_eq same
  capacity := by
    have grown := c.input.grownCapacity_le bytes.length
    rw [input, Ring.capacity_put, Ring.capacity_reserve]
    unfold mostHeld
    omega

/-- Waiting for the line costs nothing, as long as the ring holds few bytes. -/
theorem fill_spends (few : c.input.length ≤ mostWanted) (deadline : Moment) :
    Spends 0 c ((fill deadline).run c).2 := by
  unfold fill
  rw [Step.run_get_bind]
  rcases c.capped deadline with ⟨deadline', byOperation⟩
  dsimp only
  rw [Step.run_bind]
  rcases run : (orDrop (Line.read deadline' (!c.window.isActive) readChunk)).run c with ⟨r, t⟩
  obtain ⟨taken, most, input, statistics⟩ := orDrop_read run
  -- only data change the ring
  have still {t' : Channel} (none : Line.Heard.bytes r = []) (waiting : t'.line.waiting = t.line.waiting)
      (input' : t'.input = t.input) (statistics' : t'.statistics = t.statistics) : Spends 0 c t' := by
    rw [none] at taken
    have ring : t'.input = c.input := input'.trans input
    exact .of_same (waiting.trans taken) (statistics'.trans statistics) (Nat.le_of_eq (congrArg Ring.length ring))
      (congrArg Ring.capacity ring)
  rcases r with e | heard
  · exact still rfl rfl rfl rfl
  cases heard with
  | cancelled => exact still rfl rfl rfl rfl
  | elapsed => cases byOperation <;> exact still rfl rfl rfl rfl
  | ended => exact still rfl rfl rfl rfl
  | data bytes =>
    exact spends_put few most (congrArg (·.put bytes) input) taken
      (congrArg (fun s => { s with received := s.received + bytes.length }) statistics)

theorem fillRound_charges {wanted : Nat} (few : wanted ≤ mostWanted) (patience : Patience) (deadline : Moment) :
    Charges id c (fillRound wanted patience deadline) := by
  refine .get_bind ?_
  split
  · exact .pure _
  next more =>
    have filled : Charges id c (fill deadline) :=
      .of_free (fill_spends (Nat.le_trans (Nat.le_of_lt (Nat.lt_of_not_le more)) few) deadline)
    refine filled.bind fun heard c' _ => ?_
    cases heard with
    | elapsed => exact .get_bind (failTimeout_charges _)
    | data => cases patience <;> exact .get_bind (.pure _)

theorem fillTo_charges {wanted : Nat} (few : wanted ≤ mostWanted) (patience : Patience) :
    Charges id c (fillTo wanted patience) :=
  .get_bind (.get_bind (.repeatUpTo (fun _ _ => fillRound_charges few _ _) _ _))

theorem discard_spends (count : Nat) : Spends 0 c { c with input := c.input.discard count } := by
  refine .of_same rfl rfl ?_ ?_
  · rw [Ring.length_discard]
    exact Nat.sub_le _ _
  · rw [Ring.capacity, Ring.storage_discard]
    rfl

theorem readExact_charges {count : Nat} (few : count ≤ mostWanted) (timeout : Duration) :
    Charges id c (readExact count timeout) := by
  refine ensureConnected_charges.bind fun _ c _ => (fillTo_charges few (.each timeout)).outcome_bind ?_ ?_ ?_
  · intro _ c
    refine .of_free ?_
    rw [take_run]
    exact discard_spends count
  -- what had arrived before a timeout is dropped, and the fault stays
  · intro e c
    dsimp only
    split
    · exact .of_same rfl rfl (Nat.zero_le _) rfl
    · exact Spends.refl c
  · intro e c b u run
    dsimp only at run
    split at run
    · cases (Prod.mk.inj run).1
    · cases (Prod.mk.inj run).1

/-! ### Start bytes -/

/-- Waits for more after so many bytes of garbage. -/
def awaitMore (deadline : Moment) (garbage : Nat) : Step Channel (Nat ⊕ UInt8) := do
  match ← fill deadline with
  | .elapsed => failTimeout garbage
  | .data => return .inl garbage

theorem length_discardUntil (r : Ring) (wanted : Bytes) :
    (r.discardUntil wanted).1.1 + (r.discardUntil wanted).2.length = r.length := by
  have few := (r.toList.takeWhile_prefix fun b => !wanted.contains b).length_le
  rw [Ring.discardUntil_eq, Ring.length_discard]
  rw [Ring.length_toList] at few
  exact Nat.add_sub_cancel' few

theorem discardUntil_spends (c : Channel) (wanted : Bytes) :
    Spends 0 c { c with input := (c.input.discardUntil wanted).2 } := by
  rw [Ring.discardUntil_eq]
  exact discard_spends _

/-- Passing over what is not wanted ends at a wanted byte, or with nothing left. -/
theorem discardUntil_ends (r : Ring) (wanted : Bytes) :
    (∃ byte, (r.discardUntil wanted).1.2 = true ∧ (r.discardUntil wanted).2.peekByte? 0 = some byte) ∨
      (r.discardUntil wanted).2.length = 0 ∧ (r.discardUntil wanted).2.peekByte? 0 = none := by
  have left := (r.discardUntil wanted).2.length_toList
  rw [Ring.peekByte?_zero]
  rcases held : (r.discardUntil wanted).2.toList with _ | ⟨byte, more⟩ <;> rw [held] at left
  · exact .inr ⟨left.symm, rfl⟩
  · refine .inl ⟨byte, ?_, rfl⟩
    rw [Ring.discardUntil_eq] at left ⊢
    rw [Ring.length_discard, List.length_cons] at left
    exact decide_eq_true (by omega)

/-- A round of looking for a start byte finds one in the ring, or waits with an empty ring. -/
theorem startRound_cases (c : Channel) (wanted : Bytes) (deadline : Moment) (garbage : Nat) :
    (∃ byte, (startRound wanted deadline garbage).run c =
        (.ok (.inr byte), { c with input := (c.input.discardUntil wanted).2 })) ∨
      (c.input.discardUntil wanted).2.length = 0 ∧ (startRound wanted deadline garbage).run c =
        (awaitMore deadline (garbage + (c.input.discardUntil wanted).1.1)).run
          { c with input := (c.input.discardUntil wanted).2 } := by
  have left := (c.input.discardUntil wanted).2.length_toList
  rw [startRound_run]
  rcases held : (c.input.discardUntil wanted).2.toList with _ | ⟨byte, more⟩ <;> rw [held] at left
  · exact .inr ⟨left.symm, rfl⟩
  · exact .inl ⟨byte, rfl⟩

theorem awaitMore_charges (empty : c.input.length = 0) (deadline : Moment) (garbage : Nat) :
    Charges id c (awaitMore deadline garbage) := by
  have filled : Charges id c (fill deadline) := .of_free (fill_spends (Nat.le_trans (Nat.le_of_eq empty) (Nat.zero_le _)) _)
  refine filled.bind fun heard c' _ => ?_
  cases heard with
  | elapsed => exact failTimeout_charges _
  | data => exact .pure _

theorem startRound_charges (wanted : Bytes) (deadline : Moment) (garbage : Nat) :
    Charges id c (startRound wanted deadline garbage) := by
  have passed := discardUntil_spends c wanted
  rcases startRound_cases c wanted deadline garbage with ⟨byte, run⟩ | ⟨empty, run⟩
  · exact .of_run passed (.pure (Sum.inr byte)) run
  · exact .of_run passed (awaitMore_charges empty _ _) run

theorem waitStart_charges (wanted : Bytes) (timeout : Duration) : Charges id c (waitStart wanted timeout) :=
  ensureConnected_charges.bind fun _ _ _ => .get_bind (.get_bind (.repeatUpTo (fun _ _ => startRound_charges _ _ _) _ _))

theorem readStart_charges (wanted : Bytes) (timeout : Duration) : Charges id c (readStart wanted timeout) :=
  (waitStart_charges wanted timeout).bind fun _ _ _ => .bind (.of_free (discard_spends 1)) fun _ _ _ => .pure _

/-! ### Dropping input and sleeping -/

theorem onLine_read_charges (deadline : Moment) (honour : Bool) :
    Charges id c (onLine (Line.read deadline honour readChunk)) := by
  have taken := (Line.read_waiting deadline honour readChunk c.line).1
  refine .of_free ⟨?_, ?_, Nat.le_refl _, Nat.le_max_left _ _⟩
  · show ((Line.read deadline honour readChunk).run c.line).2.waiting + c.input.length ≤ c.line.waiting + c.input.length
    omega
  · show c.statistics.received + ((Line.read deadline honour readChunk).run c.line).2.waiting ≤
      c.statistics.received + c.line.waiting
    omega

theorem clearInput_charges : Charges id c clearInput := by
  have cleared {c : Channel} : Charges id c clearRing := .of_free (.of_same rfl rfl (Nat.zero_le _) rfl)
  have round {c : Channel} : Charges id c (clearRound ()) := by
    refine .get_bind ((onLine_read_charges _ _).bind fun heard c' _ => ?_)
    cases heard with
    | ended => exact .bind (.of_free (.of_same rfl rfl (Nat.le_refl _) rfl)) fun _ _ _ => .throw _
    | _ => exact .pure _
  exact ensureConnected_charges.bind fun _ _ _ => cleared.bind fun _ _ _ => .get_bind (.repeatUpTo (fun _ _ => round) _ _)

/-- What a channel can lose. -/
def stock (c : Channel) : Nat × ChannelStatistics × Ring := (c.line.waiting, c.statistics, c.input)

theorem sleep_stock (d : Duration) : Moves (Same stock) (sleep d) := by
  have stopped : Moves (Same stock) (honourCancel : Step Channel Unit) := .bind (.modify fun _ => rfl) fun _ => .throw _
  have noted : Moves (Same stock) (noteDeadline true) := .modify fun _ => rfl
  refine .get_bind fun c => ?_
  have paused := Line.waitFor_waiting none (c.capped (c.now + d)).1 (!c.window.isActive) c.line
  rcases hc : c.capped (c.now + d) with ⟨target, byOperation⟩
  rw [hc] at paused
  dsimp only
  rcases hw : c.line.pause target (!c.window.isActive) with ⟨wake, line⟩
  rw [show c.line.waitFor none target (!c.window.isActive) = (wake, line) from hw] at paused
  dsimp only at paused ⊢
  have waited : Same stock c { c with line } := congrArg (·, c.statistics, c.input) paused
  refine trans_of (Same stock) waited ?_
  have rest : Moves (Same stock) (if byOperation then (do
        noteDeadline true
        throw (.readTimeout 0) : Step Channel Unit) else pure ()) :=
    .ite (.bind noted fun _ => .throw _) (.pure _)
  rw [Step.run_set_bind]
  split
  · exact (Moves.bind stopped fun _ => rest) _
  · exact rest _

theorem sleep_charges (d : Duration) : Charges id c (sleep d) := by
  have same := Prod.mk.inj (sleep_stock d c)
  obtain ⟨statistics, input⟩ := Prod.mk.inj same.2
  have input : ((sleep d).run c).2.input = c.input := input
  exact .of_free (.of_same same.1 statistics (Nat.le_of_eq (congrArg Ring.length input)) (congrArg Ring.capacity input))

/-! ## Reading as on a machine -/

variable (m : Machine)

/-- Raises a counter. -/
def checkedRaise (counter : ChannelStatistics → Nat) (put : Nat → ChannelStatistics → ChannelStatistics) (n : Nat) :
    Checked Channel Unit := do
  let total ← add largestCount (counter (← get).statistics) n
  ofStep (count (put total))

/-- The bytes at the front of the buffer that the line was read into, as many as it says. -/
def checkedChunk (bytes : Bytes) : Checked Channel Bytes :=
  slice (bytes.take readChunk ++ List.replicate (readChunk - bytes.length) 0) 0 bytes.length

/-- Waits for the line until a deadline and keeps what arrives. -/
def checkedFill (deadline : Moment) : Checked Channel Fill := do
  let c ← get
  let (deadline, byOperation) := c.capped deadline
  match ← ofStep (orDrop (Line.read deadline (!c.window.isActive) readChunk)) with
  | .cancelled => ofStep honourCancel
  | .elapsed =>
    ofStep (noteDeadline byOperation)
    return .elapsed
  | .ended =>
    ofStep drop
    throw .disconnected
  | .data bytes =>
    let bytes ← checkedChunk bytes
    let c ← get
    let input ← c.input.checkedPut m bytes
    set { c with input }
    checkedRaise (·.received) (fun n s => { s with received := n }) bytes.length
    return .data

/-- Repeats a round of reading until it gives a result. -/
def checkedRounds (round : α → Checked Channel (α ⊕ β)) (a : α) : Checked Channel β := do
  Checked.repeatUpTo round ((← get).line.waiting + 1) a

/-- Counts a read that ran out of time. -/
def checkedFailTimeout (bytesRead : Nat) : Checked Channel α := do
  checkedRaise (·.readTimeouts) (fun n s => { s with readTimeouts := n }) 1
  throw (.readTimeout bytesRead)

/-- One round of waiting for `wanted` bytes in the ring. -/
def checkedFillRound (wanted : Nat) (patience : Patience) (deadline : Moment) : Checked Channel (Moment ⊕ Unit) := do
  if (← get).input.length ≥ wanted then return .inr ()
  match ← checkedFill m deadline with
  | .elapsed => checkedFailTimeout (← get).input.length
  | .data =>
    let c ← get
    match patience with
    | .whole _ => return .inl deadline
    | .each _ => return .inl (if c.intercharacter = 0 then deadline else c.now + c.intercharacter)

/-- Waits until `wanted` bytes are in the ring. -/
def checkedFillTo (wanted : Nat) (patience : Patience) : Checked Channel Unit := do
  checkedRounds (checkedFillRound m wanted patience) (patience.first (← get).now)

/-- Takes up to `count` bytes out of the ring. -/
def checkedTake (count : Nat) : Checked Channel Bytes := do
  let c ← get
  let (bytes, input) ← c.input.checkedGet m count
  set { c with input }
  return bytes

/-- Reads exactly `count` bytes within a timeout. -/
def checkedReadExact (count : Nat) (timeout : Duration) : Checked Channel Bytes := do
  ofStep ensureConnected
  match ← Checked.attempt (checkedFillTo m count (.each timeout)) with
  | .ok () => checkedTake m count
  | .error e =>
    if e.isTimeout then ofStep clearRing
    throw e

/-- Waits for more after so many bytes of garbage. -/
def checkedAwaitMore (deadline : Moment) (garbage : Nat) : Checked Channel (Nat ⊕ UInt8) := do
  match ← checkedFill m deadline with
  | .elapsed => checkedFailTimeout garbage
  | .data => return .inl garbage

/-- One round of looking for a wanted byte, when `garbage` bytes were passed over. -/
def checkedStartRound (wanted : Bytes) (deadline : Moment) (garbage : Nat) : Checked Channel (Nat ⊕ UInt8) := do
  let c ← get
  let ((dropped, found), input) ← c.input.checkedDiscardUntil m wanted
  set { c with input }
  let garbage ← add m.largest garbage dropped
  let first ← input.checkedPeekByte m 0
  match found, first with
  | true, some byte => return .inr byte
  | _, _ => checkedAwaitMore m deadline garbage

/-- Passes over garbage until a wanted byte arrives. -/
def checkedWaitStart (wanted : Bytes) (timeout : Duration) : Checked Channel UInt8 := do
  ofStep ensureConnected
  checkedRounds (checkedStartRound m wanted ((← get).now + timeout)) 0

/-- Drops up to `count` received bytes and says how many. -/
def checkedDiscard (count : Nat) : Checked Channel Nat := do
  let c ← get
  let input ← c.input.checkedDiscard m count
  set { c with input }
  return c.input.discarded count

/-- Passes over garbage until a wanted byte arrives, and takes it. -/
def checkedReadStart (wanted : Bytes) (timeout : Duration) : Checked Channel UInt8 := do
  let byte ← checkedWaitStart m wanted timeout
  let _ ← checkedDiscard m 1
  return byte

/-- One round of dropping what is ready on the line. -/
def checkedClearRound (_ : Unit) : Checked Channel (Unit ⊕ Unit) := do
  match ← ofStep (onLine (Line.read (← get).now false readChunk)) with
  | .data bytes =>
    let _ ← checkedChunk bytes
    return .inl ()
  | .ended =>
    ofStep drop
    throw .disconnected
  | _ => return .inr ()

/-- Drops what was received and what is ready on the line. -/
def checkedClearInput : Checked Channel Unit := do
  ofStep ensureConnected
  ofStep clearRing
  checkedRounds checkedClearRound ()

/-! ## It agrees -/

/-- There is room for what may come: the ring is in memory, what is to come can be counted, and so can `n` timeouts. -/
structure Room (m : Machine) (n : Nat) (c : Channel) : Prop where
  ring : c.input.Fits m
  left : c.left ≤ m.largest
  received : c.statistics.received + c.line.waiting ≤ largestCount
  timeouts : c.statistics.readTimeouts + n ≤ largestCount

variable {m}

theorem Spends.room (spent : Spends k c c') (room : c.Room m (k + n)) : c'.Room m n where
  ring := by
    have wide := m.wide
    have capacity := spent.capacity
    have ring := room.ring
    unfold Ring.Fits at *
    simp only [mostHeld, mostWanted, readChunk] at capacity
    omega
  left := Nat.le_trans spent.left room.left
  received := Nat.le_trans spent.received room.received
  timeouts := by
    have := spent.timeouts
    have := room.timeouts
    omega

/-- A step that succeeds leaves room. -/
theorem Charges.room {x : Step Channel α} {a : α} (charges : Charges id c x) (room : c.Room m n)
    (run : x.run c = (.ok a, c')) : c'.Room m n :=
  (charges.ok run).room ((Nat.zero_add n).symm ▸ room)

theorem checkedRaise_agrees {counter : ChannelStatistics → Nat} (put : Nat → ChannelStatistics → ChannelStatistics)
    (room : counter c.statistics + n ≤ largestCount) :
    Agrees c (checkedRaise counter put n) (count fun s => put (counter s + n) s) := by
  show (add largestCount (counter c.statistics) n >>= fun total => ofStep (count (put total)) : Checked Channel Unit).run c = _
  rw [add_eq room, pure_bind]
  rfl

theorem checkedChunk_eq {bytes : Bytes} (most : bytes.length ≤ readChunk) : checkedChunk bytes = pure bytes := by
  rw [checkedChunk, slice_front (by simp; omega), List.take_of_length_le most, List.take_left]

theorem checkedFill_agrees (room : c.Room m 1) (few : c.input.length ≤ mostWanted) (deadline : Moment) :
    Agrees c (checkedFill m deadline) (fill deadline) := by
  unfold checkedFill fill
  refine .get_bind ?_
  rcases c.capped deadline with ⟨deadline', byOperation⟩
  refine (Agrees.ofStep _).bind fun heard t run => ?_
  obtain ⟨taken, most, input, statistics⟩ := orDrop_read run
  cases heard with
  | cancelled => exact .ofStep _
  | elapsed => exact (Agrees.ofStep _).bind fun _ _ _ => .pure _
  | ended => exact (Agrees.ofStep _).bind fun _ _ _ => .throw _
  | data bytes =>
    have taken : t.line.waiting + bytes.length = c.line.waiting := taken
    have most : bytes.length ≤ readChunk := most
    have counted := room.received
    have wide := m.wide
    have small : 4 * (t.input.length + bytes.length) ≤ m.largest := by
      simp only [mostWanted, readChunk] at most few
      rw [input]
      omega
    dsimp only
    rw [checkedChunk_eq most, pure_bind]
    refine .get_left ?_
    rw [Ring.checkedPut_eq (by rw [input]; exact room.ring) small, pure_bind]
    refine .modify_bind (fun c : Channel => { c with input := c.input.put bytes }) ?_
    refine (checkedRaise_agrees (fun n s => { s with received := n }) ?_).bind fun _ _ _ => .pure _
    show t.statistics.received + bytes.length ≤ largestCount
    rw [statistics]
    omega

theorem checkedFailTimeout_agrees (room : c.Room m 1) (bytesRead : Nat) :
    Agrees c (checkedFailTimeout bytesRead : Checked Channel α) (failTimeout bytesRead) :=
  (checkedRaise_agrees (fun n s => { s with readTimeouts := n }) room.timeouts).bind fun _ _ _ => .throw _

theorem checkedFillTo_agrees {wanted : Nat} (room : c.Room m 1) (few : wanted ≤ mostWanted) (patience : Patience) :
    Agrees c (checkedFillTo m wanted patience) (fillTo wanted patience) := by
  refine .get_bind (.get_bind (.repeatUpTo (I := fun _ c => c.Room m 1) ?_ ?_ _ room))
  · intro deadline c room
    refine .get_bind (.ite (fun _ => .pure _) fun more => ?_)
    have less := Nat.le_trans (Nat.le_of_lt (Nat.lt_of_not_le more)) few
    refine (checkedFill_agrees room less deadline).bind fun heard c' run => ?_
    have room' := (Charges.of_free (fill_spends less deadline)).room room run
    cases heard with
    | elapsed => exact .get_bind (checkedFailTimeout_agrees room' _)
    | data => cases patience <;> exact .get_bind (.pure _)
  · exact fun deadline c _ c' room run => (fillRound_charges few patience deadline).room room run

theorem checkedTake_agrees (room : c.Room m 1) (count : Nat) : Agrees c (checkedTake m count) (take count) := by
  refine .get_bind ?_
  rw [Ring.checkedGet_eq room.ring, pure_bind]
  exact .set_bind (.pure _)

theorem checkedReadExact_agrees {count : Nat} (room : c.Room m 1) (few : count ≤ mostWanted) (timeout : Duration) :
    Agrees c (checkedReadExact m count timeout) (readExact count timeout) := by
  refine (Agrees.ofStep _).bind fun _ c connected => ?_
  have room := ensureConnected_charges.room room connected
  refine (checkedFillTo_agrees room few _).attempt_bind (fun _ c' filled => ?_) fun e c' _ => ?_
  · exact checkedTake_agrees ((fillTo_charges few _).room room filled) count
  · exact .ite (fun _ => (Agrees.ofStep _).bind fun _ _ _ => .throw _) fun _ => .throw _

/-- The garbage that was passed over and what is left are no more than what was to come. -/
structure Passing (m : Machine) (garbage : Nat) (c : Channel) : Prop where
  room : c.Room m 1
  small : garbage + c.left ≤ m.largest

theorem checkedAwaitMore_agrees (room : c.Room m 1) (empty : c.input.length = 0) (deadline : Moment) (garbage : Nat) :
    Agrees c (checkedAwaitMore m deadline garbage) (awaitMore deadline garbage) := by
  have few : c.input.length ≤ mostWanted := Nat.le_trans (Nat.le_of_eq empty) (Nat.zero_le _)
  refine (checkedFill_agrees room few deadline).bind fun heard c' run => ?_
  cases heard with
  | elapsed => exact checkedFailTimeout_agrees ((Charges.of_free (fill_spends few deadline)).room room run) _
  | data => exact .pure _

theorem checkedStartRound_agrees {wanted : Bytes} {garbage : Nat} (passing : c.Passing m garbage) (deadline : Moment) :
    Agrees c (checkedStartRound m wanted deadline garbage) (startRound wanted deadline garbage) := by
  have small := passing.small
  have room := (discardUntil_spends c wanted).room (n := 1) passing.room
  have length := length_discardUntil c.input wanted
  have ends := discardUntil_ends c.input wanted
  unfold checkedStartRound startRound
  refine .get_bind ?_
  rw [Ring.checkedDiscardUntil_eq passing.room.ring, pure_bind]
  generalize c.input.discardUntil wanted = after at *
  obtain ⟨⟨dropped, found⟩, input⟩ := after
  dsimp only at *
  have count : garbage + dropped ≤ m.largest := by
    unfold left at small
    omega
  refine .set_bind ?_
  rw [add_eq count, pure_bind, Ring.checkedPeekByte_eq room.ring, pure_bind]
  rcases ends with ⟨byte, rfl, first⟩ | ⟨empty, first⟩ <;> rw [first]
  · exact .pure _
  · cases found <;> exact checkedAwaitMore_agrees room empty deadline (garbage + dropped)

theorem startRound_passing {wanted : Bytes} {garbage garbage' : Nat} {deadline : Moment} (passing : c.Passing m garbage)
    (run : (startRound wanted deadline garbage).run c = (.ok (.inl garbage'), c')) : c'.Passing m garbage' := by
  refine ⟨(startRound_charges wanted deadline garbage).room passing.room run, ?_⟩
  have small := passing.small
  have length := length_discardUntil c.input wanted
  rcases startRound_cases c wanted deadline garbage with ⟨byte, found⟩ | ⟨empty, waits⟩
  · cases (Prod.mk.inj (found.symm.trans run)).1
  obtain ⟨heard, t, read, rest⟩ := Step.run_bind_ok.1 (waits.symm.trans run)
  have left := fill_spends (c := { c with input := (c.input.discardUntil wanted).2 })
    (Nat.le_trans (Nat.le_of_eq empty) (Nat.zero_le _)) deadline |>.left
  rw [read] at left
  cases heard with
  | elapsed =>
    obtain ⟨_, _, _, rest⟩ := Step.run_bind_ok.1 rest
    exact absurd rest Step.run_throw_ne_ok
  | data =>
    obtain ⟨same, rfl⟩ := Prod.mk.inj rest
    obtain rfl := Sum.inl.inj (Except.ok.inj same)
    unfold Channel.left at *
    dsimp only at left
    omega

theorem checkedWaitStart_agrees (room : c.Room m 1) (wanted : Bytes) (timeout : Duration) :
    Agrees c (checkedWaitStart m wanted timeout) (waitStart wanted timeout) := by
  refine (Agrees.ofStep _).bind fun _ c connected => ?_
  have room := ensureConnected_charges.room room connected
  have none : c.Passing m 0 := ⟨room, (Nat.zero_add c.left).symm ▸ room.left⟩
  exact .get_bind (.get_bind (.repeatUpTo (I := fun garbage c => c.Passing m garbage)
    (fun _ _ passing => checkedStartRound_agrees passing _) (fun _ _ _ _ => startRound_passing) _ none))

theorem checkedReadStart_agrees (room : c.Room m 1) (wanted : Bytes) (timeout : Duration) :
    Agrees c (checkedReadStart m wanted timeout) (readStart wanted timeout) := by
  refine (checkedWaitStart_agrees room wanted timeout).bind fun byte c waited => ?_
  have room := (waitStart_charges wanted timeout).room room waited
  have discarded : Agrees c (checkedDiscard m 1) (discard 1) := by
    refine .get_bind ?_
    rw [Ring.checkedDiscard_eq room.ring, pure_bind]
    exact .set_bind (.pure _)
  exact discarded.bind fun _ _ _ => .pure _

theorem checkedClearInput_agrees : Agrees c checkedClearInput clearInput := by
  refine (Agrees.ofStep _).bind fun _ c _ => (Agrees.ofStep _).bind fun _ c _ => ?_
  refine .get_bind (.repeatUpTo (I := fun _ _ => True) (fun _ c _ => ?_) (fun _ _ _ _ _ _ => trivial) _ trivial)
  refine .get_bind ((Agrees.ofStep _).bind fun heard c' run => ?_)
  cases heard with
  | data bytes =>
    obtain ⟨line, read, -⟩ := Step.run_within_eq.1 run
    have most := (Line.read_waiting c.now false readChunk c.line).2
    rw [read] at most
    have most : bytes.length ≤ readChunk := most
    dsimp only
    rw [checkedChunk_eq most]
    exact .pure _
  | ended => exact (Agrees.ofStep _).bind fun _ _ _ => .throw _
  | elapsed => exact .pure _
  | cancelled => exact .pure _

end Channel

end Metering
