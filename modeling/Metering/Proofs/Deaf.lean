import Metering.Proofs.Closing
import Metering.Proofs.Sees

set_option autoImplicit false

/-! # Sending without listening

Whoever only sends on a line does not notice what is heard on it, nor when. `Line.sending` is the line without its
clock and all that is heard, and a step is `Deaf` if it does the same to two lines with the same such part. Deaf
are opening, closing, writing, flushing and setting the speed. Reads leave that part of a line alone
(`Line.Heeding`). -/

namespace Metering

/-- Data that follow a message, each some time after it. -/
abbrev Chunks := List (Duration × Bytes)

namespace Chunks

/-- The same as an answer of the far end. -/
def events (d : Chunks) : List (Duration × Event) := d.map fun p => (p.1, .arrival (.data p.2))

/-- The same as arrivals, the message being sent at `base`. -/
def arrivals (base : Moment) (d : Chunks) : List (Moment × Arrival) := d.map fun p => (base + p.1, .data p.2)

/-- No item is empty, and none overtakes another. -/
structure Ordered (d : Chunks) : Prop where
  some : ∀ p ∈ d, p.2 ≠ []
  order : d.Pairwise (·.1 ≤ ·.1)

end Chunks

namespace Line

open Step (Moves Same)

variable {α β : Type} {l l' l'' : Line}

/-! ## The part that sends -/

/-- An entry of the history without its moment. -/
def undated (e : Moment × LineEntry) : Moment × LineEntry := (0, e.2)

/-- A line without its clock and all that is heard on it. -/
def sending (l : Line) : Line :=
  { l with
    now := 0
    arrivals := []
    cancels := []
    handle := {}
    answers := []
    heard := []
    stops := []
    history := l.history.map undated }

@[simp] theorem undated_mk (t : Moment) (entry : LineEntry) : undated (t, entry) = (0, entry) := rfl

@[simp] theorem undated_comp_undated : undated ∘ undated = undated := rfl

/-- What was done to a medium does not depend on the clock. -/
theorem entries_sending (l : Line) : l.sending.entries = l.entries := by
  simp [entries, sending, undated, Function.comp_def]

theorem messages_sending (l : Line) : l.sending.messages = l.messages := by
  simp [messages, sending, undated, List.filterMap_map, ← List.map_reverse, Function.comp_def]

theorem entries_of_sending (same : l'.sending = l.sending) : l'.entries = l.entries := by
  rw [← entries_sending, same, entries_sending]

theorem messages_of_sending (same : l'.sending = l.sending) : l'.messages = l.messages := by
  rw [← messages_sending, same, messages_sending]

theorem schedule_sending (t : Moment) (event : Event) (l : Line) : Same sending l (l.schedule t event) := by
  unfold schedule
  split
  · split <;> rfl
  · rfl
  · rfl

instance : Step.Blanks sending := ⟨fun l => by simp [sending]⟩

/-- What is delivered is one message more, whatever is answered to it. -/
theorem deliver_sending (l : Line) :
    l.deliver.sending = if l.pending.isEmpty then l.sending else l.post.sending := by
  unfold deliver
  by_cases none : l.pending.isEmpty = true
  · rw [if_pos none, if_pos none]
  · rw [if_neg none, if_neg none]
    have answered := planAnswer_of_scheduled schedule_sending (fun l answers => rfl) (l.planEcho l.pending).post
    refine answered.trans ?_
    unfold planEcho
    split
    · unfold schedule
      split
      next c => cases c
      next => rfl
      next => rfl
    · rfl

/-! ## Deaf steps -/

/-- What a step does to the part of a line that sends does not depend on the rest. -/
def Deaf (x : Step Line α) : Prop :=
  ∀ l, (x.run l.sending).1 = (x.run l).1 ∧ (x.run l.sending).2.sending = (x.run l).2.sending

namespace Deaf

variable {x : Step Line α}

/-- Lines with the same part that sends are left with the same such part. -/
theorem alike (h : Deaf x) (same : l.sending = l'.sending) :
    (x.run l).1 = (x.run l').1 ∧ (x.run l).2.sending = (x.run l').2.sending := Step.Sees.alike h same

theorem pure (a : α) : Deaf (Pure.pure a) := Step.Sees.pure a

theorem throw (e : Fault) : Deaf (MonadExcept.throw e : Step Line α) := Step.Sees.throw e

theorem bind (h : Deaf x) {f : α → Step Line β} (hf : ∀ a, Deaf (f a)) : Deaf (x >>= f) := Step.Sees.bind h hf

theorem repeatUpTo {next : α → Step Line (α ⊕ β)} (h : ∀ a, Deaf (next a)) (fuel : Nat) (a : α) :
    Deaf (Step.repeatUpTo next fuel a) := Step.Sees.repeatUpTo h fuel a

end Deaf

theorem openUp_deaf : Deaf openUp := by
  intro l
  have same : l.sending.opens = l.opens := rfl
  unfold openUp
  rw [Step.run_get_bind, Step.run_get_bind, same]
  rcases nextOutcome l.opens with ⟨outcome, opens⟩
  cases outcome <;> exact ⟨rfl, by simp [sending, note]⟩

theorem close_deaf : Deaf close := by
  intro l
  have same : l.sending.closes = l.closes := rfl
  unfold close
  rw [Step.run_get_bind, Step.run_get_bind, same]
  rcases nextOutcome l.closes with ⟨outcome, closes⟩
  cases outcome <;> exact ⟨rfl, by simp [sending, note]⟩

theorem setBaud_run (speed : Nat) (l : Line) :
    (setBaud speed).run l = if l.baudRefused then (.error (.connection .baudRefused), l.note (.baud speed))
      else (.ok (), { l.note (.baud speed) with baud := some speed }) := by
  unfold setBaud
  rw [Step.run_modify_bind, Step.run_get_bind]
  have same : (l.note (.baud speed)).baudRefused = l.baudRefused := rfl
  rw [same]
  cases l.baudRefused <;> rfl

theorem setBaud_deaf (speed : Nat) : Deaf (setBaud speed) := by
  intro l
  have same : l.sending.baudRefused = l.baudRefused := rfl
  rw [setBaud_run, setBaud_run, same]
  cases l.baudRefused <;> exact ⟨rfl, by simp [sending, note]⟩

/-- How many bytes one write takes. -/
def taking (l : Line) (bytes : Bytes) : Nat := if l.writeChunk = 0 then bytes.length else min bytes.length l.writeChunk

/-- A write that may take as long as it wants. -/
theorem write_run_none (bytes : Bytes) (l : Line) :
    (write none bytes).run l = match nextOutcome l.writes with
      | (.failure words, writes) => (.error (.connection (.reported words)), { l with writes })
      | (.nothing, writes) => (.ok (some 0), { l with writes })
      | (.success, writes) => (.ok (some (l.taking bytes)),
          { l with writes, pending := l.pending ++ bytes.take (l.taking bytes) }.advanceTo (l.now + l.writeDelay)) := by
  unfold write
  rw [Step.run_get_bind]
  rcases nextOutcome l.writes with ⟨outcome, writes⟩
  cases outcome <;> rfl

theorem write_deaf (bytes : Bytes) : Deaf (write none bytes) := by
  intro l
  have same : l.sending.writes = l.writes := rfl
  rw [write_run_none, write_run_none, same]
  rcases nextOutcome l.writes with ⟨outcome, writes⟩
  have count : l.sending.taking bytes = l.taking bytes := rfl
  rw [count]
  cases outcome <;> exact ⟨rfl, by simp [sending, advanceTo]⟩

theorem writeAll_deaf (bytes : Bytes) : Deaf (writeAll bytes) := by
  refine .repeatUpTo (fun left => ?_) _ _
  split
  · exact .pure _
  · refine .bind (write_deaf left) fun n => ?_
    split
    · exact .throw _
    · exact .throw _
    · exact .pure _

/-- A flush that may take as long as it wants. -/
theorem flush_run_none (l : Line) :
    (flush none).run l = match nextOutcome l.flushes with
      | (.failure words, flushes) =>
        (.error (.connection (.reported words)), { l.advanceTo (l.now + l.flushDelay) with flushes })
      | (_, flushes) => (.ok true, { l.advanceTo (l.now + l.flushDelay) with flushes }.deliver) := by
  have passed : (passTime l.flushDelay none).run l = (.ok true, l.advanceTo (l.now + l.flushDelay)) := rfl
  have same : (l.advanceTo (l.now + l.flushDelay)).flushes = l.flushes := rfl
  unfold flush
  rw [Step.run_get_bind, Step.run_bind_of_ok passed, if_pos rfl, Step.run_get_bind, same]
  rcases nextOutcome l.flushes with ⟨outcome, flushes⟩
  cases outcome <;> rfl

theorem flush_deaf : Deaf (flush none) := by
  intro l
  have same : l.sending.flushes = l.flushes := rfl
  rw [flush_run_none, flush_run_none, same]
  rcases nextOutcome l.flushes with ⟨outcome, flushes⟩
  have left : ({ l.sending.advanceTo (l.sending.now + l.sending.flushDelay) with flushes } : Line).deliver.sending =
      ({ l.advanceTo (l.now + l.flushDelay) with flushes } : Line).deliver.sending := by
    rw [deliver_sending, deliver_sending]
    have pending (l : Line) : ({ l.advanceTo (l.now + l.flushDelay) with flushes } : Line).pending = l.pending := rfl
    have same : l.sending.pending = l.pending := rfl
    rw [pending, pending, same]
    split <;> simp [sending, advanceTo, post, note]
  cases outcome with
  | failure words => exact ⟨rfl, by simp [sending, advanceTo]⟩
  | success => exact ⟨rfl, left⟩
  | nothing => exact ⟨rfl, left⟩

/-! ## Reading -/

/-- Time passed, and nothing else happened. -/
structure Waited (l l' : Line) : Prop where
  sending : l'.sending = l.sending
  answers : l'.answers = l.answers
  now_le : l.now ≤ l'.now

theorem Waited.refl (l : Line) : Waited l l := ⟨rfl, rfl, Nat.le_refl _⟩

theorem Waited.trans (h : Waited l l') (h' : Waited l' l'') : Waited l l'' :=
  ⟨h'.sending.trans h.sending, h'.answers.trans h.answers, Nat.le_trans h.now_le h'.now_le⟩

theorem waited_advanceTo (t : Moment) (l : Line) : Waited l (l.advanceTo t) := ⟨rfl, rfl, Nat.le_max_left _ _⟩

theorem waited_pause (t : Moment) (l : Line) :
    Waited l (l.pause t false).2 ∧ (l.pause t false).2.arrivals = l.arrivals := by
  unfold pause waitFor
  dsimp only
  rw [Bool.false_and, if_neg Bool.false_ne_true, if_neg Bool.false_ne_true, if_neg Bool.false_ne_true]
  split
  · exact ⟨.refl l, rfl⟩
  · exact ⟨waited_advanceTo _ l, rfl⟩

variable {rest : List (Moment × Arrival)} {t deadline : Moment} {bytes : Bytes} {most : Nat}

/-- Data that come in time are read. -/
theorem read_data (here : l.arrivals = (t, .data bytes) :: rest) (timely : t ≤ max l.now deadline)
    (fits : bytes.length ≤ most) :
    ∃ l', (read deadline false most).run l = (.ok (.data bytes), l') ∧ Waited l l' ∧ l'.arrivals = rest ∧
      l'.now = max l.now t := by
  have woken : ∃ l1, l.await deadline false = (.arrived, l1) ∧ Waited l l1 ∧ l1.arrivals = l.arrivals ∧
      l1.now = max l.now t := by
    have next : l.nextArrival? = some t := by simp [nextArrival?, here]
    unfold await waitFor
    rw [next]
    dsimp only
    rw [Bool.false_and, if_neg Bool.false_ne_true]
    by_cases due : t ≤ l.now
    · rw [if_pos (decide_eq_true due)]
      exact ⟨l, rfl, .refl l, rfl, (Nat.max_eq_left due).symm⟩
    · have before : t ≤ deadline :=
        Nat.le_of_not_lt fun late => Nat.not_le_of_lt (Nat.max_lt.2 ⟨Nat.lt_of_not_le due, late⟩) timely
      have ahead : ¬ deadline ≤ l.now := fun past => due (Nat.le_trans before past)
      have target : earlier deadline (some t) = t := Nat.min_eq_right before
      rw [if_neg (by simpa using due), if_neg ahead, if_neg Bool.false_ne_true, target]
      dsimp only
      rw [if_pos (decide_eq_true (Nat.le_refl t))]
      exact ⟨_, rfl, waited_advanceTo t l, rfl, rfl⟩
  obtain ⟨l1, wake, waited, same, now⟩ := woken
  rw [here] at same
  have all : bytes.drop most = [] := List.drop_of_length_le fits
  unfold read
  rw [Step.run_get_bind, wake]
  dsimp only
  rw [Step.run_set_bind, takeArrival, Step.run_get_bind]
  simp only [same, all, List.take_of_length_le fits, List.isEmpty_nil, if_true, Step.run_set_bind]
  exact ⟨_, rfl, waited.trans ⟨rfl, rfl, Nat.le_refl _⟩, rfl, now⟩

/-- A read ends at its deadline if nothing comes before. -/
theorem read_elapsed (most : Nat) (late : ∀ a ∈ l.arrivals.head?, max l.now deadline < a.1) :
    ∃ l', (read deadline false most).run l = (.ok .elapsed, l') ∧ Waited l l' ∧ l'.arrivals = l.arrivals := by
  have woken : ∃ l1, l.await deadline false = (.elapsed, l1) ∧ Waited l l1 ∧ l1.arrivals = l.arrivals := by
    unfold await waitFor nextArrival?
    dsimp only
    rw [Bool.false_and, if_neg Bool.false_ne_true]
    cases first : l.arrivals.head? with
    | none =>
      dsimp only [Option.map_none]
      rw [if_neg Bool.false_ne_true]
      split
      · exact ⟨l, rfl, .refl l, rfl⟩
      · exact ⟨_, rfl, waited_advanceTo _ l, rfl⟩
    | some a =>
      obtain ⟨absent, past⟩ := Nat.max_lt.1 (late a first)
      have target : earlier deadline (some a.1) = deadline := Nat.min_eq_left (Nat.le_of_lt past)
      rw [Option.map_some, target]
      dsimp only
      rw [if_neg (by simpa using absent)]
      split
      · exact ⟨l, rfl, .refl l, rfl⟩
      · rw [if_neg Bool.false_ne_true]
        dsimp only
        rw [if_neg (by simpa using past)]
        exact ⟨_, rfl, waited_advanceTo _ l, rfl⟩
  obtain ⟨l1, wake, waited, same⟩ := woken
  unfold read
  rw [Step.run_get_bind, wake]
  exact ⟨l1, rfl, waited, same⟩

/-! ## Messages and their answers -/

/-- What is fixed about a port while data are exchanged over it. -/
structure Port where
  autoEcho : Bool
  baud : Option Nat
  baudRefused : Bool

def port (l : Line) : Port := ⟨l.autoEcho, l.baud, l.baudRefused⟩

/-- What is to be heard, and the port. -/
def listening (l : Line) : List (Moment × Arrival) × List FarAnswer × Port := (l.arrivals, l.answers, l.port)

theorem port_of_sending (same : l'.sending = l.sending) : l'.port = l.port := by
  have kept : l'.sending.port = l.sending.port := by rw [same]
  exact kept

theorem openUp_listening : Moves (Same listening) openUp := by
  refine .get_bind fun l => ?_
  rcases nextOutcome l.opens with ⟨outcome, opens⟩
  cases outcome <;> rfl

theorem write_listening (bytes : Bytes) : Moves (Same listening) (write none bytes) := by
  intro l
  rw [write_run_none]
  rcases nextOutcome l.writes with ⟨outcome, writes⟩
  cases outcome <;> rfl

theorem writeAll_listening (bytes : Bytes) : Moves (Same listening) (writeAll bytes) := by
  refine .repeatUpTo (fun left => ?_) _ _
  split
  · exact .pure _
  · refine .bind (write_listening left) fun n => ?_
    split
    · exact .throw _
    · exact .throw _
    · exact .pure _

theorem write_pending {n : Nat} (some : bytes ≠ []) (took : n ≠ 0)
    (run : (write none bytes).run l = (.ok (.some n), l')) : l'.pending ≠ [] := by
  rw [write_run_none] at run
  generalize nextOutcome l.writes = next at run
  obtain ⟨outcome, writes⟩ := next
  cases outcome with
  | failure words => cases (Prod.mk.inj run).1
  | nothing => exact absurd (Option.some.inj (Except.ok.inj (Prod.mk.inj run).1)).symm took
  | success =>
    obtain ⟨same, rfl⟩ := Prod.mk.inj run
    obtain rfl : l.taking bytes = n := Option.some.inj (Except.ok.inj same)
    intro none
    obtain ⟨-, none⟩ := List.append_eq_nil_iff.1 none
    exact (List.take_eq_nil_iff.1 none).elim took some

/-- What was written waits to be flushed. -/
theorem writeAll_pending (some : bytes ≠ []) (run : (writeAll bytes).run l = (.ok (), l')) : l'.pending ≠ [] := by
  -- the bytes that are left run out only if some were taken
  refine Step.repeatUpTo_ok (I := fun (left : Bytes) (l : Line) => left = [] → l.pending ≠ [])
    (Q := fun _ l => l.pending ≠ []) (fun left t r t' waiting round => ?_) _ (fun none => absurd none some) run
  by_cases none : left.isEmpty = true
  · rw [if_pos none] at round
    obtain ⟨same, rfl⟩ := Prod.mk.inj round
    obtain rfl := Except.ok.inj same
    exact waiting (List.isEmpty_iff.1 none)
  · rw [if_neg none] at round
    obtain ⟨count, t1, wrote, rest⟩ := Step.run_bind_ok.1 round
    split at rest
    · exact absurd rest Step.run_throw_ne_ok
    · exact absurd rest Step.run_throw_ne_ok
    next n took =>
      obtain ⟨same, rfl⟩ := Prod.mk.inj rest
      obtain rfl := Except.ok.inj same
      intro _
      exact write_pending (fun empty => none (List.isEmpty_iff.2 empty)) took wrote

theorem insertArrival_last {t : Moment} {arrivals : List (Moment × Arrival)} (before : ∀ a ∈ arrivals, a.1 ≤ t)
    (item : Arrival) : insertArrival t item arrivals = arrivals ++ [(t, item)] := by
  induction arrivals with
  | nil => rfl
  | cons first rest ih =>
    rw [insertArrival, if_pos (before first List.mem_cons_self), ih fun a mem => before a (List.mem_cons_of_mem _ mem)]
    rfl

/-- Data are planned behind what comes before them. -/
theorem plan_chunks {d : Chunks} (ordered : d.Ordered) (l : Line)
    (before : ∀ a ∈ l.arrivals, ∀ p ∈ d, a.1 ≤ l.now + p.1) :
    d.events.foldl (fun l e => l.schedule (l.now + e.1) e.2) l =
      { l with arrivals := l.arrivals ++ d.arrivals l.now } := by
  induction d generalizing l with
  | nil => simp [Chunks.events, Chunks.arrivals]
  | cons p d ih =>
    obtain ⟨some, order⟩ := ordered
    obtain ⟨first, order⟩ := List.pairwise_cons.1 order
    have one : l.schedule (l.now + p.1) (.arrival (.data p.2)) =
        { l with arrivals := l.arrivals ++ [(l.now + p.1, .data p.2)] } := by
      rw [← insertArrival_last (fun a mem => before a mem p List.mem_cons_self)]
      obtain ⟨t, bytes⟩ := p
      cases bytes with
      | nil => exact absurd rfl (some _ List.mem_cons_self)
      | cons b bytes => rfl
    rw [Chunks.events, List.map_cons, List.foldl_cons, one]
    refine (ih ⟨fun q mem => some q (List.mem_cons_of_mem _ mem), order⟩ _ fun a mem q later => ?_).trans ?_
    · rcases List.mem_append.1 mem with old | new
      · exact before a old q (List.mem_cons_of_mem _ later)
      · obtain rfl := List.mem_singleton.1 new
        exact Nat.add_le_add_left (first q later) _
    · simp [Chunks.arrivals]

/-- What the far end answers when so many messages were sent, with these answers left. -/
def answered (answers : List FarAnswer) (messages : List Bytes) : List (Duration × Event) :=
  match answers with
  | [] => []
  | answer :: _ => answer messages

theorem planAnswer_chunks (quiet : l.arrivals = []) {d : Chunks} (ordered : d.Ordered)
    (comes : answered l.answers l.messages = d.events) :
    l.planAnswer = { l with answers := l.answers.tail, arrivals := d.arrivals l.now } := by
  unfold planAnswer
  cases here : l.answers with
  | nil =>
    rw [here] at comes
    obtain rfl : d = [] := List.map_eq_nil_iff.1 comes.symm
    have same : ({ l with answers := [], arrivals := [] } : Line) = l := by rw [← here, ← quiet]
    exact same.symm
  | cons answer answers =>
    have before : ∀ a ∈ ({ l with answers } : Line).arrivals, ∀ p ∈ d, a.1 ≤ l.now + p.1 := by
      intro a mem
      rw [quiet] at mem
      cases mem
    rw [here] at comes
    replace comes : answer l.messages = d.events := comes
    have front : l.arrivals ++ d.arrivals l.now = d.arrivals l.now := by rw [quiet, List.nil_append]
    dsimp only
    rw [comes, plan_chunks ordered { l with answers } before]
    dsimp only
    rw [front]
    rfl

/-- A message is flushed, and the answer to it is on its way. -/
theorem deliver_answered (quiet : l.arrivals = []) (noEcho : l.autoEcho = false) (some : l.pending ≠ []) {d : Chunks}
    (ordered : d.Ordered) (comes : answered l.answers l.deliver.messages = d.events) :
    l.deliver.answers = l.answers.tail ∧ l.deliver.port = l.port ∧ l.deliver.arrivals = d.arrivals l.deliver.now := by
  have pending : ¬ l.pending.isEmpty = true := fun none => some (List.isEmpty_iff.1 none)
  have posted : l.deliver = l.post.planAnswer := by
    rw [deliver, if_neg pending, planEcho, noEcho, if_neg Bool.false_ne_true]
  have sent := deliver_sending l
  rw [if_neg pending] at sent
  have messages : l.deliver.messages = l.post.messages := messages_of_sending sent
  rw [messages] at comes
  have planned := planAnswer_chunks (l := l.post) quiet ordered comes
  rw [posted, planned]
  exact ⟨rfl, rfl, rfl⟩

/-- Sends one message. -/
def dispatch (bytes : Bytes) : Step Line Unit := do
  writeAll bytes
  let _ ← flush none

theorem dispatch_deaf (bytes : Bytes) : Deaf (dispatch bytes) :=
  .bind (writeAll_deaf bytes) fun _ => .bind flush_deaf fun _ => .pure _

/-- A message is sent, and the answer to it is on its way. -/
theorem dispatch_answered (quiet : l.arrivals = []) (noEcho : l.autoEcho = false) (some : bytes ≠ [])
    (run : (dispatch bytes).run l = (.ok (), l')) {d : Chunks} (ordered : d.Ordered)
    (comes : answered l.answers l'.messages = d.events) :
    l'.answers = l.answers.tail ∧ l'.port = l.port ∧ l'.arrivals = d.arrivals l'.now := by
  obtain ⟨⟨⟩, t, wrote, rest⟩ := Step.run_bind_ok.1 run
  obtain ⟨done, t', flushed, last⟩ := Step.run_bind_ok.1 rest
  obtain rfl : t' = l' := (Prod.mk.inj last).2
  have pending := writeAll_pending some wrote
  have same := (writeAll_listening bytes).of_run wrote
  simp only [Same, listening, Prod.mk.injEq] at same
  obtain ⟨arrivals, answers, port⟩ := same
  rw [flush_run_none] at flushed
  have delivered : ∃ flushes, t' = ({ t.advanceTo (t.now + t.flushDelay) with flushes } : Line).deliver := by
    generalize nextOutcome t.flushes = next at flushed
    obtain ⟨outcome, flushes⟩ := next
    cases outcome with
    | failure words => cases (Prod.mk.inj flushed).1
    | success | nothing => exact ⟨flushes, (Prod.mk.inj flushed).2.symm⟩
  obtain ⟨flushes, rfl⟩ := delivered
  have left := deliver_answered (l := { t.advanceTo (t.now + t.flushDelay) with flushes }) (arrivals.trans quiet)
    ((congrArg Port.autoEcho port).trans noEcho) pending ordered (by rw [← comes, ← answers]; rfl)
  rw [← answers, ← port]
  exact left

end Line

end Metering
