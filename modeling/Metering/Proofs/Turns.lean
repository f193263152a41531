import Mathlib.Data.Prod.Lex
import Mathlib.Tactic.MkIffOfInductiveProp
import Metering.Proofs.Transit

set_option autoImplicit false

/-! # Frames and their replies

A link that receives takes turns with the far end: it hears a frame in three reads, leaves the line alone
for a while, and replies with one byte, upon which the far end may go on. A turn goes through if the frame
is on its way, each part of it comes in time, and the channel takes the reply (`Turn.Comes`). Then what is
still to come has become less (`Turn.Comes.toCome_lt`), so a link does not wait forever. -/

namespace Metering

namespace Line

/-- The answers that the far end has left, and whether written bytes are heard again. -/
def prospect (l : Line) : List FarAnswer × Bool := (l.answers, l.echoes)

theorem schedule_prospect (moment : Moment) (event : Event) (l : Line) :
    (l.schedule moment event).prospect = l.prospect := by
  unfold schedule
  split
  · split <;> rfl
  · rfl
  · rfl

/-- The far end gives an answer if it has one left. -/
theorem planAnswer_prospect (l : Line) :
    l.planAnswer.prospect = (l.answers.tail, l.echoes) ∧ (l.answers = [] → l.planAnswer = l) := by
  have planned (events : List (Duration × Event)) (l : Line) :
      (events.foldl (fun l e => l.schedule (l.now + e.1) e.2) l).prospect = l.prospect := by
    induction events generalizing l with
    | nil => rfl
    | cons e rest ih => rw [List.foldl_cons, ih, schedule_prospect]
  unfold planAnswer
  cases h : l.answers with
  | nil =>
    refine ⟨?_, fun _ => rfl⟩
    rw [prospect, h]
    rfl
  | cons answer answers => exact ⟨planned _ _, fun none => nomatch none⟩

theorem passTime_run {l : Line} {delay : Duration} {deadline : Moment} (hc : l.cancels = [])
    (timely : delay = 0 ∨ l.now + delay ≤ deadline) :
    (passTime delay (some deadline)).run l = (.ok true, { l with now := l.now + delay }) := by
  unfold passTime
  rw [Step.run_get_bind]
  dsimp only
  rw [if_pos timely, advanceTo_of_cancels hc, Nat.max_eq_right (Nat.le_add_right _ _)]
  rfl

/-- The line after it took a byte. -/
def holding (byte : UInt8) (l : Line) : Line :=
  { l with
    writes := (nextOutcome l.writes).2
    pending := l.pending ++ [byte]
    now := l.now + l.writeDelay }

theorem write_run {l : Line} (byte : UInt8) (deadline : Moment) (hc : l.cancels = [])
    (success : (nextOutcome l.writes).1 = .success) (timely : l.writeDelay = 0 ∨ l.now + l.writeDelay ≤ deadline) :
    (write (some deadline) [byte]).run l = (.ok (some 1), l.holding byte) := by
  have one : (if l.writeChunk = 0 then [byte].length else min [byte].length l.writeChunk) = 1 := by
    simp only [List.length_singleton]
    split <;> omega
  unfold write
  rw [Step.run_get_bind]
  dsimp only
  rw [Step.run_set_bind, success]
  dsimp only
  rw [Step.run_modify_bind, one]
  have passed := passTime_run (l := { l with writes := (nextOutcome l.writes).2, pending := l.pending ++ [byte] }) hc timely
  have taken : [byte].take 1 = [byte] := rfl
  dsimp only
  rw [taken, Step.run_bind_of_ok passed]
  rfl

/-- The line after a flush, but for what the far end makes of it. -/
def flushed (l : Line) : Line := { l with now := l.now + l.flushDelay, flushes := (nextOutcome l.flushes).2 }

theorem flush_run {l : Line} (deadline : Moment) (hc : l.cancels = [])
    (success : (nextOutcome l.flushes).1 = .success ∨ (nextOutcome l.flushes).1 = .nothing)
    (timely : l.flushDelay = 0 ∨ l.now + l.flushDelay ≤ deadline) :
    (flush (some deadline)).run l = (.ok true, l.flushed.deliver) := by
  unfold flush
  rw [Step.run_get_bind, Step.run_bind_of_ok (passTime_run hc timely)]
  dsimp only
  rw [if_pos rfl, Step.run_get_bind]
  dsimp only
  rw [Step.run_set_bind]
  rcases success with success | success <;> rw [success] <;> rfl

/-- The far end gives an answer to what is delivered, if it has one left. -/
theorem deliver_prospect {l : Line} (pending : l.pending ≠ []) (quiet : l.autoEcho = false) :
    l.deliver.prospect = (l.answers.tail, l.echoes) ∧ (l.answers = [] → l.deliver.waiting = l.waiting) := by
  have delivered : l.deliver = l.post.planAnswer := by
    unfold deliver planEcho
    rw [if_neg (by simpa using pending), quiet]
    rfl
  obtain ⟨prospect, same⟩ := l.post.planAnswer_prospect
  rw [delivered]
  refine ⟨prospect, fun none => ?_⟩
  rw [same none]
  rfl

end Line

namespace Channel

open Timed

/-! ## Replies -/

/-- The channel takes a byte in time, and does not hear it again. -/
@[mk_iff]
structure Takes (c : Channel) (timeout : Duration) : Prop where
  write : (Line.nextOutcome c.line.writes).1 = .success
  flush : (Line.nextOutcome c.line.flushes).1 = .success ∨ (Line.nextOutcome c.line.flushes).1 = .nothing
  delays : c.line.writeDelay + c.line.flushDelay ≤ timeout
  echoes : c.line.echoes = false
  autoEcho : c.line.autoEcho = false

instance (c : Channel) : Decidable c.Unhindered := decidable_of_iff _ (unhindered_iff c).symm

instance (c : Channel) (timeout : Duration) : Decidable (c.Takes timeout) :=
  decidable_of_iff _ (takes_iff c timeout).symm

/-- What is still to come: answers of the far end, and bytes to be read. -/
def toCome (c : Channel) : Nat ×ₗ Nat := toLex (c.line.answers.length, c.left)

theorem Later.toCome_lt {c c' : Channel} {n : Nat} (h : Later c c' n) (some : 0 < n) : c'.toCome < c.toCome := by
  have := h.left_eq
  rw [toCome, toCome, h.answers_eq, Prod.Lex.toLex_lt_toLex]
  exact .inr ⟨rfl, by omega⟩

theorem Later.bytes_eq {c c' : Channel} {n : Nat} (h : Later c c' n) :
    c'.due.map (·.2) = (c.due.map (·.2)).drop n := by
  rw [h.due_eq, ← List.map_drop]
  simp [since, Function.comp_def]

/-- The channel after a byte went out. -/
def wrote (c : Channel) (byte : UInt8) : Channel :=
  { c with
    line := (c.line.holding byte).flushed.deliver
    statistics := { c.statistics with sent := c.statistics.sent + 1 } }

/-- **A reply that the channel takes** goes through. -/
theorem write_run {c : Channel} {timeout : Duration} (h : c.Unhindered) (takes : c.Takes timeout) (byte : UInt8) :
    (write [byte] timeout).run c = (.ok 1, c.wrote byte) := by
  have wrote := Line.write_run byte (c.now + timeout) h.cancels takes.write
    (.inr (Nat.add_le_add_left (Nat.le_trans (Nat.le_add_right _ _) takes.delays) _))
  have delays : c.line.now + c.line.writeDelay + c.line.flushDelay ≤ c.line.now + timeout := by
    rw [Nat.add_assoc]
    exact Nat.add_le_add_left takes.delays _
  have flushed := Line.flush_run (l := c.line.holding byte) (c.now + timeout) h.cancels takes.flush (.inr delays)
  obtain ⟨prospect, -⟩ := Line.deliver_prospect (l := (c.line.holding byte).flushed)
    (List.append_ne_nil_of_right_ne_nil _ (List.cons_ne_nil byte [])) takes.autoEcho
  rw [Channel.wrote]
  generalize (c.line.holding byte).flushed.deliver = line at flushed prospect
  obtain ⟨-, echoes⟩ := Prod.mk.inj prospect
  have checked : checkCancelled.run c = (.ok (), c) := by
    unfold checkCancelled
    rw [Step.run_get_bind, h.cancelled, Bool.and_false]
    rfl
  generalize hc1 : ({ c with window := c.window.enter } : Channel) = c1
  -- the byte is taken in one round, and a second one finds that nothing is left
  have first : (writeRound (c.now + timeout) ([byte], 0)).run c1 =
      (.ok (.inl ([], 1)), { c1 with line := c.line.holding byte }) := by
    have taken := orDrop_ok (c := c1) (by rw [← hc1]; exact wrote)
    unfold writeRound
    dsimp only
    rw [if_neg (by simp), Step.run_bind_of_ok taken]
    rfl
  have rounds : (Step.repeatUpTo (writeRound (c.now + timeout)) ([byte].length + 1) ([byte], 0)).run c1 =
      (.ok 1, { c1 with line := c.line.holding byte }) := by
    rw [Step.repeatUpTo, Step.run_bind_of_ok first]
    rfl
  have sent : (transmit [byte] timeout).run c1 =
      (.ok 1, { c1 with line, statistics := { c.statistics with sent := c.statistics.sent + 1 } }) := by
    have now : c1.now = c.now := by rw [← hc1]; rfl
    have posted : (onLine (Line.flush (some (c.now + timeout)))).run { c1 with line := c.line.holding byte } =
        (.ok true, { c1 with line }) := Step.run_within_eq.2 ⟨line, flushed, rfl⟩
    have quiet : line.echoes = false := echoes.trans takes.echoes
    unfold transmit
    rw [Step.run_get_bind, now, Step.run_bind_of_ok rounds, Step.run_bind_of_ok posted]
    dsimp only
    rw [if_neg (by simp), ← hc1]
    unfold count
    rw [Step.run_modify_bind, Step.run_get_bind, quiet]
    rfl
  unfold write inWindow
  rw [Step.run_bind_of_ok (ensureConnected_run h.connected), Step.run_bind_of_ok checked, Step.run_modify_bind,
    Step.run_outcome_bind, hc1, sent, Step.run_modify_bind, Step.run_ofExcept, ← hc1]
  dsimp only
  rw [Window.leave_enter]

/-- The far end may answer a reply. -/
theorem toCome_wrote {c : Channel} {timeout : Duration} (takes : c.Takes timeout) (byte : UInt8) :
    (c.wrote byte).toCome ≤ c.toCome := by
  obtain ⟨prospect, waiting⟩ := Line.deliver_prospect (l := (c.line.holding byte).flushed)
    (List.append_ne_nil_of_right_ne_nil _ (List.cons_ne_nil byte [])) takes.autoEcho
  obtain ⟨answers, -⟩ := Prod.mk.inj prospect
  rw [wrote]
  generalize (c.line.holding byte).flushed.deliver = line at answers waiting
  rw [toCome, toCome, Prod.Lex.toLex_le_toLex]
  show line.answers.length < _ ∨ line.answers.length = _ ∧ line.waiting + c.input.length ≤ c.line.waiting + c.input.length
  rw [answers]
  show c.line.answers.tail.length < _ ∨ c.line.answers.tail.length = _ ∧ _
  cases left : c.line.answers with
  | nil => exact .inr ⟨rfl, Nat.add_le_add_right (Nat.le_of_eq (waiting left)) _⟩
  | cons answer answers => exact .inl (Nat.lt_succ_self _)

/-- The bytes that come next are read if they come in time. -/
theorem readNext_run {c : Channel} {timeout : Duration} {part : Bytes} (h : c.Unhindered)
    (next : part <+: c.due.map (·.2))
    (timely : c.Timely (.each timeout) (c.now + timeout) (c.due.take part.length)) :
    ∃ c', (readExact part.length timeout).run c = (.ok part, c') ∧ Later c c' part.length := by
  have enough : part.length ≤ c.due.length := by simpa using next.length_le
  obtain ⟨c', run, later, -⟩ := (@readExactly_run c _ (.each timeout) h enough).1 timely
  rw [List.map_take, ← List.prefix_iff_eq_take.1 next] at run
  exact ⟨c', run, later⟩

end Channel

/-! ## Turns -/

/-- A frame as a link hears it: the noise in front of the start byte, what follows it in two parts, and the
byte in reply. -/
structure Turn where
  noise : Bytes := []
  header : Bytes
  rest : Bytes
  reply : UInt8
  deriving DecidableEq, Repr

namespace Turn

open Channel

variable (turn : Turn) (p : LinkParameters) (c : Channel)

/-- The channel when the start byte was read. -/
def started : Channel := ((readStart [startByte] p.acknowledgement).run c).2

/-- The channel when the header was read. -/
def headed : Channel := ((readExact (packetHeaderLength - 1) p.intercharacter).run (started p c)).2

/-- The channel when all of the frame was read. -/
def heard : Channel := ((readExact turn.rest.length p.intercharacter).run (headed p c)).2

/-- The channel when the line was left alone. -/
def rested : Channel := ((sleep p.turnaround).run (turn.heard p c)).2

/-- The channel after the reply. -/
def replied : Channel := ((write [turn.reply] p.acknowledgement).run (turn.rested p c)).2

/-- The frame is on its way, its parts come in time, and the channel takes the reply. -/
@[mk_iff]
structure Comes : Prop where
  unhindered : c.Unhindered
  uncut : c.deadlineHit = false
  noise : startByte ∉ turn.noise
  header : turn.header.length = packetHeaderLength - 1
  bytes : turn.noise ++ startByte :: (turn.header ++ turn.rest) <+: c.due.map (·.2)
  /-- The start byte comes before the timeout for it. -/
  start_timely : ∀ x ∈ c.due.take (turn.noise.length + 1), x.1 ≤ max c.now (c.limit (c.now + p.acknowledgement))
  /-- So do the header, and what is left. -/
  header_timely : (started p c).Timely (.each p.intercharacter) ((started p c).now + p.intercharacter)
    ((started p c).due.take (packetHeaderLength - 1))
  rest_timely : (headed p c).Timely (.each p.intercharacter) ((headed p c).now + p.intercharacter)
    ((headed p c).due.take turn.rest.length)
  /-- The deadline of the channel leaves time for the pause. -/
  pause : ((turn.heard p c).capped ((turn.heard p c).now + p.turnaround)).2 = false
  takes : (turn.rested p c).Takes p.acknowledgement

instance : Decidable (turn.Comes p c) := decidable_of_iff _ (comes_iff turn p c).symm

/-- The turns come one after the other. -/
def AllCome (p : LinkParameters) : Channel → List Turn → Prop
  | _, [] => True
  | c, turn :: turns => turn.Comes p c ∧ AllCome p (turn.replied p c) turns

instance AllCome.decidable (p : LinkParameters) : (c : Channel) → (turns : List Turn) → Decidable (AllCome p c turns)
  | _, [] => .isTrue trivial
  | c, turn :: turns =>
    have := AllCome.decidable p (turn.replied p c) turns
    inferInstanceAs (Decidable (_ ∧ _))

namespace Comes

variable {turn p c} (h : turn.Comes p c)

include h

theorem start_run : (readStart [startByte] p.acknowledgement).run c = (.ok startByte, started p c) ∧
    Later c (started p c) (turn.noise.length + 1) := by
  obtain ⟨more, whole⟩ := h.bytes
  rw [List.append_assoc, List.cons_append] at whole
  obtain ⟨front, back, split, noise, back_eq⟩ := List.map_eq_append_iff.1 whole.symm
  obtain ⟨x, rest, rfl, start, -⟩ := List.map_eq_cons_iff.1 back_eq
  have size : front.length = turn.noise.length := by rw [← noise, List.length_map]
  have timely : ∀ y ∈ front ++ [x], y.1 ≤ max c.now (c.limit (c.now + p.acknowledgement)) := by
    intro y hy
    refine h.start_timely y ?_
    rwa [split, ← size, List.append_cons, List.take_left' (by simp)]
  have garbage : ∀ y ∈ front, y.2 ∉ [startByte] := by
    intro y hy isStart
    obtain found := List.mem_singleton.1 isStart
    exact h.noise (noise ▸ found ▸ List.mem_map_of_mem hy)
  have found : x.2 ∈ [startByte] := by simp [start]
  have due : c.due = Timed.since c.now (front ++ x :: rest) := by rw [← split, due_since]
  obtain ⟨c', run, later, -⟩ :=
    (readStart_run h.unhindered due garbage found).1 timely
  have here : started p c = c' := congrArg Prod.snd run
  rw [here, run, start, ← size]
  exact ⟨rfl, later⟩

/-- What stands behind a part of the bytes is next when that part was read. -/
theorem next {c' : Channel} (front part : Bytes) (later : Later c c' front.length)
    (whole : front ++ part <+: turn.noise ++ startByte :: (turn.header ++ turn.rest)) : part <+: c'.due.map (·.2) := by
  obtain ⟨more, same⟩ := whole.trans h.bytes
  rw [later.bytes_eq, ← same, List.append_assoc, List.drop_left]
  exact List.prefix_append part more

theorem header_run :
    (readExact (packetHeaderLength - 1) p.intercharacter).run (started p c) = (.ok turn.header, headed p c) ∧
      Later c (headed p c) (turn.noise ++ startByte :: turn.header).length := by
  obtain ⟨-, later⟩ := h.start_run
  have next := h.next (turn.noise ++ [startByte]) turn.header (by simpa using later)
    ⟨turn.rest, by simp⟩
  obtain ⟨c', run, later'⟩ := readNext_run later.unhindered next (by rw [h.header]; exact h.header_timely)
  rw [h.header] at run
  have here : headed p c = c' := congrArg Prod.snd run
  rw [here, run]
  refine ⟨rfl, ?_⟩
  have both := later.trans later'
  rwa [List.length_append, List.length_cons, Nat.add_comm _ 1, ← Nat.add_assoc]

theorem rest_run :
    (readExact turn.rest.length p.intercharacter).run (headed p c) = (.ok turn.rest, turn.heard p c) ∧
      Later c (turn.heard p c) (turn.noise ++ startByte :: (turn.header ++ turn.rest)).length := by
  obtain ⟨-, later⟩ := h.header_run
  have next := h.next _ turn.rest later (by simp)
  obtain ⟨c', run, later'⟩ := readNext_run later.unhindered next h.rest_timely
  have here : turn.heard p c = c' := congrArg Prod.snd run
  rw [here, run]
  refine ⟨rfl, ?_⟩
  rw [← List.cons_append, ← List.append_assoc, List.length_append]
  exact later.trans later'

theorem pause_run : (sleep p.turnaround).run (turn.heard p c) = (.ok (), turn.rested p c) ∧
    Later c (turn.rested p c) (turn.noise ++ startByte :: (turn.header ++ turn.rest)).length := by
  obtain ⟨-, later⟩ := h.rest_run
  obtain ⟨c', run, later'⟩ := sleep_run later.unhindered h.pause
  have here : turn.rested p c = c' := congrArg Prod.snd run
  rw [here, run]
  exact ⟨rfl, later.trans later'⟩

theorem reply_run : (write [turn.reply] p.acknowledgement).run (turn.rested p c) = (.ok 1, turn.replied p c) := by
  obtain ⟨-, later⟩ := h.pause_run
  have run := write_run later.unhindered h.takes turn.reply
  have here : turn.replied p c = (turn.rested p c).wrote turn.reply := congrArg Prod.snd run
  rw [here, run]

/-- **A turn brings the end nearer.** -/
theorem toCome_lt : (turn.replied p c).toCome < c.toCome := by
  obtain ⟨-, later⟩ := h.pause_run
  have run := write_run later.unhindered h.takes turn.reply
  have here : turn.replied p c = (turn.rested p c).wrote turn.reply := congrArg Prod.snd run
  rw [here]
  exact lt_of_le_of_lt (toCome_wrote h.takes turn.reply) (later.toCome_lt (List.length_pos_of_ne_nil (by simp)))

/-- The reply is all that is written. -/
theorem written_eq : (turn.replied p c).line.written = c.line.written ++ [turn.reply] := by
  have quiet : Reads (turn.heard p c) (turn.rested p c) := Quiet.reads (sleep_quiet _ _)
  have read : (turn.rested p c).line.written = c.line.written := Reads.written_eq <|
    trans_of Reads (readStart_reads _ _ c : Reads c (started p c))
      (trans_of Reads (readExactly_reads _ _ _ : Reads (started p c) (headed p c))
        (trans_of Reads (readExactly_reads _ _ _ : Reads (headed p c) (turn.heard p c)) quiet))
  obtain ⟨echo, -, -, -, wrote⟩ := write_ok h.reply_run
  rw [wrote, read]

end Comes

end Turn

end Metering
