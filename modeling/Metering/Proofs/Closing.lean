import Mathlib.Data.List.Induction
import Metering.MemoryPair
import Metering.Proofs.Alarms
import Metering.Proofs.Queue

set_option autoImplicit false

/-! # Closing a channel

A channel that is closed should release its medium: the medium was closed since it was last opened, and the
other end of a pair then reads the end of the stream. What was done to a medium stands in the history of its
line, and with how its openings end that says whether it is held (`Line.ledger`).

Only opening and closing change what is held (`Channel.Use.turns`). A line may turn out to be closed while it is
held, for instance when a read hears that the far end has closed. A channel that is lost by then takes that for
its own closing and does not release the medium (`Channel.close_releases_iff`). -/

namespace Metering

open Step (Moves Watch)

/-! ## What is held -/

namespace Line

/-- What became of the openings of a medium. -/
structure Ledger where
  /-- How further openings end. -/
  outcomes : List Outcome
  /-- How many succeeded. -/
  openings : Nat := 0
  /-- The medium is in use, and was not closed since the last opening that succeeded. -/
  held : Bool
  deriving DecidableEq

/-- Enters what was done to the medium. -/
def Ledger.enter (g : Ledger) : LineEntry → Ledger
  | .opened =>
    match nextOutcome g.outcomes with
    | (.failure _, outcomes) => { g with outcomes }
    | (_, outcomes) => { outcomes, openings := g.openings + 1, held := true }
  | .closed => { g with held := false }
  | .message _ | .baud _ => g

/-- The ledger of a line that was used from `start` on. A medium that does not report itself closed counts as held. -/
def ledger (l start : Line) : Ledger :=
  l.history.foldr (fun e g => g.enter e.2) { outcomes := start.opens, held := !start.isClosed }

/-- The medium was closed since the last opening that succeeded. -/
def Released (l start : Line) : Prop := (l.ledger start).held = false

instance (l start : Line) : Decidable (Released l start) := inferInstanceAs (Decidable (_ = _))

/-- What was done to the medium, oldest first. -/
def entries (l : Line) : List LineEntry := l.history.reverse.map (·.2)

/-- The medium was used, and neither opened nor closed. It may have turned out to be closed. -/
structure Used (l l' : Line) : Prop where
  opens : l'.opens = l.opens
  ledger (start : Line) : l'.ledger start = l.ledger start
  isClosed : l.isClosed = true → l'.isClosed = true

instance : IsPreorder Line Used where
  refl _ := ⟨rfl, fun _ => rfl, id⟩
  trans _ _ _ h h' :=
    ⟨h'.opens.trans h.opens, fun start => (h'.ledger start).trans (h.ledger start), h'.isClosed ∘ h.isClosed⟩

theorem Used.of_standing {l l' : Line} (h : l'.standing = l.standing) : Used l l' := by
  simp only [standing, Prod.mk.injEq] at h
  obtain ⟨opens, isClosed, history⟩ := h
  refine ⟨opens, fun start => ?_, fun closed => isClosed.trans closed⟩
  rw [Line.ledger, Line.ledger, history]

theorem schedule_used (t : Moment) (event : Event) (l : Line) : Used l (l.schedule t event) := by
  unfold schedule
  split
  · split <;> exact .of_standing rfl
  · exact refl_of Used l
  · exact .of_standing rfl

theorem frame_used : Frame Used where
  kept _ standing := .of_standing standing
  posted _ := ⟨rfl, fun _ => rfl, id⟩
  advanced _ _ := .of_standing rfl
  taken max := by
    refine .get_bind fun l => ?_
    split
    · exact refl_of Used l
    · exact .of_standing rfl
    · exact ⟨rfl, fun _ => rfl, fun _ => rfl⟩
    · exact .of_standing rfl
  echoed l := planEcho_of_scheduled schedule_used l.pending l
  answered := planAnswer_of_scheduled schedule_used fun _ _ => .of_standing rfl

theorem setBaud_used (speed : Nat) : Moves Used (setBaud speed) :=
  .bind (.modify fun _ => ⟨rfl, fun _ => rfl, id⟩) fun _ => .bind .get fun _ =>
    .ite (.throw_bind _ _) (.modify fun _ => .of_standing rfl)

/-- What happened to a medium: it was used, or opened, or closed. -/
inductive Turn (start l l' : Line) : Prop
  | used (openings : (l'.ledger start).openings = (l.ledger start).openings)
      (held : (l'.ledger start).held = (l.ledger start).held) (isClosed : l.isClosed = true → l'.isClosed = true)
  | opened (openings : (l'.ledger start).openings = (l.ledger start).openings + 1)
      (held : (l'.ledger start).held = true) (isClosed : l'.isClosed = false)
  | closed (openings : (l'.ledger start).openings = (l.ledger start).openings)
      (held : (l'.ledger start).held = false) (isClosed : l'.isClosed = true)

/-- The ledger knows how further openings end. -/
def Told (l start : Line) : Prop := (l.ledger start).outcomes = l.opens

theorem Used.turn {start l l' : Line} (used : Used l l') (told : l.Told start) : l'.Told start ∧ Turn start l l' := by
  refine ⟨?_, .used (congrArg _ (used.ledger start)) (congrArg _ (used.ledger start)) used.isClosed⟩
  rw [Told, used.ledger start, used.opens]
  exact told

theorem openUp_turn {start l : Line} (told : l.Told start) :
    (openUp.run l).2.Told start ∧ Turn start l (openUp.run l).2 := by
  unfold openUp
  rw [Step.run_get_bind]
  rcases next : nextOutcome l.opens with ⟨outcome, opens⟩
  have entered : ({ l.note .opened with opens } : Line).ledger start = (l.ledger start).enter .opened := rfl
  have outcomes : (l.ledger start).outcomes = l.opens := told
  unfold Ledger.enter at entered
  dsimp only at entered
  rw [outcomes, next] at entered
  dsimp only
  rw [Step.run_set_bind]
  have left := congrArg Ledger.outcomes entered
  have openings := congrArg Ledger.openings entered
  have held := congrArg Ledger.held entered
  cases outcome with
  | failure words => exact ⟨left, .used openings held id⟩
  | success | nothing => exact ⟨left, .opened openings held rfl⟩

theorem close_turn {start l : Line} (told : l.Told start) :
    (close.run l).2.Told start ∧ Turn start l (close.run l).2 := by
  unfold close
  rw [Step.run_get_bind]
  rcases nextOutcome l.closes with ⟨outcome, closes⟩
  dsimp only
  rw [Step.run_set_bind]
  cases outcome <;> exact ⟨told, .closed rfl rfl rfl⟩

end Line

/-! ## What can be done with a channel -/

namespace Channel

open Line (Used)

variable {α : Type}

/-- Something done with a channel, or happening to it. -/
inductive Use where
  | openUp
  | close
  | call (asked : Call)
  | read (max : Nat) (timeout : Duration)
  | discard (count : Nat)
  | clearInput
  | clearUntilSilence (silence : Duration)
  | write (bytes : Bytes) (timeout : Duration)
  | setBaud (speed : Nat)
  | sleep (d : Duration)
  | checkCancelled
  | cancel
  | enter
  | leave
  | setDeadline (deadline : Option Moment)
  | setSilence (silence : Duration)
  /-- The medium notices by itself that it is closed. -/
  | goesDown

/-- The channel afterwards, whatever the result. -/
def Use.step (c : Channel) : Use → Channel
  | .openUp => (Channel.openUp.run c).2
  | .close => (Channel.close.run c).2
  | .call asked => (asked.step.run c).2
  | .read max timeout => ((Channel.read max timeout).run c).2
  | .discard count => ((Channel.discard count).run c).2
  | .clearInput => (Channel.clearInput.run c).2
  | .clearUntilSilence silence => ((Channel.clearUntilSilence silence).run c).2
  | .write bytes timeout => ((Channel.write bytes timeout).run c).2
  | .setBaud speed => ((Channel.setBaud speed).run c).2
  | .sleep d => ((Channel.sleep d).run c).2
  | .checkCancelled => (Channel.checkCancelled.run c).2
  | .cancel => c.cancel
  | .enter => { c with window := c.window.enter }
  | .leave => { c with window := c.window.leave }
  | .setDeadline deadline => c.setDeadline deadline
  | .setSilence silence => { c with intercharacter := silence }
  | .goesDown => { c with line.isClosed := true }

/-- The line of the channel is used. -/
def usedWatch : Watch Channel where
  calm c c' := Used c.line c'.line
  alarm _ _ _ := False
  refl c := refl_of Used c.line
  trans := trans_of Used
  before _ := id

theorem onLine_used {x : Step Line α} (h : Moves Used x) : Moves usedWatch.calm (onLine x) :=
  .within h fun _ _ used => used

theorem orDrop_used {x : Step Line α} (h : Moves Used x) : Moves usedWatch.calm (orDrop x) := by
  refine .bind (.outcome (onLine_used h)) fun r => ?_
  cases r with
  | ok a => exact .pure a
  | error e => exact .bind (.modify fun c => refl_of Used c.line) fun _ => .throw e

theorem watched_usedWatch : Watched usedWatch where
  kept line _ := .of_standing (congrArg Line.standing line)
  passed alarm := alarm.elim
  alarms alarm := alarm.elim
  waited c arrival deadline honour := Line.waitFor_frame Line.frame_used arrival deadline honour c.line
  read _ _ _ := .of_calm (orDrop_used (Line.read_frame Line.frame_used _ _ _))
  readNow _ _ := .of_calm (onLine_used (Line.read_frame Line.frame_used _ _ _))
  written _ _ := .of_calm (orDrop_used (Line.write_frame Line.frame_used _ _))
  flushed _ := .of_calm (onLine_used (Line.flush_frame Line.frame_used _))
  ended := .of_calm (.bind (.modify fun c => refl_of Used c.line) fun _ => .throw _)
  stopped := .of_calm (.bind (.modify fun _ => .of_standing rfl) fun _ => .throw _)

/-- What heeds a watch without alarms is calm. -/
theorem used_of_heeds {x : Step Channel α} (h : usedWatch.Heeds x) : Moves usedWatch.calm x :=
  fun c => (h c).resolve_right fun ⟨_, _, alarm⟩ => alarm

theorem Call.step_used (call : Call) : Moves usedWatch.calm call.step := by
  have h := watched_usedWatch
  cases call with
  | readExact count timeout => exact used_of_heeds (readExactly_heeds h _ _).of_only
  | readExactUntil count deadline => exact used_of_heeds (readExactly_heeds h _ _).of_only
  | peekExact count timeout =>
    exact used_of_heeds (.bind (ensureConnected_heeds _) fun _ => .bind (fillTo_heeds h _ _).of_only fun _ =>
      .bind .get fun _ => .pure _)
  | unread bytes => exact .bind (.modify fun c => refl_of Used c.line) fun _ => .pure _
  | waitStart wanted timeout => exact used_of_heeds (.bind (waitStart_heeds h _ _).of_only fun _ => .pure _)
  | readStart wanted timeout => exact used_of_heeds (.bind (readStart_heeds h _ _).of_only fun _ => .pure _)
  | idle d => exact .bind (.modify fun c => Line.frame_used.advanced _ c.line) fun _ => .pure _

theorem read_used (max : Nat) (timeout : Duration) : Moves usedWatch.calm (read max timeout) :=
  used_of_heeds (.bind (ensureConnected_heeds _) fun _ => .bind (fillTo_heeds watched_usedWatch _ _).of_only fun _ =>
    .of_calm fun c => refl_of Used c.line)

theorem clearUntilSilence_used (silence : Duration) : Moves usedWatch.calm (clearUntilSilence silence) := by
  have h := watched_usedWatch
  refine used_of_heeds (.bind (ensureConnected_heeds _) fun _ => .bind (clearRing_heeds h).of_only fun _ =>
    rounds_heeds (fun _ => .bind .get fun _ => .bind (fill_heeds h _).of_only fun heard => ?_) _)
  cases heard with
  | data => exact .bind (clearRing_heeds h).of_only fun _ => .pure _
  | elapsed => exact .pure _

theorem setBaud_used (speed : Nat) : Moves usedWatch.calm (setBaud speed) :=
  .bind (.bind .get fun _ => .ite (.throw _) (.pure _)) fun _ => onLine_used (Line.setBaud_used speed)

theorem openUp_turn {start : Line} {c : Channel} (told : c.line.Told start) :
    (openUp.run c).2.line.Told start ∧ Line.Turn start c.line (openUp.run c).2.line := by
  unfold openUp
  rw [Step.run_get_bind]
  by_cases connected : c.connected = true
  · rw [if_pos connected]
    exact Line.Used.turn (refl_of Used c.line) told
  rw [if_neg connected]
  have opened : ((do
        onLine Line.openUp
        clearRing
        modify ({ · with connected := true }) : Step Channel Unit).run c).2.line = (Line.openUp.run c.line).2 := by
    rw [onLine, Step.run_bind, Step.run_within]
    rcases Line.openUp.run c.line with ⟨e | _, l⟩ <;> rfl
  by_cases stopped : (!c.window.isActive && c.line.handle.cancelled) = true
  · rw [checkCancelled, bind_assoc, Step.run_get_bind, if_pos stopped]
    have used : Line.Used c.line c.line.stop := .of_standing rfl
    exact used.turn told
  · rw [checkCancelled, bind_assoc, Step.run_get_bind, if_neg stopped, pure_bind]
    rw [opened]
    exact Line.openUp_turn told

theorem close_turn {start : Line} {c : Channel} (told : c.line.Told start) :
    (close.run c).2.line.Told start ∧ Line.Turn start c.line (close.run c).2.line := by
  unfold close
  rw [Step.run_get_bind]
  by_cases closed : (!c.connected && c.line.isClosed) = true
  · rw [if_pos closed]
    exact Line.Used.turn (refl_of Used c.line) told
  · rw [if_neg closed]
    exact Line.close_turn told

/-- **One use** of a channel opens its medium, or closes it, or does neither. -/
theorem Use.turn {start : Line} {c : Channel} (told : c.line.Told start) (use : Use) :
    (use.step c).line.Told start ∧ Line.Turn start c.line (use.step c).line := by
  have h := watched_usedWatch
  cases use with
  | openUp => exact openUp_turn told
  | close => exact close_turn told
  | call asked => exact Line.Used.turn (asked.step_used c) told
  | read max timeout => exact Line.Used.turn (read_used max timeout c) told
  | clearInput => exact Line.Used.turn (used_of_heeds (clearInput_heeds h) c) told
  | clearUntilSilence silence => exact Line.Used.turn (clearUntilSilence_used silence c) told
  | write bytes timeout => exact Line.Used.turn (used_of_heeds (write_heeds h bytes timeout) c) told
  | setBaud speed => exact Line.Used.turn (setBaud_used speed c) told
  | sleep d => exact Line.Used.turn (used_of_heeds (sleep_heeds h d).of_only c) told
  | checkCancelled => exact Line.Used.turn (used_of_heeds (checkCancelled_heeds h) c) told
  | cancel =>
    have used : Line.Used c.line c.cancel.line := .of_standing rfl
    exact used.turn told
  | goesDown =>
    have used : Line.Used c.line { c.line with isClosed := true } := ⟨rfl, fun _ => rfl, fun _ => rfl⟩
    exact used.turn told
  | discard count | enter | leave | setDeadline deadline | setSilence silence =>
    exact Line.Used.turn (refl_of Used c.line) told

/-! ## Runs -/

/-- A channel after a run of uses. -/
def Use.run (uses : List Use) (c : Channel) : Channel := uses.foldl Use.step c

theorem Use.run_append (before after : List Use) (c : Channel) : run (before ++ after) c = run after (run before c) :=
  List.foldl_append

/-- During some use of a run the medium turned out to be closed. At the end it is still held, and it was not
opened since then. -/
def FoundClosed (start : Line) (uses : List Use) : Prop :=
  ∃ before use after, uses = before ++ use :: after ∧ (Use.run before (ofLine start)).line.isClosed = false ∧
    (use.step (Use.run before (ofLine start))).line.isClosed = true ∧
    ((Use.run uses (ofLine start)).line.ledger start).held = true ∧
    ((Use.run uses (ofLine start)).line.ledger start).openings =
      ((Use.run before (ofLine start)).line.ledger start).openings

variable {start : Line}

/-- Openings are never fewer, and without a further one a line that is closed stays so. -/
theorem Use.run_closed {c : Channel} (told : c.line.Told start) (uses : List Use) :
    (c.line.ledger start).openings ≤ ((run uses c).line.ledger start).openings ∧
      (((run uses c).line.ledger start).openings = (c.line.ledger start).openings → c.line.isClosed = true →
        (run uses c).line.isClosed = true) := by
  induction uses generalizing c with
  | nil => exact ⟨Nat.le_refl _, fun _ closed => closed⟩
  | cons use more ih =>
    obtain ⟨told', turn⟩ := Use.turn told use
    obtain ⟨le, stays⟩ := ih told'
    rw [run, List.foldl_cons, ← run]
    cases turn with
    | used openings _ isClosed =>
      rw [openings] at le stays
      exact ⟨le, fun same closed => stays same (isClosed closed)⟩
    | opened openings _ _ =>
      rw [openings] at le
      exact ⟨Nat.le_of_succ_le le, fun same => absurd same (Nat.ne_of_gt le)⟩
    | closed openings _ isClosed =>
      rw [openings] at le stays
      exact ⟨le, fun same _ => stays same isClosed⟩

theorem told_start (new : start.history = []) : start.Told start := by
  rw [Line.Told, Line.ledger, new]
  rfl

theorem Use.run_told (new : start.history = []) (uses : List Use) : (run uses (ofLine start)).line.Told start := by
  induction uses using List.reverseRecOn with
  | nil => exact told_start new
  | append_singleton uses use ih =>
    rw [run_append]
    exact (use.turn ih).1

/-- **A medium that is held but reports itself closed** turned out to be closed. -/
theorem foundClosed_iff (new : start.history = []) (uses : List Use) :
    FoundClosed start uses ↔ ((Use.run uses (ofLine start)).line.ledger start).held = true ∧
      (Use.run uses (ofLine start)).line.isClosed = true := by
  constructor
  · rintro ⟨before, use, after, rfl, -, closed, held, openings⟩
    refine ⟨held, ?_⟩
    have told := Use.run_told new before
    obtain ⟨told', -⟩ := use.turn told
    obtain ⟨first, -⟩ := Use.run_closed told [use]
    obtain ⟨rest, stays⟩ := Use.run_closed told' after
    rw [Use.run_append] at openings ⊢
    exact stays (Nat.le_antisymm (openings ▸ first) rest) closed
  · rintro ⟨held, closed⟩
    induction uses using List.reverseRecOn with
    | nil =>
      have fresh : (start.ledger start).held = !start.isClosed := by rw [Line.ledger, new]; rfl
      rw [show (Use.run [] (ofLine start)).line = start from rfl, fresh] at held
      rw [show (Use.run [] (ofLine start)).line = start from rfl] at closed
      rw [closed] at held
      cases held
    | append_singleton uses use ih =>
      obtain ⟨-, turn⟩ := use.turn (Use.run_told new uses)
      have last : Use.run (uses ++ [use]) (ofLine start) = use.step (Use.run uses (ofLine start)) := Use.run_append _ _ _
      rw [FoundClosed, last]
      rw [last] at held closed
      cases turn with
      | used openings same _ =>
        rw [same] at held
        rw [openings]
        by_cases before : (Use.run uses (ofLine start)).line.isClosed = true
        · obtain ⟨first, found, after, rfl, open_, closed', -, counted⟩ := ih held before
          exact ⟨first, found, after ++ [use], by simp, open_, closed', same.trans held, counted⟩
        · exact ⟨uses, use, [], rfl, by simpa using before, closed, same.trans held, rfl⟩
      | opened _ _ isClosed =>
        rw [isClosed] at closed
        cases closed
      | closed _ released _ =>
        rw [released] at held
        cases held

theorem close_of_closed {c : Channel} (lost : c.connected = false) (closed : c.line.isClosed = true) :
    close.run c = (.ok (), c) := by
  unfold close
  rw [Step.run_get_bind, lost, closed]
  rfl

/-- Otherwise the medium is closed, whether or not that fails. -/
theorem close_of_open (start : Line) {c : Channel} (h : ¬ (c.connected = false ∧ c.line.isClosed = true)) :
    ∃ c', close.run c = (.ok (), c') ∧ c'.connected = false ∧ c'.line.isClosed = true ∧ c'.line.Released start := by
  have skipped : ¬ (!c.connected && c.line.isClosed) = true := by simpa using h
  unfold close
  rw [Step.run_get_bind, if_neg skipped]
  refine ⟨_, rfl, rfl, ?_⟩
  show ((Line.close.run c.line).2).isClosed = true ∧ ((Line.close.run c.line).2).Released start
  unfold Line.close
  rw [Step.run_get_bind]
  rcases Line.nextOutcome c.line.closes with ⟨outcome, closes⟩
  dsimp only
  rw [Step.run_set_bind]
  cases outcome <;> exact ⟨rfl, rfl⟩

end Channel

/-! ## The other end of a pair -/

namespace MemoryPair

/-- What happens at a pair when a line stands for one of its ends. -/
inductive Act where
  /-- Something is done to the line. -/
  | own (entry : LineEntry)
  | ownRead (max : Nat)
  | peerRead (max : Nat)
  | peerWrite (bytes : Bytes)
  | peerOpen
  | peerClose

/-- What the line had done to it. -/
def Act.own? : Act → Option LineEntry
  | own entry => some entry
  | _ => none

def Act.step (side : Side) (p : MemoryPair) : Act → MemoryPair
  | own (.message bytes) => (p.write side bytes).2
  | own .opened => p.openUp side
  | own .closed => p.close side
  | own (.baud _) => p
  | ownRead max => (p.read side max).2
  | peerRead max => (p.read side.other max).2
  | peerWrite bytes => (p.write side.other bytes).2
  | peerOpen => p.openUp side.other
  | peerClose => p.close side.other

def Act.run (side : Side) (acts : List Act) (p : MemoryPair) : MemoryPair := acts.foldl (step side) p

/-- What so many reads at an end give. -/
def reads (side : Side) (max : Nat) : Nat → MemoryPair → List (Option Bytes)
  | 0, _ => []
  | n + 1, p => (p.read side max).1 :: reads side max n (p.read side max).2

/-- Whoever reads at an end gets what is left in its pipe, and then the end of the stream. -/
def ReadsOut (side : Side) (p : MemoryPair) : Prop :=
  ∀ max, 0 < max → ∃ pieces : List Bytes, p.reads side max (pieces.length + 1) = pieces.map some ++ [some []] ∧
    pieces.flatten = (p.inbox side).contents ∧ [] ∉ pieces

variable {side : Side} {p : MemoryPair}

theorem read_of_contents {max : Nat} (positive : 0 < max) (some : (p.inbox side).contents ≠ []) :
    ∃ p' : MemoryPair, p.read side max = (.some ((p.inbox side).contents.take max), p') ∧
      p'.inbox side = { p.inbox side with contents := (p.inbox side).contents.drop max } := by
  have pipe : (p.inbox side).read max =
      (.some ((p.inbox side).contents.take max), { p.inbox side with contents := (p.inbox side).contents.drop max }) := by
    unfold Pipe.read
    rw [if_pos (by simpa using some)]
  have taken : (p.inbox side).contents.take max ≠ [] := by
    rw [Ne, List.take_eq_nil_iff, not_or]
    exact ⟨Nat.ne_of_gt positive, some⟩
  unfold read
  rw [pipe]
  dsimp only
  rw [if_neg (by simpa using taken)]
  exact ⟨_, rfl, if_pos rfl⟩

theorem readsOut_of_closed (closed : (p.inbox side).closed = true) : p.ReadsOut side := by
  intro max positive
  generalize left : (p.inbox side).contents.length = n
  induction n using Nat.strongRecOn generalizing p with
  | ind n ih =>
    by_cases none : (p.inbox side).contents = []
    · refine ⟨[], ?_, none.symm, List.not_mem_nil⟩
      simp [reads, read, Pipe.read, none, closed]
    obtain ⟨p', run, inbox⟩ := read_of_contents positive none
    have shorter : (p'.inbox side).contents.length < n := by
      have := List.length_pos_iff.2 none
      rw [inbox, List.length_drop]
      omega
    obtain ⟨pieces, given, whole, full⟩ := ih _ shorter (p := p') (by rw [inbox]; exact closed) rfl
    refine ⟨(p.inbox side).contents.take max :: pieces, ?_, ?_, ?_⟩
    · rw [reads, run, List.length_cons, given, List.map_cons, List.cons_append]
    · rw [List.flatten_cons, whole, inbox, List.take_append_drop]
    · have first : [] ≠ (p.inbox side).contents.take max := by
        rw [ne_comm, Ne, List.take_eq_nil_iff, not_or]
        exact ⟨Nat.ne_of_gt positive, none⟩
      exact fun listed => (List.mem_cons.1 listed).elim first full

theorem closed_updated {s t : Side} {pipe : Pipe} (closed : (p.inbox t).closed = true)
    (kept : (p.inbox s).closed = true → pipe.closed = true) : (updated p.inbox s pipe t).closed = true := by
  unfold updated
  split
  next same =>
    subst same
    exact kept closed
  next => exact closed

/-- No reading or writing at any end opens a pipe again that is closed. -/
theorem Act.step_closed (act : Act) (closed : (p.inbox side.other).closed = true) :
    ((act.step side p).inbox side.other).closed = true := by
  have read (s : Side) (max : Nat) : ((p.read s max).2.inbox side.other).closed = true := by
    have kept : (p.inbox s).closed = true → ((p.inbox s).read max).2.closed = true := by
      unfold Pipe.read
      split
      · exact id
      · split <;> exact id
    unfold MemoryPair.read
    dsimp only
    split <;> exact closed_updated closed kept
  have written (s : Side) (bytes : Bytes) : ((p.write s bytes).2.inbox side.other).closed = true := by
    unfold write Pipe.write
    split
    next fault _ _ => exact closed
    next count pipe wrote =>
      split at wrote
      · cases wrote
      · dsimp only at wrote
        split at wrote
        · obtain ⟨-, rfl⟩ := Prod.mk.inj (Except.ok.inj wrote)
          exact closed_updated closed id
        · obtain ⟨-, rfl⟩ := Prod.mk.inj (Except.ok.inj wrote)
          exact closed_updated closed id
  have shut (s : Side) : ((p.close s).inbox side.other).closed = true := closed_updated closed fun _ => rfl
  cases act with
  | own entry =>
    cases entry with
    | message bytes => exact written side bytes
    | opened => exact closed
    | closed => exact shut side
    | baud speed => exact closed
  | ownRead max => exact read side max
  | peerRead max => exact read side.other max
  | peerWrite bytes => exact written side.other bytes
  | peerOpen => exact closed
  | peerClose => exact shut side.other

theorem Act.run_closed (acts : List Act) (closed : (p.inbox side.other).closed = true) :
    ((run side acts p).inbox side.other).closed = true := by
  induction acts generalizing p with
  | nil => exact closed
  | cons act more ih => exact ih (act.step_closed closed)

/-- **Once an end was closed**, the other one reads out what is on its way, whatever happens afterwards. -/
theorem Act.run_readsOut {acts : List Act} (h : .closed ∈ acts.filterMap own?) (p : MemoryPair) :
    (run side acts p).ReadsOut side.other := by
  obtain ⟨act, listed, own⟩ := List.mem_filterMap.1 h
  obtain ⟨before, after, rfl⟩ := List.append_of_mem listed
  have same : act = .own .closed := by
    cases act with
    | own entry => exact congrArg Act.own (Option.some.inj own)
    | ownRead | peerRead | peerWrite | peerOpen | peerClose => cases own
  subst same
  unfold run
  rw [List.foldl_append, List.foldl_cons]
  exact readsOut_of_closed (run_closed after (congrArg Pipe.closed (if_pos rfl)))

end MemoryPair

namespace Channel

variable {start : Line}

/-- A medium that did not report itself closed from the start is not held any more: it was closed. -/
theorem closed_of_released (up : start.isClosed = false) {l : Line} (released : l.Released start) :
    .closed ∈ l.entries := by
  have listed (history : List (Moment × LineEntry))
      (h : (history.foldr (fun e g => Line.Ledger.enter g e.2) { outcomes := start.opens, held := !start.isClosed }).held =
        false) : .closed ∈ history.map (·.2) := by
    induction history with
    | nil =>
      rw [List.foldr_nil, up] at h
      cases h
    | cons e rest ih =>
      obtain ⟨moment, entry⟩ := e
      rw [List.foldr_cons] at h
      cases entry with
      | closed => exact List.mem_cons_self
      | message bytes => exact List.mem_cons_of_mem _ (ih h)
      | baud speed => exact List.mem_cons_of_mem _ (ih h)
      | opened =>
        refine List.mem_cons_of_mem _ (ih ?_)
        unfold Line.Ledger.enter at h
        dsimp only at h
        split at h
        · exact h
        · cases h
  rw [Line.entries, List.map_reverse, List.mem_reverse]
  exact listed l.history released

/-- **Closing a channel** always succeeds, and the channel and its medium then report themselves closed. The
medium is released, that is, it was closed since its last opening, unless the channel was lost by then and the
medium turned out to be closed while it was held. The other end of a pair then reads the end of the stream. -/
theorem close_releases_iff (start : Line) (new : start.history = []) (uses : List Use) :
    ∃ c', close.run (Use.run uses (ofLine start)) = (.ok (), c') ∧ c'.connected = false ∧ c'.line.isClosed = true ∧
      (c'.line.Released start ↔
        ¬ ((Use.run uses (ofLine start)).connected = false ∧ FoundClosed start uses)) ∧
      (start.isClosed = false → c'.line.Released start → ∀ side acts pair,
        acts.filterMap MemoryPair.Act.own? = c'.line.entries →
        (MemoryPair.Act.run side acts pair).ReadsOut side.other) := by
  have reported (c' : Channel) (up : start.isClosed = false) (released : c'.line.Released start) (side : Side)
      (acts : List MemoryPair.Act) (pair : MemoryPair)
      (own : acts.filterMap MemoryPair.Act.own? = c'.line.entries) :
      (MemoryPair.Act.run side acts pair).ReadsOut side.other :=
    MemoryPair.Act.run_readsOut (own ▸ closed_of_released up released) pair
  rw [foundClosed_iff new]
  generalize Use.run uses (ofLine start) = c
  by_cases closed : c.connected = false ∧ c.line.isClosed = true
  · refine ⟨c, close_of_closed closed.1 closed.2, closed.1, closed.2, ?_, reported c⟩
    simp [Line.Released, closed.1, closed.2]
  · obtain ⟨c', run, lost, down, released⟩ := close_of_open start closed
    refine ⟨c', run, lost, down, ?_, reported c'⟩
    exact iff_of_true released fun ⟨lost, _, down⟩ => closed ⟨lost, down⟩

/-- A line that fails when it is read. -/
def brokenLine : Line := { isClosed := false, arrivals := [(0, .failure "the medium is broken")] }

/-- After a read that failed the medium is released, and the other end of a pair reads the end of the stream. -/
theorem close_releases_iff_failedRead :
    ∃ c', close.run (Use.run [.openUp, .read 1 1000] (ofLine brokenLine)) = (.ok (), c') ∧ c'.line.Released brokenLine ∧
      c'.line.entries = [.opened, .closed] ∧
      (MemoryPair.Act.run .first [.own .opened, .peerWrite [1], .own .closed] {}).ReadsOut .second := by
  obtain ⟨c', run, -, -, released, peer⟩ := close_releases_iff brokenLine rfl [.openUp, .read 1 1000]
  have held : c'.line.Released brokenLine := by
    rw [released, foundClosed_iff rfl]
    decide
  have entries : c'.line.entries = [.opened, .closed] := by
    rw [← show (close.run (Use.run [.openUp, .read 1 1000] (ofLine brokenLine))).2 = c' from congrArg Prod.snd run]
    decide
  exact ⟨c', run, held, entries, peer rfl held .first _ {} entries.symm⟩

/-- A line on which the far end closes at once. -/
def endedLine : Line := { arrivals := [(0, .ended)] }

/-- **The medium is not released** when a read heard that the far end has closed: it was opened and never closed,
and the other end of a pair goes on waiting. -/
theorem close_unreleased :
    (close.run (Use.run [.openUp, .read 1 1000] (ofLine endedLine))).1 = .ok () ∧
      ¬ (close.run (Use.run [.openUp, .read 1 1000] (ofLine endedLine))).2.line.Released endedLine ∧
      (close.run (Use.run [.openUp, .read 1 1000] (ofLine endedLine))).2.line.entries = [.opened] ∧
      ((MemoryPair.Act.run .first [.own .opened, .peerClose, .ownRead 1] {}).read .second 1).1 = none := by
  decide

end Channel

end Metering
