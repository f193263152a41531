import Metering.Channel.Write
import Metering.Proofs.Steps

set_option autoImplicit false

/-! # Faults that nobody may pass over

Some faults tell of something that the caller of an operation has to learn of: that it was asked to stop, or
that the line is gone. A `Step.Watch` says when a run was calm, and what else a run that fails may tell. A step
heeds the watch (`Step.Watch.Heeds`) if every run of it is calm, or fails with the alarm. Sequences of steps that
heed a watch heed it, and so does what goes on after a fault as long as it passes an alarm on.

A channel heeds every watch that its work on the line heeds (`Channel.Watched`). -/

namespace Metering

open Step (Moves)

namespace Step

variable {σ τ α β : Type}

/-- What may come of a run: it was calm between two states, or it fails with an alarm. -/
structure Watch (σ : Type) where
  calm : σ → σ → Prop
  alarm : σ → Fault → σ → Prop
  refl (s : σ) : calm s s
  trans {s t u : σ} : calm s t → calm t u → calm s u
  before {s t u : σ} {e : Fault} : calm s t → alarm t e u → alarm s e u

namespace Watch

variable (w : Watch σ)

/-- The result of a run tells what happened. -/
def Tells (s : σ) (r : Except Fault α) (t : σ) : Prop := w.calm s t ∨ ∃ e, r = .error e ∧ w.alarm s e t

/-- The result of every run tells what happened. -/
def Heeds (x : Step σ α) : Prop := ∀ s, w.Tells s (x.run s).1 (x.run s).2

/-- The same watch for fewer alarms. -/
def only (p : Fault → Prop) : Watch σ where
  calm := w.calm
  alarm s e t := w.alarm s e t ∧ p e
  refl := w.refl
  trans := w.trans
  before calm alarm := ⟨w.before calm alarm.1, alarm.2⟩

instance : IsPreorder σ w.calm where
  refl := w.refl
  trans _ _ _ := w.trans

variable {w}

theorem Tells.mono {v : Watch τ} {s t : σ} {s' t' : τ} {r : Except Fault α} (h : w.Tells s r t)
    (calm : w.calm s t → v.calm s' t') (alarm : ∀ e, w.alarm s e t → v.alarm s' e t') : v.Tells s' r t' :=
  h.imp calm fun ⟨e, failed, raised⟩ => ⟨e, failed, alarm e raised⟩

theorem Tells.after {s t u : σ} {r : Except Fault α} (calm : w.calm s t) (h : w.Tells t r u) : w.Tells s r u :=
  h.mono (w.trans calm) fun _ => w.before calm

/-- A run that succeeds was calm. -/
theorem Tells.calm_of_ok {s t : σ} {a : α} (h : w.Tells s (.ok a) t) : w.calm s t :=
  h.resolve_right fun ⟨_, failed, _⟩ => nomatch failed

theorem Tells.of_error {s t : σ} {e : Fault} (h : w.Tells (α := α) s (.error e) t) : w.calm s t ∨ w.alarm s e t :=
  h.imp_right fun ⟨_, failed, alarm⟩ => by obtain rfl := Except.error.inj failed; exact alarm

theorem Tells.error {s t : σ} {e : Fault} (h : w.calm s t ∨ w.alarm s e t) : w.Tells (α := α) s (.error e) t :=
  h.imp_right fun alarm => ⟨e, rfl, alarm⟩

namespace Heeds

theorem of_only {p : Fault → Prop} {x : Step σ α} (h : (w.only p).Heeds x) : w.Heeds x :=
  fun s => (h s).mono id fun _ => And.left

theorem of_calm {x : Step σ α} (h : Moves w.calm x) : w.Heeds x := fun s => .inl (h s)

theorem of_run {x : Step σ α} (h : w.Heeds x) {s t : σ} {r : Except Fault α} (run : x.run s = (r, t)) :
    w.Tells s r t := by
  have := h s
  rwa [run] at this

theorem pure (a : α) : w.Heeds (Pure.pure a : Step σ α) := of_calm (.pure a)

theorem throw (e : Fault) : w.Heeds (MonadExcept.throw e : Step σ α) := of_calm (.throw e)

theorem throw_bind (e : Fault) (f : α → Step σ β) : w.Heeds ((MonadExcept.throw e : Step σ α) >>= f) :=
  of_calm (.throw_bind e f)

theorem get : w.Heeds (MonadState.get : Step σ σ) := of_calm .get

theorem modify {f : σ → σ} (h : ∀ s, w.calm s (f s)) : w.Heeds (modify f : Step σ PUnit) := of_calm (.modify h)

theorem ofExcept (r : Except Fault α) : w.Heeds (Step.ofExcept r : Step σ α) := of_calm (.ofExcept r)

theorem get_bind {f : σ → Step σ α} (hf : ∀ s, w.Tells s ((f s).run s).1 ((f s).run s).2) :
    w.Heeds (MonadState.get >>= f) := hf

theorem ite {c : Prop} [Decidable c] {x y : Step σ α} (hx : w.Heeds x) (hy : w.Heeds y) :
    w.Heeds (if c then x else y) := by
  split
  · exact hx
  · exact hy

theorem bind {x : Step σ α} {f : α → Step σ β} (hx : w.Heeds x) (hf : ∀ a, w.Heeds (f a)) :
    w.Heeds (x >>= f) := by
  intro s
  have first := hx s
  rw [run_bind]
  rcases hr : x.run s with ⟨r, t⟩
  rw [hr] at first
  cases r with
  | ok a => exact .after first.calm_of_ok (hf a t)
  | error e => exact .error first.of_error

/-- What stands behind a fault passes an alarm on. -/
theorem outcome_bind {x : Step σ α} {f : Except Fault α → Step σ β} (hx : w.Heeds x) (hf : ∀ r, w.Heeds (f r))
    (passed : ∀ s e t, w.alarm s e t → w.Tells s ((f (.error e)).run t).1 ((f (.error e)).run t).2) :
    w.Heeds (x.outcome >>= f) := by
  intro s
  rw [run_outcome_bind]
  rcases hx s with calm | ⟨e, failed, alarm⟩
  · exact .after calm (hf _ _)
  · rw [failed]
    exact passed s e _ alarm

theorem repeatUpTo {next : α → Step σ (α ⊕ β)} (h : ∀ a, w.Heeds (next a)) (fuel : Nat) (a : α) :
    w.Heeds (Step.repeatUpTo next fuel a) := by
  induction fuel generalizing a with
  | zero => exact throw _
  | succ fuel ih =>
    refine bind (h a) fun r => ?_
    cases r with
    | inl a => exact ih a
    | inr b => exact pure b

theorem repeatUntilFewer {answers : σ → Nat} {next : α → Step σ (α ⊕ β)} {again : α → Step σ β}
    (h : ∀ a, w.Heeds (next a)) (hagain : ∀ a, w.Heeds (again a)) (left fuel : Nat) (a : α) :
    w.Heeds (Step.repeatUntilFewer answers next again left fuel a) := by
  induction fuel generalizing a with
  | zero => exact throw _
  | succ fuel ih =>
    refine bind (h a) fun r => ?_
    cases r with
    | inl a => exact bind get fun _ => ite (hagain a) (ih a)
    | inr b => exact pure b

theorem repeatWhileFed {answers waiting : σ → Nat} {next : α → Step σ (α ⊕ β)} (h : ∀ a, w.Heeds (next a))
    (rounds : Nat) (a : α) : w.Heeds (Step.repeatWhileFed answers waiting next rounds a) := by
  induction rounds generalizing a with
  | zero => exact bind get fun _ => repeatUntilFewer h (fun _ => throw _) _ _ a
  | succ rounds ih => exact bind get fun _ => repeatUntilFewer h ih _ _ a

end Heeds

/-- A step of an inner layer heeds what the watch is there. -/
theorem Heeds.within {w : Watch τ} {v : Watch σ} {get : τ → σ} {set : τ → σ → τ} {x : Step σ α} (hx : v.Heeds x)
    (calm : ∀ t s', v.calm (get t) s' → w.calm t (set t s'))
    (alarm : ∀ t e s', v.alarm (get t) e s' → w.alarm t e (set t s')) : w.Heeds (Step.within get set x) :=
  fun t => (hx (get t)).mono (calm t _) fun e => alarm t e _

end Watch

/-! ## Loops, however they end -/

/-- The rounds of a loop keep an invariant, and when they end they do so as `E` says. -/
def Leads (I : α → σ → Prop) (E : Except Fault β → σ → Prop) (next : α → Step σ (α ⊕ β)) : Prop :=
  ∀ a s, I a s → match (next a).run s with
    | (.ok (.inl a'), t) => I a' t
    | (.ok (.inr b), t) => E (.ok b) t
    | (.error e, t) => E (.error e) t

section Leads

variable {I : α → σ → Prop} {E : Except Fault β → σ → Prop} {next : α → Step σ (α ⊕ β)}

theorem repeatUntilFewer_leads {answers : σ → Nat} {again : α → Step σ β} (h : Leads I E next)
    (stopped : ∀ a s, I a s → E (.error (.readTimeout 0)) s)
    (hagain : ∀ a s, I a s → E ((again a).run s).1 ((again a).run s).2) (left fuel : Nat) {a : α} {s : σ}
    (start : I a s) :
    E ((repeatUntilFewer answers next again left fuel a).run s).1
      ((repeatUntilFewer answers next again left fuel a).run s).2 := by
  induction fuel generalizing a s with
  | zero => exact stopped a s start
  | succ fuel ih =>
    have round := h a s start
    unfold repeatUntilFewer
    rw [run_bind]
    rcases hr : (next a).run s with ⟨r, t⟩
    rw [hr] at round
    rcases r with e | a' | b
    · exact round
    · dsimp only
      rw [run_get_bind]
      split
      · exact hagain a' t round
      · exact ih round
    · exact round

theorem repeatWhileFed_leads {answers waiting : σ → Nat} (h : Leads I E next)
    (stopped : ∀ a s, I a s → E (.error (.readTimeout 0)) s) (rounds : Nat) {a : α} {s : σ} (start : I a s) :
    E ((repeatWhileFed answers waiting next rounds a).run s).1
      ((repeatWhileFed answers waiting next rounds a).run s).2 := by
  induction rounds generalizing a s with
  | zero =>
    unfold repeatWhileFed
    rw [run_get_bind]
    exact repeatUntilFewer_leads h stopped (fun a s start => by exact stopped a s start) _ _ start
  | succ rounds ih =>
    unfold repeatWhileFed
    rw [run_get_bind]
    exact repeatUntilFewer_leads h stopped (fun _ _ => ih) _ _ start

end Leads

end Step

/-! ## Lines -/

namespace Line

/-- What is to come on a line, and what was reported of it. -/
def course (l : Line) :
    Moment × List (Moment × Arrival) × List FarAnswer × List Moment × CancelHandle × List (Moment × List Bytes) :=
  (l.now, l.arrivals, l.answers, l.cancels, l.handle, l.stops)

/-- How it stands with the medium: how openings will end, whether it reports itself closed, what was done to it. -/
def standing (l : Line) : List Outcome × Bool × List (Moment × LineEntry) := (l.opens, l.isClosed, l.history)

/-- A relation between lines that the work on a line respects. -/
structure Frame (R : Line → Line → Prop) : Prop where
  kept {l l' : Line} (course : l'.course = l.course) (standing : l'.standing = l.standing) : R l l'
  posted (l : Line) : R l l.post
  advanced (t : Moment) (l : Line) : R l (l.advanceTo t)
  taken (max : Nat) : Moves R (takeArrival max)
  echoed (l : Line) : R l (l.planEcho l.pending)
  answered (l : Line) : R l l.planAnswer

section Respected

variable {R : Line → Line → Prop} [IsPreorder Line R]

/-- Where every event may be planned, echoes and answers may. -/
theorem planAnswer_of_scheduled (scheduled : ∀ t event l, R l (schedule t event l))
    (answered : ∀ l answers, R l { l with answers }) (l : Line) : R l l.planAnswer := by
  have planned (events : List (Duration × Event)) (l : Line) :
      R l (events.foldl (fun l e => l.schedule (l.now + e.1) e.2) l) := by
    induction events generalizing l with
    | nil => exact refl_of R l
    | cons e rest ih => exact trans_of R (scheduled _ _ l) (ih _)
  unfold planAnswer
  split
  · exact refl_of R l
  · exact trans_of R (answered l _) (planned _ _)

theorem planEcho_of_scheduled (scheduled : ∀ t event l, R l (schedule t event l)) (message : Bytes) (l : Line) :
    R l (l.planEcho message) := by
  unfold planEcho
  split
  · exact scheduled _ _ l
  · exact refl_of R l

variable (frame : Frame R)

include frame

theorem waitFor_frame (arrival : Option Moment) (deadline : Moment) (honour : Bool) (l : Line) :
    R l (l.waitFor arrival deadline honour).2 := by
  unfold waitFor
  extract_lets target due
  split
  · exact refl_of R l
  split
  · exact refl_of R l
  split
  · exact refl_of R l
  split <;> exact frame.advanced _ l

theorem read_frame (deadline : Moment) (honour : Bool) (max : Nat) : Moves R (read deadline honour max) := by
  refine .get_bind fun l => ?_
  have waited := waitFor_frame frame l.nextArrival? deadline honour l
  rw [await]
  generalize l.waitFor l.nextArrival? deadline honour = woken at waited ⊢
  obtain ⟨wake, t⟩ := woken
  refine trans_of R waited ?_
  dsimp only
  rw [Step.run_set_bind]
  cases wake with
  | cancelled => exact refl_of R t
  | elapsed => exact refl_of R t
  | arrived => exact frame.taken max t

theorem passTime_frame (delay : Duration) (deadline : Option Moment) : Moves R (passTime delay deadline) := by
  refine .get_bind fun l => ?_
  cases deadline with
  | none => exact frame.advanced _ l
  | some d =>
    dsimp only
    split
    · exact frame.advanced _ l
    · split
      · exact frame.advanced _ l
      · exact refl_of R l

theorem write_frame (deadline : Option Moment) (bytes : Bytes) : Moves R (write deadline bytes) := by
  refine .get_bind fun l => ?_
  rcases nextOutcome l.writes with ⟨outcome, writes⟩
  have noted : R l { l with writes } := frame.kept rfl rfl
  dsimp only
  rw [Step.run_set_bind]
  refine trans_of R noted ?_
  cases outcome with
  | failure words => exact refl_of R _
  | nothing => exact refl_of R _
  | success =>
    have accepted (n : Nat) : Moves R (do
        modify fun l => { l with pending := l.pending ++ bytes.take n }
        if ← passTime l.writeDelay deadline then return some n else return none) :=
      .bind (.modify fun _ => frame.kept rfl rfl) fun _ => .bind (passTime_frame frame _ _) fun _ => .ite (.pure _) (.pure _)
    exact accepted _ _

theorem deliver_frame (l : Line) : R l l.deliver := by
  unfold deliver
  split
  · exact refl_of R l
  · exact trans_of R (trans_of R (frame.echoed l) (frame.posted _)) (frame.answered _)

theorem flush_frame (deadline : Option Moment) : Moves R (flush deadline) := by
  refine .bind .get fun l => .bind (passTime_frame frame _ _) fun _ => .ite (.get_bind fun l => ?_) (.pure _)
  rcases nextOutcome l.flushes with ⟨outcome, flushes⟩
  have noted : R l { l with flushes } := frame.kept rfl rfl
  refine trans_of R noted ?_
  cases outcome with
  | failure words => exact refl_of R _
  | success => exact deliver_frame frame _
  | nothing => exact deliver_frame frame _

end Respected

end Line

/-! ## Channels -/

open Step (Watch)

/-- Faults that a read raises an alarm with. -/
def Fault.Interrupts (e : Fault) : Prop := e = .cancelled ∨ e = .disconnected

/-- Faults that any step raises an alarm with. -/
def Fault.Alarms (e : Fault) : Prop := e.Interrupts ∨ ∃ cause, e = .connection cause

theorem Fault.Alarms.isTimeout_eq {e : Fault} (h : e.Alarms) : e.isTimeout = false := by
  obtain (rfl | rfl) | ⟨cause, rfl⟩ := h <;> rfl

namespace Channel

/-- What a channel keeps for itself does not matter to the watch. -/
structure Outward (w : Watch Channel) : Prop where
  kept {c c' : Channel} (line : c'.line = c.line) (connected : c'.connected = c.connected) : w.calm c c'
  passed {c t t' : Channel} {e : Fault} (alarm : w.alarm c e t) (line : t'.line = t.line)
    (connected : t'.connected = t.connected) : w.alarm c e t'

/-- A watch that the work on a line heeds. -/
structure Watched (w : Watch Channel) : Prop extends Outward w where
  alarms {c t : Channel} {e : Fault} (alarm : w.alarm c e t) : e.Alarms
  waited (c : Channel) (arrival : Option Moment) (deadline : Moment) (honour : Bool) :
    w.calm c { c with line := (c.line.waitFor arrival deadline honour).2 }
  read (deadline : Moment) (honour : Bool) (max : Nat) :
    (w.only Fault.Interrupts).Heeds (orDrop (Line.read deadline honour max))
  readNow (deadline : Moment) (max : Nat) : w.Heeds (onLine (Line.read deadline false max))
  written (deadline : Option Moment) (bytes : Bytes) : w.Heeds (orDrop (Line.write deadline bytes))
  flushed (deadline : Option Moment) : w.Heeds (onLine (Line.flush deadline))
  ended {α : Type} : (w.only Fault.Interrupts).Heeds (do
    drop
    throw .disconnected : Step Channel α)
  stopped {α : Type} : (w.only Fault.Interrupts).Heeds (honourCancel : Step Channel α)

section Watched

variable {α β : Type} {w : Watch Channel} (h : Watched w)

include h

theorem Watched.modify {f : Channel → Channel} (line : ∀ c, (f c).line = c.line)
    (connected : ∀ c, (f c).connected = c.connected) : (w.only Fault.Interrupts).Heeds (modify f : Step Channel PUnit) :=
  .modify fun c => h.kept (line c) (connected c)

theorem count_heeds (f : ChannelStatistics → ChannelStatistics) : (w.only Fault.Interrupts).Heeds (count f) :=
  h.modify (fun _ => rfl) fun _ => rfl

theorem clearRing_heeds : (w.only Fault.Interrupts).Heeds clearRing := h.modify (fun _ => rfl) fun _ => rfl

theorem noteDeadline_heeds (byOperation : Bool) : (w.only Fault.Interrupts).Heeds (noteDeadline byOperation) :=
  .ite (h.modify (fun _ => rfl) fun _ => rfl) (.pure _)

omit h in
theorem ensureConnected_heeds (v : Watch Channel) : v.Heeds ensureConnected := .bind .get fun _ => .ite (.throw _) (.pure _)

theorem checkCancelled_heeds : w.Heeds checkCancelled := .bind .get fun _ => .ite h.stopped.of_only (.pure _)

theorem sleep_heeds (d : Duration) : (w.only Fault.Interrupts).Heeds (sleep d) := by
  refine .get_bind fun c => ?_
  have paused (deadline : Moment) := h.waited c none deadline (!c.window.isActive)
  rcases c.capped (c.now + d) with ⟨target, byOperation⟩
  have rest : (w.only Fault.Interrupts).Heeds (if byOperation then (do
        noteDeadline true
        throw (.readTimeout 0) : Step Channel Unit) else pure ()) :=
    .ite (.bind (noteDeadline_heeds h _) fun _ => .throw _) (.pure _)
  refine .after (paused target) ?_
  dsimp only
  rw [Step.run_set_bind]
  split
  · exact (Watch.Heeds.bind h.stopped fun _ => rest) _
  · exact rest _

/-! ### Reading -/

theorem fill_heeds (deadline : Moment) : (w.only Fault.Interrupts).Heeds (fill deadline) := by
  refine .bind .get fun c => ?_
  rcases c.capped deadline with ⟨deadline, byOperation⟩
  refine .bind (h.read _ _ _) fun heard => ?_
  cases heard with
  | cancelled => exact h.stopped
  | elapsed => exact .bind (noteDeadline_heeds h _) fun _ => .pure _
  | ended => exact h.ended
  | data bytes =>
    exact .bind (h.modify (fun _ => rfl) fun _ => rfl) fun _ => .bind (count_heeds h _) fun _ => .pure _

theorem failTimeout_heeds (n : Nat) : (w.only Fault.Interrupts).Heeds (failTimeout n : Step Channel α) :=
  .bind (count_heeds h _) fun _ => .throw _

omit h in
theorem rounds_heeds {v : Watch Channel} {round : α → Step Channel (α ⊕ β)} (hr : ∀ a, v.Heeds (round a)) (a : α) :
    v.Heeds (rounds round a) := .bind .get fun _ => .repeatUpTo hr _ _

theorem fillTo_heeds (wanted : Nat) (patience : Patience) : (w.only Fault.Interrupts).Heeds (fillTo wanted patience) := by
  refine .bind .get fun _ => rounds_heeds (fun deadline => ?_) _
  refine .bind .get fun c => .ite (.pure _) (.bind (fill_heeds h _) fun heard => ?_)
  cases heard with
  | elapsed => exact .bind .get fun _ => failTimeout_heeds h _
  | data =>
    refine .bind .get fun c => ?_
    cases patience <;> exact .pure _

/-- Silence is no alarm, so nothing is dropped after one. -/
theorem readExactly_heeds (n : Nat) (patience : Patience) :
    (w.only Fault.Interrupts).Heeds (readExactly n patience) := by
  refine .bind (ensureConnected_heeds _) fun _ => .outcome_bind (fillTo_heeds h _ _) (fun r => ?_) fun s e t alarm => ?_
  · cases r with
    | ok u => exact fun c => .inl (h.kept rfl rfl)
    | error e => exact .ite (.bind (clearRing_heeds h) fun _ => .throw _) (.throw _)
  · dsimp only
    rw [(h.alarms alarm.1).isTimeout_eq]
    exact .error (.inr alarm)

theorem startRound_heeds (wanted : Bytes) (deadline : Moment) (garbage : Nat) :
    (w.only Fault.Interrupts).Heeds (startRound wanted deadline garbage) := by
  refine .get_bind fun c => ?_
  rcases c.input.discardUntil wanted with ⟨⟨dropped, found⟩, input⟩
  dsimp only
  rw [Step.run_set_bind]
  have taken : w.calm c { c with input } := h.kept rfl rfl
  refine .after taken ?_
  split
  · exact (Watch.Heeds.pure _) _
  · refine (Watch.Heeds.bind (fill_heeds h _) fun heard => ?_ : (w.only Fault.Interrupts).Heeds _) _
    cases heard with
    | elapsed => exact failTimeout_heeds h _
    | data => exact .pure _

theorem waitStart_heeds (wanted : Bytes) (timeout : Duration) :
    (w.only Fault.Interrupts).Heeds (waitStart wanted timeout) :=
  .bind (ensureConnected_heeds _) fun _ => .bind .get fun _ => rounds_heeds (startRound_heeds h wanted _) _

theorem readStart_heeds (wanted : Bytes) (timeout : Duration) :
    (w.only Fault.Interrupts).Heeds (readStart wanted timeout) := by
  have dropped : (w.only Fault.Interrupts).Heeds (discard 1) := fun c => .inl (h.kept rfl rfl)
  exact .bind (waitStart_heeds h wanted timeout) fun _ => .bind dropped fun _ => .pure _

theorem clearInput_heeds : w.Heeds clearInput := by
  refine .bind (ensureConnected_heeds _) fun _ => .bind (clearRing_heeds h).of_only fun _ => rounds_heeds (fun _ => ?_) _
  refine .bind .get fun c => .bind (h.readNow _ _) fun heard => ?_
  cases heard with
  | data bytes => exact .pure _
  | ended => exact h.ended.of_only
  | elapsed => exact .pure _
  | cancelled => exact .pure _

/-! ### Writing -/

theorem writeRound_heeds (deadline : Moment) (p : Bytes × Nat) : w.Heeds (writeRound deadline p) := by
  refine .ite (.pure _) (.bind (h.written _ _) fun taken => ?_)
  match taken with
  | none => exact .throw _
  | some 0 => exact h.ended.of_only
  | some (n + 1) => exact .pure _

theorem echoRound_heeds (sent : Bytes) (timeout : Duration) (deadline : Moment) :
    (w.only Fault.Interrupts).Heeds (echoRound sent timeout deadline) := by
  refine .bind .get fun c => .ite ?_ (.ite ?_ ?_)
  · exact .bind (clearRing_heeds h) fun _ => .bind (count_heeds h _) fun _ => .throw_bind _ _
  · exact .bind (fun c => .inl (h.kept rfl rfl)) fun _ => .pure _
  · refine .bind (fill_heeds h _) fun heard => ?_
    cases heard with
    | data => exact .bind .get fun _ => .pure _
    | elapsed => exact .throw _

theorem transmit_heeds (bytes : Bytes) (timeout : Duration) : w.Heeds (transmit bytes timeout) := by
  refine .bind .get fun c => .bind (.repeatUpTo (writeRound_heeds h _) _ _) fun written => ?_
  have echoed : w.Heeds (do
      count fun s => { s with sent := s.sent + bytes.length }
      let c ← get
      if c.line.echoes then
        checkEcho bytes (if c.intercharacter = 0 then timeout else c.intercharacter)
      return written) := by
    refine .bind (count_heeds h _).of_only fun _ => .bind .get fun c => .ite (.bind ?_ fun _ => .pure _) (.pure _)
    exact .of_only (.bind .get fun _ => rounds_heeds (echoRound_heeds h _ _) _)
  exact .bind (h.flushed _) fun _ => .ite (.throw_bind _ _) echoed

/-- Whatever comes of a write, its window is closed behind it. -/
theorem write_heeds (bytes : Bytes) (timeout : Duration) : w.Heeds (write bytes timeout) := by
  refine .bind (ensureConnected_heeds _) fun _ => .bind (checkCancelled_heeds h) fun _ => ?_
  have left (r : Except Fault Nat) : w.Heeds (do
      modify fun c => { c with window := c.window.leave }
      Step.ofExcept r) := .bind (.modify fun _ => h.kept rfl rfl) fun _ => .ofExcept _
  refine .bind (.modify fun _ => h.kept rfl rfl) fun _ => .outcome_bind (transmit_heeds h _ _) left ?_
  intro s e t alarm
  rw [Step.run_modify_bind, Step.run_ofExcept]
  exact .error (.inr (h.passed alarm rfl rfl))

end Watched

end Channel

end Metering
