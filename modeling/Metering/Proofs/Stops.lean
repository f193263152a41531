import Metering.Proofs.ClientAlarms
import Metering.Proofs.Tempo

set_option autoImplicit false

/-! # Requests to stop -/

namespace Metering

open Step (Moves Same Watch)

/-! ## On a line -/

namespace Line

/-- A request to stop is pending, or it will be made at a moment to come. -/
def Asked (m : Moment) (l : Line) : Prop := l.handle.cancelled = true ∨ l.now < m ∧ m ∈ l.cancels

/-- No request to stop was reported, and none was lost. -/
def Unstopped (l l' : Line) : Prop := l'.stops = l.stops ∧ ∀ m, l.Asked m → l'.Asked m

instance : IsPreorder Line Unstopped where
  refl _ := ⟨rfl, fun _ => id⟩
  trans _ _ _ h h' := ⟨h'.1.trans h.1, fun m => h'.2 m ∘ h.2 m⟩

theorem unstopped_of_eq {l l' : Line} (stops : l'.stops = l.stops) (handle : l'.handle = l.handle) (now : l'.now = l.now)
    (cancels : l'.cancels = l.cancels) : Unstopped l l' := by
  refine ⟨stops, fun m asked => ?_⟩
  rw [Asked, handle, now, cancels]
  exact asked

theorem advanceTo_unstopped (t : Moment) (l : Line) : Unstopped l (l.advanceTo t) := by
  refine ⟨rfl, fun m asked => ?_⟩
  unfold Asked advanceTo
  dsimp only
  by_cases due : l.cancels.any (· ≤ t) = true
  · rw [if_pos due]
    exact .inl rfl
  rw [if_neg due]
  refine asked.imp_right fun ⟨later, listed⟩ => ?_
  have beyond : t < m := by
    by_contra h
    exact due (List.any_eq_true.2 ⟨m, listed, by simpa using h⟩)
  exact ⟨Nat.max_lt.2 ⟨later, beyond⟩, List.mem_filter.2 ⟨listed, by simpa using beyond⟩⟩

theorem schedule_unstopped (t : Moment) (event : Event) (l : Line) : Unstopped l (l.schedule t event) := by
  unfold schedule
  split
  · split
    · exact ⟨rfl, fun m _ => .inl rfl⟩
    · exact ⟨rfl, fun m asked => asked.imp_right fun ⟨later, listed⟩ => ⟨later, List.mem_append_left _ listed⟩⟩
  · exact refl_of Unstopped l
  · exact unstopped_of_eq rfl rfl rfl rfl

theorem frame_unstopped : Frame Unstopped where
  posted _ := unstopped_of_eq rfl rfl rfl rfl
  kept course _ := by
    simp only [Line.course, Prod.mk.injEq] at course
    obtain ⟨now, -, -, cancels, handle, stops⟩ := course
    exact unstopped_of_eq stops handle now cancels
  advanced := advanceTo_unstopped
  taken max := by
    refine .get_bind fun l => ?_
    split
    · exact refl_of Unstopped l
    · exact unstopped_of_eq rfl rfl rfl rfl
    · exact unstopped_of_eq rfl rfl rfl rfl
    · exact unstopped_of_eq rfl rfl rfl rfl
  echoed l := planEcho_of_scheduled schedule_unstopped l.pending l
  answered := planAnswer_of_scheduled schedule_unstopped fun _ _ => unstopped_of_eq rfl rfl rfl rfl

/-- **A wait that honours requests to stop** ends with the first one that is made before it is over. -/
theorem waitFor_cancelled {l : Line} (arrival : Option Moment) {deadline m : Moment} (asked : l.Asked m)
    (waiting : l.now < earlier deadline arrival) (within : m ≤ earlier deadline arrival) :
    ∃ l', l.waitFor arrival deadline true = (.cancelled, l') ∧ l'.now ≤ max l.now m ∧ l'.messages = l.messages ∧
      l'.stops = l.stops := by
  have early : l.now < deadline ∧ ∀ a ∈ arrival, l.now < a := by
    cases arrival with
    | none => exact ⟨waiting, nofun⟩
    | some a =>
      obtain ⟨before, behind⟩ := Nat.lt_min.1 waiting
      exact ⟨before, fun b hb => Option.some.inj hb ▸ behind⟩
  unfold waitFor
  extract_lets target due
  rcases hc : l.handle.cancelled with _ | _
  case true => exact ⟨l, by simp, Nat.le_max_left _ _, rfl, rfl⟩
  have notDue : due l.now = false := by
    cases arrival with
    | none => rfl
    | some a => exact decide_eq_false (Nat.not_le.2 (early.2 a rfl))
  obtain ⟨-, listed⟩ : l.now < m ∧ m ∈ l.cancels := asked.resolve_left (by rw [hc]; decide)
  have mem : m ∈ l.cancels.filter (· ≤ target) := List.mem_filter.2 ⟨listed, decide_eq_true within⟩
  obtain ⟨first, found⟩ := Option.isSome_iff_exists.1 (List.isSome_min?_of_mem mem)
  have least : first ≤ m := (List.min?_eq_some_iff.1 found).2 m mem
  refine ⟨l.advanceTo first, ?_, ?_, rfl, rfl⟩
  · rw [if_neg (by simp), notDue, if_neg (by simp), if_neg (Nat.not_le.2 early.1), if_pos rfl, found]
  · exact Nat.max_le.2 ⟨Nat.le_max_left _ _, Nat.le_trans least (Nat.le_max_right _ _)⟩

end Line

/-! ## On a channel -/

namespace Channel

variable {α : Type}

/-- The step gave up for a request to stop no later than `m`, and had sent nothing. -/
structure StoppedBy (m : Moment) (c : Channel) (r : Except Fault α) (c' : Channel) : Prop where
  cancelled : r = .error .cancelled
  soon : c'.now ≤ max c.now m
  silent : c'.line.messages = c.line.messages
  reported : c'.line.stops = (c'.now, c'.line.messages) :: c.line.stops

/-- A stop is reported as soon as the wait for it is over. -/
theorem stoppedBy_of_wait {m : Moment} {c t : Channel} {r : Except Fault α} {l : Line} (soon : l.now ≤ max c.now m)
    (silent : l.messages = c.line.messages) (stops : l.stops = c.line.stops)
    (run : (r, t) = (.error .cancelled, { c with line := l.stop })) : StoppedBy m c r t := by
  obtain ⟨rfl, rfl⟩ := Prod.mk.inj run
  exact ⟨rfl, soon, silent, congrArg _ stops⟩

/-- A wait that ends with the first request to stop that is made before it is over. -/
def Stoppable (x : Step Channel α) (limit : Channel → Moment) : Prop :=
  ∀ c m, c.window.isActive = false → c.line.Asked m → c.now < limit c → m ≤ limit c →
    StoppedBy m c (x.run c).1 (x.run c).2

theorem stoppable_sleep (d : Duration) : Stoppable (sleep d) fun c => (c.capped (c.now + d)).1 := by
  intro c m interruptible asked waiting within
  obtain ⟨l, woken, soon, silent, stops⟩ := Line.waitFor_cancelled none asked waiting within
  refine stoppedBy_of_wait soon silent stops ?_
  unfold sleep
  rw [Step.run_get_bind]
  dsimp only
  rw [interruptible, Line.pause, Bool.not_false, woken]
  rfl

theorem stoppable_fill (deadline : Moment) :
    Stoppable (fill deadline) fun c => Line.earlier (c.capped deadline).1 c.line.nextArrival? := by
  intro c m interruptible asked waiting within
  obtain ⟨l, woken, soon, silent, stops⟩ := Line.waitFor_cancelled c.line.nextArrival? asked waiting within
  refine stoppedBy_of_wait soon silent stops ?_
  have heard : (orDrop (Line.read (c.capped deadline).1 true readChunk)).run c =
      (.ok .cancelled, { c with line := l }) := by
    unfold orDrop onLine Line.read
    rw [Step.run_outcome_bind, Step.run_within, Step.run_get_bind, Line.await, woken]
    rfl
  unfold fill
  rw [Step.run_get_bind]
  dsimp only
  rw [interruptible, Bool.not_false, Step.run_bind_of_ok heard]
  rfl

/-- The watch for reports of requests to stop: after a report nothing is sent and no time passes. -/
def stopWatch : Watch Channel where
  calm c c' := Line.Unstopped c.line c'.line
  alarm c e c' := e = .cancelled ∧ c'.line.stops = (c'.now, c'.line.messages) :: c.line.stops
  refl c := refl_of Line.Unstopped c.line
  trans := trans_of Line.Unstopped
  before calm alarm := ⟨alarm.1, alarm.2.trans (congrArg _ calm.1)⟩

theorem onLine_unstopped {x : Step Line α} (h : Moves Line.Unstopped x) : Moves stopWatch.calm (onLine x) :=
  .within h fun _ _ same => same

theorem drop_unstopped : Moves stopWatch.calm drop := .modify fun c => stopWatch.refl c

theorem orDrop_unstopped {x : Step Line α} (h : Moves Line.Unstopped x) : Moves stopWatch.calm (orDrop x) := by
  refine .bind (.outcome (onLine_unstopped h)) fun r => ?_
  cases r with
  | ok a => exact .pure a
  | error e => exact .bind drop_unstopped fun _ => .throw e

theorem watched_stopWatch : Watched stopWatch where
  kept line _ := (congrArg (Line.Unstopped _) line).mpr (refl_of Line.Unstopped _)
  passed alarm line _ := ⟨alarm.1, by rw [Channel.now, line]; exact alarm.2⟩
  alarms alarm := .inl (.inl alarm.1)
  waited c arrival deadline honour := Line.waitFor_frame Line.frame_unstopped arrival deadline honour c.line
  read _ _ _ := .of_calm (orDrop_unstopped (Line.read_frame Line.frame_unstopped _ _ _))
  readNow _ _ := .of_calm (onLine_unstopped (Line.read_frame Line.frame_unstopped _ _ _))
  written _ _ := .of_calm (orDrop_unstopped (Line.write_frame Line.frame_unstopped _ _))
  flushed _ := .of_calm (onLine_unstopped (Line.flush_frame Line.frame_unstopped _))
  ended := .of_calm (.bind drop_unstopped fun _ => .throw _)
  stopped _ := .inr ⟨_, rfl, ⟨rfl, rfl⟩, .inl rfl⟩

/-! ### Closing -/

/-- The requests to stop and what was reported of them, as of now. -/
def stopRecord (c : Channel) : List (Moment × List Bytes) × CancelHandle × List Moment × Moment × List Bytes :=
  (c.line.stops, c.line.handle, c.line.cancels, c.line.now, c.line.messages)

theorem close_stopRecord : Moves (Same stopRecord) close := by
  have line : Moves (Same fun l : Line => stopRecord { line := l }) Line.close := by
    refine .get_bind fun l => ?_
    rcases Line.nextOutcome l.closes with ⟨outcome, closes⟩
    have noted : ({ l.note .closed with isClosed := true, closes } : Line).messages = l.messages := by
      simp [Line.messages, Line.note]
    have same : stopRecord { line := { l.note .closed with isClosed := true, closes } } = stopRecord { line := l } := by
      rw [stopRecord, stopRecord, noted]
      rfl
    cases outcome <;> exact same
  have released : Moves (Same stopRecord) (onLine Line.close) := .within line fun _ _ same => same
  exact .bind .get fun _ => .ite (.pure _) (.bind (.outcome released) fun _ =>
    .bind (.modify fun _ => rfl) fun _ => .modify fun _ => rfl)

/-- Closing the channel is of no matter to requests to stop. -/
theorem settles_stopWatch : Client.Settles stopWatch stopWatch where
  calm := id
  alarm := id
  closed {c t e} _ h := by
    have same := close_stopRecord t
    simp only [Same, stopRecord, Prod.mk.injEq] at same
    obtain ⟨stops, handle, cancels, now, messages⟩ := same
    refine h.imp (fun calm => ?_) fun alarm => ⟨alarm.1, ?_⟩
    · exact trans_of Line.Unstopped calm (Line.unstopped_of_eq stops handle now cancels)
    · rw [stops, alarm.2, Channel.now, Channel.now, now, messages]

end Channel

/-! ## During transfers -/

namespace Client

/-- A request to stop was reported, and that was the end of the session: nothing was sent and no time passed
behind the report. -/
structure Stopped (c : Client) (r : Except Fault Unit) (c' : Client) : Prop where
  failed : r = .error .cancelled
  ended : c'.phase = .disconnected ∧ c'.channel.connected = false
  last : c'.channel.line.stops = (c'.channel.now, c'.channel.line.messages) :: c.channel.line.stops

/-- **A request to stop is not lost** while packets come in order. A wait outside a window ends with it, and if
that happens during a transfer then the transfer fails with it. If not, then all requests are still pending. -/
theorem transfer_stopped {c c' : Client} {r : Except Fault Unit} {t : Transfer} {timeout : Option Duration}
    (reached : Reached c) (active : c.phase = .active) (packets : c.InPackets)
    (run : (Operation.transfer t timeout).step.run c = (r, c')) (orderly : c'.disorder = c.disorder) :
    (∀ d, Channel.Stoppable (Channel.sleep d) fun c => (c.capped (c.now + d)).1) ∧
    (∀ deadline, Channel.Stoppable (Channel.fill deadline) fun c =>
      Line.earlier (c.capped deadline).1 c.line.nextArrival?) ∧
    (c.channel.line.Unstopped c'.channel.line ∨ Stopped c r c') := by
  refine ⟨Channel.stoppable_sleep, Channel.stoppable_fill, ?_⟩
  have told := transfer_tells Channel.watched_stopWatch Channel.settles_stopWatch
    Channel.watched_stopWatch.toOutward packets run orderly
  refine told.imp_right fun ⟨e, failed, cancelled, last⟩ => ?_
  have settled := (settled_transfer t timeout).ended c active reached.steady.sound
  rw [run] at settled
  obtain ⟨down, wiped⟩ := settled ⟨_, failed, by rw [cancelled]; rfl⟩
  exact ⟨cancelled ▸ failed, ⟨down, wiped.closed⟩, last⟩

/-- While the answer to a read is awaited, the caller asks to stop. -/
def stoppedRead : Client := answeredBy [fun _ => [(50, .cancel)]]

/-- The read fails when it is asked to, and the session is over. -/
theorem transfer_stopped_read : Reached stoppedRead ∧ stoppedRead.phase = .active ∧ ∃ r c',
    (Operation.transfer (.read (.full 3)) none).step.run stoppedRead = (r, c') ∧ Stopped stoppedRead r c' ∧
      c'.channel.now = stoppedRead.channel.now + 20000050 := by
  have reached : Reached stoppedRead := reached_answeredBy _
  have facts : stoppedRead.phase = .active ∧ stoppedRead.linked.isSome = true ∧
      ((Operation.transfer (.read (.full 3)) none).step.run stoppedRead).2.disorder = stoppedRead.disorder ∧
      ((Operation.transfer (.read (.full 3)) none).step.run stoppedRead).2.channel.line.stops ≠
        stoppedRead.channel.line.stops ∧
      ((Operation.transfer (.read (.full 3)) none).step.run stoppedRead).2.channel.now =
        stoppedRead.channel.now + 20000050 := by
    decide +kernel
  rcases run : (Operation.transfer (.read (.full 3)) none).step.run stoppedRead with ⟨r, c'⟩
  rw [run] at facts
  obtain ⟨active, packets, orderly, reported, now⟩ := facts
  obtain ⟨-, -, unstopped | stopped⟩ := transfer_stopped reached active (inPackets_iff.2 packets) run orderly
  · exact absurd unstopped.1 reported
  · exact ⟨reached, active, r, c', rfl, stopped, now⟩

/-- **A request to stop is swallowed** when it comes after a packet that came again was acknowledged: it is
reported to the link, and yet more messages are sent, the read succeeds and the session stays active. -/
theorem stop_swallowed : Reached (repeating [(10, .cancel)]) ∧ (repeating [(10, .cancel)]).phase = .active ∧
    (repeating [(10, .cancel)]).channel.line.stops = [] ∧
    ∃ c' stop, (Operation.transfer (.read (.full 3)) none).step.run (repeating [(10, .cancel)]) = (.ok (), c') ∧
      c'.phase = .active ∧ c'.channel.line.stops = [stop] ∧ stop.2.length < c'.channel.line.messages.length := by
  have facts : (repeating [(10, .cancel)]).phase = .active ∧ (repeating [(10, .cancel)]).channel.line.stops = [] ∧
      ((Operation.transfer (.read (.full 3)) none).step.run (repeating [(10, .cancel)])).1 = .ok () ∧
      ((Operation.transfer (.read (.full 3)) none).step.run (repeating [(10, .cancel)])).2.phase = .active ∧
      ((Operation.transfer (.read (.full 3)) none).step.run
        (repeating [(10, .cancel)])).2.channel.line.stops.map (·.2.length) = [6] ∧
      ((Operation.transfer (.read (.full 3)) none).step.run
        (repeating [(10, .cancel)])).2.channel.line.messages.length = 8 := by
    decide +kernel
  obtain ⟨started, unreported, returned, active, reported, sent⟩ := facts
  obtain ⟨stop, stops, length⟩ := List.map_eq_singleton_iff.1 reported
  refine ⟨reached_answeredBy _, started, unreported, _, stop, Step.run_eq_of_fst returned, active, stops, ?_⟩
  rw [length, sent]
  decide

end Client

end Metering
