import Metering.Proofs.ClientAlarms
import Metering.Proofs.Repetition

set_option autoImplicit false

/-! # Lost channels

A channel whose line has ended is lost: it is not connected any more. While packets come in order, an operation that
loses the channel fails with a fault that is no timeout, and the session is over
(`Client.transfer_keeps_channel`). A session is active only after a request was answered, and the last packet of the
answer was acknowledged over a channel that is connected. -/

namespace Metering

open Step (Moves Same Preserves Establishes Watch)

variable {α : Type}

/-! ## Lines that do not fail -/

namespace Line

/-- The far end sends and closes, but the medium does not fail to read. -/
structure Unfailing (l : Line) : Prop where
  arrivals : ∀ a ∈ l.arrivals, ∀ words, a.2 ≠ .failure words
  answers : ∀ answer ∈ l.answers, ∀ messages, ∀ e ∈ answer messages, ∀ words, e.2 ≠ .arrival (.failure words)

theorem mem_insertArrival {m : Moment} {item : Arrival} {a : Moment × Arrival} {arrivals : List (Moment × Arrival)}
    (h : a ∈ insertArrival m item arrivals) : a = (m, item) ∨ a ∈ arrivals := by
  induction arrivals with
  | nil => exact .inl (List.mem_singleton.1 h)
  | cons first rest ih =>
    unfold insertArrival at h
    split at h
    · obtain rfl | h := List.mem_cons.1 h
      · exact .inr List.mem_cons_self
      · exact (ih h).imp_right (List.mem_cons_of_mem _)
    · exact List.mem_cons.1 h

theorem Unfailing.schedule {l : Line} (h : l.Unfailing) {e : Event} (he : ∀ words, e ≠ .arrival (.failure words))
    (t : Moment) : (l.schedule t e).Unfailing := by
  unfold Line.schedule
  split
  · split <;> exact ⟨h.arrivals, h.answers⟩
  · exact h
  next item _ =>
    refine ⟨fun a ha words failed => ?_, h.answers⟩
    obtain rfl | ha := mem_insertArrival ha
    · exact he words (congrArg Event.arrival failed)
    · exact h.arrivals a ha words failed

theorem Unfailing.takeArrival {l : Line} (h : l.Unfailing) (max : Nat) :
    (∃ heard, ((takeArrival max).run l).1 = .ok heard) ∧ ((takeArrival max).run l).2.Unfailing := by
  have arrivals := h.arrivals
  unfold Line.takeArrival
  rw [Step.run_get_bind]
  split
  · exact ⟨⟨_, rfl⟩, h⟩
  next moment bytes rest first =>
    rw [first] at arrivals
    refine ⟨⟨_, rfl⟩, ⟨?_, h.answers⟩⟩
    rw [Step.run_set_bind, Step.run_pure]
    dsimp only
    split
    · exact fun a ha => arrivals a (List.mem_cons_of_mem _ ha)
    · intro a ha
      obtain rfl | ha := List.mem_cons.1 ha
      · exact fun _ => nofun
      · exact arrivals a (List.mem_cons_of_mem _ ha)
  · exact ⟨⟨_, rfl⟩, ⟨h.arrivals, h.answers⟩⟩
  next moment words rest first =>
    rw [first] at arrivals
    exact absurd rfl (arrivals _ List.mem_cons_self words)

theorem frame_unfailing : Frame (Preserves Unfailing) where
  posted _ h := ⟨h.arrivals, h.answers⟩
  kept course _ h := by
    simp only [Line.course, Prod.mk.injEq] at course
    obtain ⟨-, arrivals, answers, -⟩ := course
    exact ⟨arrivals ▸ h.arrivals, answers ▸ h.answers⟩
  advanced _ _ h := ⟨h.arrivals, h.answers⟩
  taken max _ h := (h.takeArrival max).2
  echoed l h := by
    unfold planEcho
    split
    · exact h.schedule (by simp) _
    · exact h
  answered l h := by
    have planned (events : List (Duration × Event)) (he : ∀ e ∈ events, ∀ words, e.2 ≠ .arrival (.failure words))
        (l : Line) (h : l.Unfailing) : (events.foldl (fun l e => l.schedule (l.now + e.1) e.2) l).Unfailing := by
      induction events generalizing l with
      | nil => exact h
      | cons e rest ih =>
        exact ih (fun x hx => he x (List.mem_cons_of_mem _ hx)) _ (h.schedule (he e List.mem_cons_self) _)
    unfold planAnswer
    split
    · exact h
    next answer answers first =>
      have listed := h.answers
      rw [first] at listed
      exact planned _ (listed answer List.mem_cons_self _) _
        ⟨h.arrivals, fun a ha => listed a (List.mem_cons_of_mem _ ha)⟩

/-- A read does not fail. -/
theorem Unfailing.read {l : Line} (h : l.Unfailing) (deadline : Moment) (honour : Bool) (max : Nat) :
    ∃ heard l', (Line.read deadline honour max).run l = (.ok heard, l') ∧ l'.Unfailing := by
  have kept := read_frame frame_unfailing deadline honour max l h
  have waited := waitFor_frame frame_unfailing l.nextArrival? deadline honour l h
  suffices heard : ∃ heard, ((Line.read deadline honour max).run l).1 = .ok heard by
    obtain ⟨heard, ok⟩ := heard
    exact ⟨heard, _, Step.run_eq_of_fst ok, kept⟩
  unfold Line.read
  rw [Step.run_get_bind, await]
  generalize l.waitFor l.nextArrival? deadline honour = woken at waited ⊢
  obtain ⟨wake, t⟩ := woken
  dsimp only
  rw [Step.run_set_bind]
  cases wake with
  | cancelled => exact ⟨_, rfl⟩
  | elapsed => exact ⟨_, rfl⟩
  | arrived => exact (Unfailing.takeArrival waited max).1

/-- A write fails only with the connection. -/
theorem write_error {l l' : Line} {deadline : Option Moment} {bytes : Bytes} {e : Fault}
    (h : (write deadline bytes).run l = (.error e, l')) : ∃ cause, e = .connection cause := by
  have passed (delay : Duration) (l : Line) : ∃ done, ((passTime delay deadline).run l).1 = .ok done := by
    unfold passTime
    rw [Step.run_get_bind]
    cases deadline with
    | none => exact ⟨_, rfl⟩
    | some d =>
      dsimp only
      split
      · exact ⟨_, rfl⟩
      · split <;> exact ⟨_, rfl⟩
  unfold write at h
  rw [Step.run_get_bind] at h
  generalize nextOutcome l.writes = next at h
  obtain ⟨outcome, writes⟩ := next
  dsimp only at h
  rw [Step.run_set_bind] at h
  cases outcome with
  | failure words => exact ⟨_, (Except.error.inj (Prod.mk.inj h).1).symm⟩
  | nothing => cases (Prod.mk.inj h).1
  | success =>
    dsimp only at h
    rw [Step.run_modify_bind] at h
    obtain ⟨done, ok⟩ := passed l.writeDelay _
    rw [Step.run_bind_of_ok (Step.run_eq_of_fst ok)] at h
    cases done <;> cases (Prod.mk.inj h).1

end Line

/-! ## Losing a channel -/

namespace Channel

/-- The watch for lost channels: on a line that does not fail to read, a channel that is lost is reported as closed
by the far end, or with the fault of a write. -/
def lossWatch : Watch Channel where
  calm c c' := c.line.Unfailing → c'.line.Unfailing ∧ (c.connected = true → c'.connected = true)
  alarm _ e _ := e = .disconnected ∨ ∃ cause, e = .connection cause
  refl _ h := ⟨h, id⟩
  trans first second h := ⟨(second (first h).1).1, (second (first h).1).2 ∘ (first h).2⟩
  before _ alarm := alarm

theorem onLine_lossWatch {x : Step Line α} (h : Moves (Preserves Line.Unfailing) x) : Moves lossWatch.calm (onLine x) :=
  .within h fun _ _ kept unfailing => ⟨kept unfailing, id⟩

theorem read_lossWatch (deadline : Moment) (honour : Bool) (max : Nat) :
    Moves lossWatch.calm (orDrop (Line.read deadline honour max)) := by
  intro c unfailing
  obtain ⟨heard, l', run, kept⟩ := unfailing.read deadline honour max
  have done : (orDrop (Line.read deadline honour max)).run c = (.ok heard, { c with line := l' }) := by
    unfold orDrop onLine
    rw [Step.run_outcome_bind, Step.run_within, run]
    rfl
  rw [done]
  exact ⟨kept, id⟩

theorem write_lossWatch (deadline : Option Moment) (bytes : Bytes) :
    lossWatch.Heeds (orDrop (Line.write deadline bytes)) := by
  intro c
  have kept := Line.write_frame Line.frame_unfailing deadline bytes c.line
  unfold orDrop onLine
  rw [Step.run_outcome_bind, Step.run_within]
  rcases hr : (Line.write deadline bytes).run c.line with ⟨r, l'⟩
  rw [hr] at kept
  cases r with
  | ok n => exact .inl fun unfailing => ⟨kept unfailing, id⟩
  | error e => exact .inr ⟨e, rfl, .inr (Line.write_error hr)⟩

theorem watched_lossWatch : Watched lossWatch where
  kept line connected unfailing := ⟨line ▸ unfailing, (connected ▸ ·)⟩
  passed alarm _ _ := alarm
  alarms alarm := alarm.imp (fun gone => .inr gone) id
  waited c arrival deadline honour unfailing :=
    ⟨Line.waitFor_frame Line.frame_unfailing arrival deadline honour c.line unfailing, id⟩
  read _ _ _ := .of_calm (read_lossWatch _ _ _)
  readNow _ _ := .of_calm (onLine_lossWatch (Line.read_frame Line.frame_unfailing _ _ _))
  written := write_lossWatch
  flushed _ := .of_calm (onLine_lossWatch (Line.flush_frame Line.frame_unfailing _))
  ended _ := .inr ⟨_, rfl, .inl rfl, .inr rfl⟩
  stopped := .of_calm fun _ unfailing => ⟨⟨unfailing.arrivals, unfailing.answers⟩, id⟩

/-- The verdict on a lost channel: it is reported with a fault that ends the session. -/
def lossVerdict : Watch Channel where
  calm := lossWatch.calm
  alarm _ e _ := e.disposition = .disconnect
  refl := lossWatch.refl
  trans := lossWatch.trans
  before _ alarm := alarm

theorem outward_lossVerdict : Outward lossVerdict where
  kept := watched_lossWatch.kept
  passed alarm _ _ := alarm

/-- The channel is lost also where the session closes it. -/
theorem settles_lossWatch : Client.Settles lossWatch lossVerdict where
  calm := id
  alarm := by
    rintro - - e (rfl | ⟨cause, rfl⟩) <;> rfl
  closed ends _ := .inr ends

end Channel

theorem Fault.isTimeout_of_disconnect {e : Fault} (h : e.disposition = .disconnect) : e.isTimeout = false := by
  cases e <;> first | rfl | cases h

/-! ## What success says of a channel -/

namespace Channel

/-- The step keeps the connection if it succeeds. -/
abbrev Holds (x : Step Channel α) : Prop := Establishes (·.connected = true) x (·.connected = true)

theorem orDrop_holds (x : Step Line α) : Holds (orDrop x) := by
  have kept : Moves (Preserves (·.connected = true)) (onLine x) := fun _ => id
  refine .outcome_bind kept (.of_moves kept) (fun a => .pure a) fun e => ?_
  exact .bind (Q := fun _ => True) (fun _ _ _ _ _ => trivial) fun _ => .throw e

theorem lost_holds (e : Fault) : Holds (do
    drop
    throw e : Step Channel α) :=
  .bind (Q := fun _ => True) (fun _ _ _ _ _ => trivial) fun _ => .throw e

theorem count_holds (f : ChannelStatistics → ChannelStatistics) : Holds (count f) := .modify fun _ => id

theorem stop_holds : Holds (honourCancel : Step Channel α) :=
  .bind (Q := fun _ => True) (fun _ _ _ _ _ => trivial) fun _ => .throw _

theorem fill_holds (deadline : Moment) : Holds (fill deadline) := by
  refine .bind .get fun c => ?_
  rcases c.capped deadline with ⟨deadline, byOperation⟩
  refine .bind (orDrop_holds _) fun heard => ?_
  cases heard with
  | cancelled => exact stop_holds
  | elapsed => exact .bind (.ite (.modify fun _ => id) (.pure _)) fun _ => .pure _
  | ended => exact lost_holds _
  | data bytes => exact .bind (.modify fun _ => id) fun _ => .bind (count_holds _) fun _ => .pure _

theorem echoRound_holds (sent : Bytes) (timeout : Duration) (deadline : Moment) :
    Holds (echoRound sent timeout deadline) := by
  refine .bind .get fun c => .ite ?_ (.ite ?_ ?_)
  · exact .bind (.modify fun _ => id) fun _ => .bind (count_holds _) fun _ => .throw_bind _ _
  · exact .bind (.of_moves fun _ => id) fun _ => .pure _
  · refine .bind (fill_holds _) fun heard => ?_
    cases heard with
    | data => exact .bind .get fun _ => .pure _
    | elapsed => exact .throw _

theorem writeRound_holds (deadline : Moment) (p : Bytes × Nat) : Holds (writeRound deadline p) := by
  refine .ite (.pure _) (.bind (orDrop_holds _) fun taken => ?_)
  match taken with
  | none => exact .throw _
  | some 0 => exact lost_holds _
  | some (n + 1) => exact .pure _

theorem transmit_holds (bytes : Bytes) (timeout : Duration) : Holds (transmit bytes timeout) := by
  refine .bind .get fun c => .bind (.repeatUpTo (writeRound_holds _) _ _) fun written => ?_
  have echoed : Holds (do
      count fun s => { s with sent := s.sent + bytes.length }
      let c ← get
      if c.line.echoes then
        checkEcho bytes (if c.intercharacter = 0 then timeout else c.intercharacter)
      return written) := by
    refine .bind (count_holds _) fun _ => .bind .get fun c => .ite (.bind ?_ fun _ => .pure _) (.pure _)
    exact .bind .get fun _ => .bind .get fun _ => .repeatUpTo (echoRound_holds _ _) _ _
  exact .bind (.of_moves fun _ => id) fun _ => .ite (.throw_bind _ _) echoed

/-- A write that succeeds found and left the channel connected. -/
theorem write_establishes (bytes : Bytes) (timeout : Duration) :
    Establishes (fun _ => True) (write bytes timeout) (·.connected = true) := by
  have found : Establishes (fun _ => True) ensureConnected (·.connected = true) := by
    intro c _ c' _ run
    unfold ensureConnected at run
    rw [Step.run_get_bind] at run
    split at run
    · exact absurd run Step.run_throw_ne_ok
    next connected =>
      obtain rfl := (Prod.mk.inj run).2
      simpa using connected
  refine .bind found fun _ => .bind (.bind .get fun _ => .ite stop_holds (.pure _)) fun _ => ?_
  refine .bind (.modify fun _ => id) fun _ => .outcome_bind (K := fun _ => True) (fun _ _ => trivial)
    (transmit_holds _ _) (fun n => .bind (.modify fun _ => id) fun _ => .pure n) fun e => ?_
  exact .bind (Q := fun _ => True) (fun _ _ _ _ _ => trivial) fun _ => .throw e

end Channel

namespace Linked

theorem connected_of_writeControl {byte : UInt8} {s s' : Linked} (h : (writeControl byte).run s = (.ok (), s')) :
    s'.channel.connected = true := by
  obtain ⟨p, _, -, h⟩ := Step.run_bind_ok.1 h
  obtain ⟨n, _, sent, h⟩ := Step.run_bind_ok.1 h
  obtain rfl := (Prod.mk.inj h).2
  obtain ⟨c', written, rfl⟩ := Step.run_within_eq.1 sent
  exact Channel.write_establishes _ _ _ _ _ trivial written

/-- The last packet of a response was acknowledged. -/
theorem request_connected {message m : Bytes} {s s' : Linked} (h : (request message).run s = (.ok m, s')) :
    s'.channel.connected = true := by
  obtain ⟨u, v, fs, -, -, reassembled⟩ := request_ok h
  have some : fs ≠ [] := by
    rintro rfl
    obtain ⟨f, alone, -⟩ | ⟨-, f, last, -⟩ := reassembled.shape
    · cases alone
    · cases last
  cases reassembled.delivered with
  | none => exact absurd rfl some
  | more before last =>
    obtain ⟨_, _, v, _, -, -, -, acknowledged, -, rfl⟩ := last
    exact (connected_of_writeControl acknowledged :)

end Linked

namespace Client

/-- Services travel in packets, over a connected channel. -/
structure InTouch (c : Client) : Prop where
  packets : c.InPackets
  connected : c.channel.connected = true

/-- What keeps the pace keeps the packets. -/
theorem packets_of_bearing {c c' : Client} (same : c'.bearing = c.bearing) (h : c.InPackets) : c'.InPackets := by
  have known (c : Client) : c.InPackets ↔ c.pace.isSome = true := by
    rw [InPackets, pace]
    rcases c.wire with link | a <;> simp
  rw [known] at h ⊢
  rw [(Prod.mk.inj same).2]
  exact h

theorem keepsPackets {x : Step Client α} (h : Moves (Same bearing) x) : Moves (Preserves InPackets) x :=
  h.mono fun _ _ => packets_of_bearing

theorem frame_packets : Frame (Preserves InPackets) where
  linked otherwise _ h := keepsPackets (frame_bearing.linked otherwise h)
  associated service := keepsPackets (frame_bearing.associated service)
  channel h := keepsPackets (frame_bearing.channel h)
  changed h := keepsPackets (frame_bearing.changed h)
  noted _ _ := id
  recorded _ _ := id

theorem startFrame_packets : StartFrame (fun _ => True) (Preserves InPackets) where
  toSessionFrame := frame_packets.session
  moved _ _ _ := id
  recognised _ _ := id
  begun := keepsPackets startFrame_bearing.begun
  loggedOn := keepsPackets startFrame_bearing.loggedOn
  opened := keepsPackets startFrame_bearing.opened
  closed := keepsPackets startFrame_bearing.closed

/-- What leaves connection and wire alone keeps in touch. -/
theorem inTouch_of_eq {c c' : Client} (connected : c'.channel.connected = c.channel.connected) (wire : c'.wire = c.wire)
    (h : c.InTouch) : c'.InTouch := by
  obtain ⟨link, packets⟩ := h.packets
  exact ⟨⟨link, wire.trans packets⟩, connected.trans h.connected⟩

theorem changeLink_packets (f : Link → Link) : Moves (Preserves InPackets) (changeLink f) := by
  rintro c ⟨link, wire⟩
  unfold changeLink
  rw [Step.run_modify, wire]
  exact ⟨_, rfl⟩

theorem changeLink_inTouch (f : Link → Link) : Moves (Preserves InTouch) (changeLink f) := by
  refine fun c h => ⟨changeLink_packets f c h.packets, ?_⟩
  obtain ⟨link, wire⟩ := h.packets
  unfold changeLink
  rw [Step.run_modify, wire]
  exact h.connected

theorem moveTo_inTouch (phase : Phase) : Moves (Preserves InTouch) (moveTo phase) := by
  refine .get_bind fun c => ?_
  cases c.phase.moveTo phase with
  | ok p => exact inTouch_of_eq rfl rfl
  | error e => exact inTouch_of_eq rfl rfl

/-! ### Services -/

theorem request_establishes (message : Bytes) : Establishes InPackets (onLink (Linked.request message)) InTouch := by
  rintro c m c' ⟨link, wire⟩ run
  unfold onLink onLinked at run
  rw [Step.run_get_bind, Step.run_get_bind, wire] at run
  dsimp only at run
  rw [Step.run_set_bind, Step.run_ofExcept] at run
  obtain ⟨returned, rfl⟩ := Prod.mk.inj run
  exact ⟨⟨_, rfl⟩, Linked.request_connected (Step.run_eq_of_fst returned)⟩

theorem takeReports_inTouch (reporting : Bool) : Moves (Preserves InTouch) (takeReports reporting) := by
  refine .bind .get fun c => ?_
  rcases c.wire with link | a
  · have reported : Moves (Preserves InTouch) (link.reports.forM fun received => follow (·.report received)) := by
      induction link.reports with
      | nil => exact .pure _
      | cons received rest ih => exact .bind (.modify fun _ => inTouch_of_eq rfl rfl) fun _ => ih
    exact .ite (.bind reported fun _ => changeLink_inTouch _) (changeLink_inTouch _)
  · exact .pure _

theorem carry_establishes (reporting : Bool) (message : Bytes) : Establishes InPackets (carry reporting message) InTouch := by
  have carried : Establishes InPackets (do
      let r ← (onLink (Linked.request message)).outcome
      takeReports reporting
      Step.ofExcept r) InTouch :=
    .outcome_bind (K := fun _ => True) (fun _ _ => trivial) (request_establishes message)
      (fun _ => .bind (.of_moves (takeReports_inTouch _)) fun _ => .ofExcept _)
      fun e => .bind (Q := fun _ => True) (fun _ _ _ _ _ => trivial) fun _ => .throw e
  rintro c m c' ⟨link, wire⟩ run
  unfold carry at run
  rw [Step.run_get_bind, wire] at run
  exact carried c m c' ⟨link, wire⟩ run

theorem exchange_establishes (reporting : Bool) (request : Request) :
    Establishes InPackets (exchange reporting request) InTouch :=
  .bind .get fun _ => .outcome_bind (K := fun _ => True) (fun _ _ => trivial) (carry_establishes _ _)
    (fun _ => .bind (.of_moves (.modify fun _ => inTouch_of_eq rfl rfl)) fun _ => .ofExcept _)
    fun e => .bind (Q := fun _ => True) (fun _ _ _ _ _ => trivial) fun _ => .throw e

theorem transactRepeatedly_establishes (reporting : Bool) (request : Request) (retries : Nat) :
    Establishes InPackets (transactRepeatedly reporting request retries) InTouch := by
  induction retries with
  | zero => exact .bind (exchange_establishes _ _) fun _ => .ofExcept _
  | succ retries ih =>
    refine .bind (exchange_establishes _ _) fun response => ?_
    cases Response.results response with
    | ok results => exact .pure _
    | error e =>
      have slept (d : Duration) : Establishes InTouch (onChannel (Channel.sleep d)) InPackets :=
        (Establishes.of_moves (frame_packets.channel (Channel.sleep_pace d))).pre fun _ => InTouch.packets
      dsimp only
      split
      · exact .throw_bind _ _
      · exact .bind .get fun _ => .bind (slept _) fun _ => ih

/-- **A service that succeeds** leaves the client in touch with its meter. -/
theorem transact_establishes (request : Request) : Establishes InPackets (transact request) InTouch :=
  .bind .get fun _ => transactRepeatedly_establishes _ _ _

/-! ### Starts -/

theorem logon_establishes : Establishes InPackets logon InTouch :=
  .bind .get fun _ => .bind (transact_establishes _) fun _ => .pure _

theorem security_establishes : Establishes InPackets security InTouch := by
  have sent (c : Config) {f : Except Fault Bytes → Step Client Unit} (hok : ∀ results, f (.ok results) = pure ())
      (herror : ∀ e, f (.error e) = throw (refusedPassword e)) :
      Establishes InPackets ((transact (.security c.paddedPassword)).outcome >>= f) InTouch := by
    refine .outcome_bind (K := fun _ => True) (fun _ _ => trivial) (transact_establishes _) (fun results => ?_) fun e => ?_
    · rw [hok]
      exact .pure _
    · rw [herror]
      exact .throw _
  refine .bind .get fun c => ?_
  split
  · exact .bind (.of_moves (moveTo_frame startFrame_packets _)) fun _ => sent _ (fun _ => rfl) fun _ => rfl
  · exact sent _ (fun _ => rfl) fun _ => rfl

theorem secured_inTouch (issueSecurity : Bool) : Establishes InTouch (do
    if issueSecurity then security
    moveTo .active) InTouch := by
  have active : Establishes InTouch (moveTo .active) InTouch := .of_moves (moveTo_inTouch _)
  cases issueSecurity with
  | true => exact .bind (security_establishes.pre fun _ => InTouch.packets) fun _ => active
  | false => exact active

theorem negotiateAndLogon_establishes : Establishes InPackets negotiateAndLogon InTouch := by
  have negotiated : Establishes InPackets (negotiate true) InPackets :=
    .of_moves (negotiate_frame startFrame_packets true)
  refine .bind .get fun c => ?_
  split
  · exact .bind negotiated fun _ => logon_establishes
  · exact logon_establishes

theorem identify_establishes (withFeatures : Bool) : Establishes InPackets (identify withFeatures) InPackets :=
  .of_moves (identify_frame startFrame_packets.toSessionFrame startFrame_packets.recognised withFeatures)

theorem startDirect_establishes : Establishes InPackets startDirect InTouch := by
  have rest : Establishes InTouch (do
      if (← get).config.issueSecurity then security
      moveTo .active) InTouch := .bind .get fun _ => secured_inTouch _
  have restarted (baud : Nat) : Establishes InPackets (restartAt baud) InTouch := by
    refine .bind (.of_moves (startFrame_packets.slept _)) fun _ => ?_
    refine .bind (.of_moves (startFrame_packets.tuned _)) fun _ => ?_
    exact .bind (.modify fun _ h => h) fun _ => .bind (identify_establishes false) fun _ => negotiateAndLogon_establishes
  refine .bind .get fun c => .bind (identify_establishes false) fun _ => ?_
  refine .outcome_bind (negotiateAndLogon_frame startFrame_packets) negotiateAndLogon_establishes
    (fun _ => rest) fun e => ?_
  refine .bind .get fun c' => ?_
  dsimp only
  cases fallbackBaud c'.config c.channel.line.baud e with
  | none => exact .throw_bind _ _
  | some baud => exact .bind (restarted baud) fun _ => rest

theorem timingSetup_establishes : Establishes InPackets timingSetup InTouch := by
  have takenOn (d : Duration) : Establishes InTouch
      (modify fun c => { c with channel.intercharacter := d } : Step Client Unit) InTouch :=
    .modify fun _ => inTouch_of_eq rfl rfl
  refine .bind (.of_moves (frame_packets.onLink Linked.parameters_pace)) fun p => ?_
  refine .outcome_bind (K := fun _ => True) (fun _ _ => trivial) (transact_establishes _) (fun results => ?_) fun e => ?_
  · exact .bind (.ofExcept _) fun _ => .bind (.of_moves (changeLink_inTouch _)) fun _ => takenOn _
  · exact .bind (Q := fun _ => True) (fun _ _ _ _ _ => trivial) fun _ => .throw e

theorem authenticate_establishes : Establishes InPackets authenticate InTouch := by
  refine .bind .get fun c => .bind (.ofExcept _) fun ticket => .bind (.ofExcept _) fun key => ?_
  refine .bind (.ofExcept _) fun cipher => ?_
  dsimp only
  split
  · exact .throw_bind _ _
  refine .bind (.ofExcept _) fun encrypted => .outcome_bind (K := fun _ => True) (fun _ _ => trivial)
    (transact_establishes _) (fun results => .bind (.ofExcept _) fun _ => .ofExcept _) fun e => ?_
  exact .ite (.bind (Q := fun _ => True) (fun _ _ _ _ _ => trivial) fun _ => .throw _) (.throw _)

theorem startTelephone_establishes : Establishes InPackets startTelephone InTouch := by
  refine .bind .get fun c => .bind (identify_establishes true) fun _ => ?_
  have rest : Establishes InPackets (afterTiming c.config) InTouch := by
    have negotiated : Establishes InPackets (negotiate false) InPackets :=
      .of_moves (negotiate_frame startFrame_packets false)
    have proved : Establishes InTouch (do
        if c.config.telephone.enableAuthentication then authenticate
        else if c.config.issueSecurity then security
        moveTo .active) InTouch := by
      split
      · exact .bind (authenticate_establishes.pre fun _ => InTouch.packets) fun _ => .of_moves (moveTo_inTouch _)
      · exact secured_inTouch _
    exact .ite (.bind negotiated fun _ => .bind logon_establishes fun _ => proved)
      (.bind logon_establishes fun _ => proved)
  exact .ite (.bind timingSetup_establishes fun _ => rest.pre fun _ => InTouch.packets) rest

/-- Over a network no packets travel. -/
theorem startNetwork_establishes : Establishes InPackets startNetwork InTouch := by
  rintro c a c' ⟨link, wire⟩ run
  unfold startNetwork onAssociated at run
  rw [Step.run_get_bind] at run
  obtain ⟨_, _, changed, -⟩ := Step.run_bind_ok.1 run
  rw [Step.run_get_bind, wire] at changed
  exact absurd changed Step.run_throw_ne_ok

/-- **A start that succeeds** leaves the client in touch with its meter. -/
theorem startSession_establishes : Establishes InPackets startSession InTouch := by
  intro c u c' packets run
  obtain ⟨-, brought⟩ := startSession_ok run
  obtain ⟨t, same, ⟨e, failed⟩ | onward⟩ := bringUp_run c
  · rw [brought] at failed
    cases (Prod.mk.inj failed).1
  have packets : t.InPackets := packets_of_bearing same packets
  rw [brought] at onward
  cases hd : c.dialect with
  | c1218 => exact startDirect_establishes t _ c' packets (by rw [hd] at onward; exact onward.symm)
  | c1221 => exact startTelephone_establishes t _ c' packets (by rw [hd] at onward; exact onward.symm)
  | c1222 => exact startNetwork_establishes t _ c' packets (by rw [hd] at onward; exact onward.symm)

theorem timingSetup_packets : Moves (Preserves InPackets) timingSetup :=
  timingSetup_frame frame_packets.session (frame_packets.onLink Linked.parameters_pace)
    (fun _ _ _ _ => changeLink_packets _) fun _ => .modify fun _ => id

/-! ## Runs -/

/-- The clients of all runs of sessions over packets, in none of which a transfer got packets in disorder. The
lines of transfers do not fail to read. -/
inductive Orderly : Client → Prop
  | new {channel : Channel} {dialect : Dialect} {config : Config} {clock : UInt64} {entropy : Nat → UInt32}
      {c : Client} (made : ofConfig channel dialect config clock entropy = .ok c) (packets : c.InPackets) : Orderly c
  | meanwhile {c : Client} (before : Orderly c) (line : Line) (watched : Bool) :
      Orderly { c with channel := { c.channel with line }, watched }
  | start {c : Client} (before : Orderly c) : Orderly (startSession.run c).2
  | transfer {c : Client} (before : Orderly c) (t : Transfer) (timeout : Option Duration)
      (unfailing : c.channel.line.Unfailing)
      (orderly : ((Operation.transfer t timeout).step.run c).2.disorder = c.disorder) :
      Orderly ((Operation.transfer t timeout).step.run c).2
  | finish {c : Client} (before : Orderly c) : Orderly (endSession.run c).2

theorem Orderly.reached {c : Client} (h : Orderly c) : Reached c := by
  induction h with
  | new made _ => exact .new made
  | meanwhile _ _ _ ih => exact .meanwhile ih _ _
  | start _ ih => exact .after ih .start
  | transfer _ t timeout _ _ ih => exact .after ih (.transfer t timeout)
  | finish _ ih => exact .after ih .finish

theorem Orderly.packets {c : Client} (h : Orderly c) : c.InPackets := by
  induction h with
  | new _ packets => exact packets
  | meanwhile _ _ _ ih => exact ih
  | start _ ih => exact startSession_frame startFrame_packets timingSetup_packets _ ih
  | transfer _ t timeout _ _ ih =>
    exact keepsPackets (transfer_frame operationFrame_bearing t timeout fun _ _ _ => rfl) _ ih
  | finish _ ih => exact endSession_frame startFrame_packets _ ih

/-- The channel is connected after a transfer, or it failed and the session is over. -/
theorem transfer_connected {c c' : Client} {r : Except Fault Unit} {t : Transfer} {timeout : Option Duration}
    (reached : Reached c) (active : c.phase = .active) (touch : c.InTouch) (unfailing : c.channel.line.Unfailing)
    (run : (Operation.transfer t timeout).step.run c = (r, c')) (orderly : c'.disorder = c.disorder) :
    c'.channel.connected = true ∨ (∃ e, r = .error e ∧ e.isTimeout = false) ∧ c'.phase = .disconnected := by
  have told := transfer_tells Channel.watched_lossWatch Channel.settles_lossWatch Channel.outward_lossVerdict
    touch.packets run orderly
  refine told.imp (fun calm => (calm unfailing).2 touch.connected) fun ⟨e, failed, ends⟩ => ?_
  have settled := (settled_transfer t timeout).ended c active reached.steady.sound
  rw [run] at settled
  exact ⟨⟨e, failed, Fault.isTimeout_of_disconnect ends⟩, (settled ⟨e, failed, ends⟩).1⟩

/-- An active session has a connected channel. -/
theorem Orderly.connected {c : Client} (h : Orderly c) (active : c.phase = .active) : c.channel.connected = true := by
  induction h with
  | new made _ => exact absurd ((ofConfig_spec made).2.symm.trans active) nofun
  | meanwhile _ _ _ ih => exact ih active
  | @start c before ih =>
    by_cases down : c.phase = .disconnected
    · obtain ⟨-, -, ⟨ok, -⟩ | ⟨-, ended, -⟩⟩ := startSession_spec down before.reached.steady.sound
      · exact (startSession_establishes c () _ before.packets (Step.run_eq_of_fst ok)).connected
      · exact absurd (ended.symm.trans active) nofun
    · rw [startSession_run_of_ne down] at active ⊢
      exact ih active
  | @transfer c before t timeout unfailing orderly ih =>
    obtain used | down := before.reached.steady.phase
    · have kept := transfer_connected before.reached used ⟨before.packets, ih used⟩ unfailing
        (Step.run_eq_of_fst rfl) orderly
      exact kept.resolve_right fun ended => absurd (ended.2.symm.trans active) nofun
    · exact absurd (((settled_transfer t timeout).refused c down).2.1.symm.trans active) nofun
  | @finish c before ih => exact absurd ((endSession_spec before.reached.steady.sound).1.symm.trans active) nofun

/-- **A lost channel ends the session** while packets come in order: an active session has a connected channel, and
a transfer that leaves it otherwise failed with a fault that is no timeout, and the session is over. -/
theorem transfer_keeps_channel {c c' : Client} {r : Except Fault Unit} {t : Transfer} {timeout : Option Duration}
    (before : Orderly c) (active : c.phase = .active) (unfailing : c.channel.line.Unfailing)
    (run : (Operation.transfer t timeout).step.run c = (r, c')) (orderly : c'.disorder = c.disorder) :
    c.channel.connected = true ∧ (c'.phase = .active → c'.channel.connected = true) ∧
      (c'.channel.connected = false → (∃ e, r = .error e ∧ e.isTimeout = false) ∧ c'.phase = .disconnected) := by
  have connected := before.connected active
  have kept := transfer_connected before.reached active ⟨before.packets, connected⟩ unfailing run orderly
  refine ⟨connected, fun active' => ?_, fun lost => kept.resolve_left (by simp [lost])⟩
  exact kept.resolve_right fun ended => absurd (ended.2.symm.trans active') nofun

theorem orderly_answeredBy (answers : List FarAnswer) : Orderly (answeredBy answers) := by
  have made : ofConfig (.ofLine answering) .c1218 { issueNegotiate := false, issueSecurity := false } 0 (fun _ => 0) =
      .ok (direct (.ofLine answering)) := rfl
  have started : Orderly directSession := .start (.new made ⟨_, rfl⟩)
  exact .meanwhile started _ directSession.watched

/-- While the answer to a read is awaited, the far end closes. -/
def closedRead : Client := answeredBy [fun _ => [(50, .arrival .ended)]]

/-- The read fails for that, though it has a deadline, and the session is over. -/
theorem transfer_keeps_channel_closedRead : ∃ r c',
    (Operation.transfer (.read (.full 3)) (some (Duration.ofMillis 500))).step.run closedRead = (r, c') ∧
      c'.channel.connected = false ∧ (∃ e, r = .error e ∧ e.isTimeout = false) ∧ c'.phase = .disconnected := by
  have facts : closedRead.phase = .active ∧ closedRead.channel.line.arrivals = [] ∧
      ((Operation.transfer (.read (.full 3)) (some (Duration.ofMillis 500))).step.run closedRead).2.disorder =
        closedRead.disorder ∧
      ((Operation.transfer (.read (.full 3))
        (some (Duration.ofMillis 500))).step.run closedRead).2.channel.connected = false := by
    decide +kernel
  have unfailing (idle : closedRead.channel.line.arrivals = []) : closedRead.channel.line.Unfailing := by
    refine ⟨by simp [idle], fun answer listed => ?_⟩
    obtain rfl := List.mem_singleton.1 listed
    simp
  rcases run : (Operation.transfer (.read (.full 3)) (some (Duration.ofMillis 500))).step.run closedRead with ⟨r, c'⟩
  rw [run] at facts
  obtain ⟨active, idle, orderly, lost⟩ := facts
  obtain ⟨-, -, ended⟩ := transfer_keeps_channel (orderly_answeredBy _) active (unfailing idle) run orderly
  exact ⟨r, c', rfl, lost, ended lost⟩

/-- **A lost channel goes unnoticed** when the far end closes after a packet that came again was acknowledged: the
request is to be repeated, the deadline comes first, and the session stays active without a channel. -/
theorem lost_channel_unnoticed : Orderly (repeating [(10, .arrival .ended)]) ∧
    (repeating [(10, .arrival .ended)]).phase = .active ∧
    (repeating [(10, .arrival .ended)]).channel.connected = true ∧
    ∃ c', (Operation.transfer (.read (.full 3)) (some (Duration.ofMillis 500))).step.run
        (repeating [(10, .arrival .ended)]) = (.error (.readTimeout 0), c') ∧
      c'.channel.connected = false ∧ c'.phase = .active := by
  have facts : (repeating [(10, .arrival .ended)]).phase = .active ∧
      (repeating [(10, .arrival .ended)]).channel.connected = true ∧
      ((Operation.transfer (.read (.full 3)) (some (Duration.ofMillis 500))).step.run
        (repeating [(10, .arrival .ended)])).1 = .error (.readTimeout 0) ∧
      ((Operation.transfer (.read (.full 3)) (some (Duration.ofMillis 500))).step.run
        (repeating [(10, .arrival .ended)])).2.channel.connected = false ∧
      ((Operation.transfer (.read (.full 3)) (some (Duration.ofMillis 500))).step.run
        (repeating [(10, .arrival .ended)])).2.phase = .active := by
    decide +kernel
  obtain ⟨started, connected, failed, lost, active⟩ := facts
  exact ⟨orderly_answeredBy _, started, connected, _, Step.run_eq_of_fst failed, lost, active⟩

end Client

end Metering
