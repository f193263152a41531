import Metering.Proofs.LinkAlarms
import Metering.Proofs.Tempo

set_option autoImplicit false

/-! # Alarms during transfers

A client whose services travel in packets passes an alarm of its channel on, unless the packets of a response came
in disorder (`Client.watch`): its services are requests, and what fails in one of them fails the transfer. -/

namespace Metering.Client

open Step (Moves Watch)

variable {α β : Type}

/-- The packet link at work, if there is one. -/
def linked (c : Client) : Option Linked :=
  match c.wire with
  | .packets link => some ⟨c.channel, link⟩
  | .apdus _ => none

/-- Services travel in packets. -/
def InPackets (c : Client) : Prop := ∃ link, c.wire = .packets link

theorem inPackets_iff {c : Client} : c.InPackets ↔ c.linked.isSome = true := by
  rw [InPackets, linked]
  rcases c.wire with link | a <;> simp

/-- The number of packets that came twice or out of their place, if services travel in packets. -/
def disorder (c : Client) : Option Nat := c.linked.map Linked.disorder

/-- From a client with a packet link to one with a packet link, and so related. -/
def Between (P : Linked → Linked → Prop) (c c' : Client) : Prop :=
  ∀ s, c.linked = some s → ∃ s', c'.linked = some s' ∧ P s s'

theorem Between.trans {P Q R : Linked → Linked → Prop} {c c' c'' : Client} (first : Between P c c')
    (second : Between Q c' c'') (h : ∀ s t u, P s t → Q t u → R s u) : Between R c c'' := by
  intro s hs
  obtain ⟨t, ht, p⟩ := first s hs
  obtain ⟨u, hu, q⟩ := second t ht
  exact ⟨u, hu, h s t u p q⟩

/-- A watch on the packet link of a client. -/
def watch (v : Watch Linked) : Watch Client where
  calm := Between v.calm
  alarm c e := Between (v.alarm · e ·) c
  refl _ s hs := ⟨s, hs, v.refl s⟩
  trans first second := first.trans second fun _ _ _ => v.trans
  before first second := first.trans second fun _ _ _ => v.before

/-- Line and connection are the same, and the same number of packets has come in disorder. -/
structure LeftAlone (s t : Linked) : Prop where
  line : t.channel.line = s.channel.line
  connected : t.channel.connected = s.channel.connected
  disorder : t.disorder = s.disorder

/-- The client may have noted something, and nothing else has happened. -/
def Aside : Client → Client → Prop := Between LeftAlone

instance : IsPreorder Client Aside where
  refl _ s hs := ⟨s, hs, rfl, rfl, rfl⟩
  trans _ _ _ first second := first.trans second fun _ _ _ h h' =>
    ⟨h'.line.trans h.line, h'.connected.trans h.connected, h'.disorder.trans h.disorder⟩

theorem aside_of_eq {c c' : Client} (channel : c'.channel = c.channel) (wire : c'.wire = c.wire) : Aside c c' := by
  have same : c'.linked = c.linked := by rw [linked, linked, channel, wire]
  exact fun s hs => ⟨s, same.trans hs, rfl, rfl, rfl⟩

theorem modify_aside {f : Client → Client} (channel : ∀ c, (f c).channel = c.channel) (wire : ∀ c, (f c).wire = c.wire) :
    Moves Aside (modify f : Step Client PUnit) := .modify fun c => aside_of_eq (channel c) (wire c)

theorem changeLink_aside {f : Link → Link} (hf : ∀ l, (f l).statistics = l.statistics) : Moves Aside (changeLink f) := by
  refine .modify fun c => ?_
  rcases hw : c.wire with link | a
  · intro s hs
    obtain rfl : (⟨c.channel, link⟩ : Linked) = s := by simpa [linked, hw] using hs
    exact ⟨⟨c.channel, f link⟩, rfl, rfl, rfl, congrArg LinkStatistics.disorder (hf link)⟩
  · exact refl_of Aside c

theorem linked_packets {c : Client} {link : Link} (wire : c.wire = .packets link) :
    c.linked = some ⟨c.channel, link⟩ := by rw [linked, wire]

theorem linked_eq_some {c : Client} {s : Linked} :
    c.linked = some s ↔ ∃ link, c.wire = .packets link ∧ s = ⟨c.channel, link⟩ := by
  rw [linked]
  rcases c.wire with link | a <;> simp [eq_comm]

theorem linked_apdus {c : Client} {a : Association} (wire : c.wire = .apdus a) : c.linked = none := by rw [linked, wire]

theorem onLinked_heeds {v : Watch Linked} (otherwise : Fault) {x : Step Linked α} (hx : v.Heeds x) :
    (watch v).Heeds (onLinked otherwise x) := by
  refine .get_bind fun c => ?_
  rcases hw : c.wire with link | a
  · have put {P : Linked → Linked → Prop} (t : Linked) (holds : P ⟨c.channel, link⟩ t) :
        Between P c { c with channel := t.channel, wire := .packets t.link } := by
      intro s hs
      obtain rfl := Option.some.inj ((linked_packets hw).symm.trans hs)
      exact ⟨t, rfl, holds⟩
    dsimp only
    rw [Step.run_set_bind, Step.run_ofExcept]
    exact (hx ⟨c.channel, link⟩).mono (put _) fun e => put (P := (v.alarm · e ·)) _
  · exact (Watch.Heeds.throw _) c

theorem onLink_heeds {v : Watch Linked} {x : Step Linked α} (hx : v.Heeds x) : (watch v).Heeds (onLink x) :=
  .bind .get fun _ => onLinked_heeds _ hx

section Outward

variable {w : Watch Channel} (h : Channel.Outward w)

include h

theorem calm_of_aside {c c' : Client} (aside : Aside c c') : (watch (Linked.lenient w)).calm c c' := by
  intro s hs
  obtain ⟨t, ht, alone⟩ := aside s hs
  exact ⟨t, ht, Nat.le_of_eq alone.disorder.symm, .inl (h.kept alone.line alone.connected)⟩

theorem alarm_of_aside {c t t' : Client} {e : Fault} (alarm : (watch (Linked.lenient w)).alarm c e t)
    (aside : Aside t t') : (watch (Linked.lenient w)).alarm c e t' := by
  refine Between.trans alarm aside fun s t u ⟨le, alarm⟩ ⟨line, connected, disorder⟩ => ?_
  exact ⟨disorder ▸ le, alarm.imp (h.passed · line connected) fun more => disorder ▸ more⟩

theorem heeds_of_aside {x : Step Client α} (hx : Moves Aside x) : (watch (Linked.lenient w)).Heeds x :=
  .of_calm (hx.mono fun _ _ => calm_of_aside h)

/-- What is noted behind a service is of no matter to its alarm. -/
theorem noted_heeds {x : Step Client α} {note : Except Fault α → Step Client Unit}
    (hx : (watch (Linked.lenient w)).Heeds x) (aside : ∀ r, Moves Aside (note r))
    (done : ∀ r c, ((note r).run c).1 = .ok ()) : (watch (Linked.lenient w)).Heeds (do
      let r ← x.outcome
      note r
      Step.ofExcept r) := by
  have rest (r : Except Fault α) : Moves Aside (do
      note r
      Step.ofExcept r) := .bind (aside r) fun _ => .ofExcept r
  refine .outcome_bind hx (fun r => heeds_of_aside h (rest r)) fun c e t alarm => ?_
  rw [Step.run_bind_of_ok (Step.run_eq_of_fst (done (.error e) t)), Step.run_ofExcept]
  exact .error (.inr (alarm_of_aside h alarm (aside _ t)))

omit h in
theorem setDeadline_aside (deadline : Option Moment) : Moves Aside (setDeadline deadline) := by
  refine .modify fun c s hs => ?_
  rcases hw : c.wire with link | a
  · obtain rfl := Option.some.inj ((linked_packets hw).symm.trans hs)
    exact ⟨⟨c.channel.setDeadline deadline, link⟩, rfl, rfl, rfl, rfl⟩
  · exact nomatch (linked_apdus hw).symm.trans hs

/-- A deadline is taken away from behind an alarm. -/
theorem within_heeds (timeout : Duration) {x : Step Client α} (hx : (watch (Linked.lenient w)).Heeds x) :
    (watch (Linked.lenient w)).Heeds (within timeout x) :=
  .bind .get fun _ => .bind (heeds_of_aside h (setDeadline_aside _)) fun _ =>
    noted_heeds h hx (fun _ => setDeadline_aside _) fun _ _ => rfl

end Outward

section Watched

variable {w : Watch Channel} (h : Channel.Watched w)

include h

/-! ## Services -/

omit h in
theorem onChannel_heeds {x : Step Channel α} (hx : w.Heeds x) : (watch (Linked.lenient w)).Heeds (onChannel x) := by
  have put {P : Channel → Channel → Prop} (c : Client) (channel : Channel) (holds : P c.channel channel) :
      Between (fun s t => s.disorder ≤ t.disorder ∧ (P s.channel t.channel ∨ s.disorder < t.disorder)) c
        { c with channel } := by
    intro s hs
    rcases hw : c.wire with link | a
    · obtain rfl := Option.some.inj ((linked_packets hw).symm.trans hs)
      exact ⟨⟨channel, link⟩, rfl, Nat.le_refl _, .inl holds⟩
    · exact nomatch (linked_apdus hw).symm.trans hs
  exact .within hx put fun c e => put (P := (w.alarm · e ·)) c

theorem slept_heeds (d : Duration) : (watch (Linked.lenient w)).Heeds (onChannel (Channel.sleep d)) :=
  onChannel_heeds (Channel.sleep_heeds h d).of_only

omit h in
theorem follow_aside (f : Progress → List Nat × Progress) : Moves Aside (follow f) :=
  modify_aside (fun _ => rfl) fun _ => rfl

omit h in
theorem takeReports_aside (reporting : Bool) : Moves Aside (takeReports reporting) := by
  refine .bind .get fun c => ?_
  rcases c.wire with link | a
  · have reported : Moves Aside (link.reports.forM fun received => follow (·.report received)) := by
      induction link.reports with
      | nil => exact .pure _
      | cons received rest ih => exact .bind (follow_aside _) fun _ => ih
    have forgotten : Moves Aside (changeLink ({ · with reports := [] })) := changeLink_aside fun _ => rfl
    exact .ite (.bind reported fun _ => forgotten) forgotten
  · exact .pure _

omit h in
theorem takeReports_ok (reporting : Bool) (c : Client) : ((takeReports reporting).run c).1 = .ok () := by
  have followed (reports : List Nat) (c : Client) :
      ((reports.forM fun received => follow (·.report received)).run c).1 = .ok () := by
    induction reports generalizing c with
    | nil => rfl
    | cons received rest ih => exact ih _
  unfold takeReports
  rw [Step.run_get_bind]
  rcases c.wire with link | a
  · cases reporting with
    | false => rfl
    | true =>
      dsimp only
      rw [if_pos rfl, Step.run_bind_of_ok (Step.run_eq_of_fst (followed link.reports c))]
      rfl
  · rfl

theorem carry_heeds (reporting : Bool) (bytes : Bytes) : (watch (Linked.lenient w)).Heeds (carry reporting bytes) := by
  refine .get_bind fun c => ?_
  rcases hw : c.wire with link | a
  · exact noted_heeds h.toOutward (onLink_heeds (Linked.request_heeds h bytes)) (fun _ => takeReports_aside _)
      (fun _ => takeReports_ok _) c
  · -- there is no packet link to watch
    exact .inl fun s hs => nomatch (linked_apdus hw).symm.trans hs

theorem exchange_heeds (reporting : Bool) (request : Request) :
    (watch (Linked.lenient w)).Heeds (exchange reporting request) :=
  .bind .get fun _ =>
    noted_heeds h.toOutward (carry_heeds h _ _) (fun _ => modify_aside (fun _ => rfl) fun _ => rfl) fun _ _ => rfl

theorem transactRepeatedly_heeds (reporting : Bool) (request : Request) (retries : Nat) :
    (watch (Linked.lenient w)).Heeds (transactRepeatedly reporting request retries) := by
  induction retries with
  | zero => exact .bind (exchange_heeds h _ _) fun _ => .ofExcept _
  | succ retries ih =>
    refine .bind (exchange_heeds h _ _) fun response => ?_
    cases Response.results response with
    | ok results => exact .pure _
    | error e =>
      dsimp only
      split
      · exact .throw_bind _ _
      · exact .bind .get fun _ => .bind (slept_heeds h _) fun _ => ih

theorem transact_heeds (request : Request) : (watch (Linked.lenient w)).Heeds (transact request) :=
  .bind .get fun _ => transactRepeatedly_heeds h _ _ _

theorem transactReporting_heeds (request : Request) : (watch (Linked.lenient w)).Heeds (transactReporting request) :=
  .bind .get fun _ => transactRepeatedly_heeds h _ _ _

/-! ## Transfers -/

omit h in
theorem ensureActive_heeds (v : Watch Client) : v.Heeds ensureActive := .bind .get fun _ => .ite (.throw _) (.pure _)

theorem followed_heeds (f : Progress → List Nat × Progress) : (watch (Linked.lenient w)).Heeds (follow f) :=
  heeds_of_aside h.toOutward (follow_aside f)

theorem begun_heeds (total : Nat) : (watch (Linked.lenient w)).Heeds (beginProgress total) :=
  heeds_of_aside h.toOutward (modify_aside (fun _ => rfl) fun _ => rfl)

theorem finished_heeds (length : Nat) :
    (watch (Linked.lenient w)).Heeds (modify fun c => { c with progress := c.progress.finishPiece length }) :=
  heeds_of_aside h.toOutward (modify_aside (fun _ => rfl) fun _ => rfl)

theorem readAtOnce_heeds (number : UInt16) (offset : Option UInt32) (total : Nat) (request : Request) :
    (watch (Linked.lenient w)).Heeds (readAtOnce number offset total request) :=
  .bind (begun_heeds h _) fun _ => .bind (transactReporting_heeds h _) fun _ => .bind (.ofExcept _) fun _ =>
    .bind (followed_heeds h _) fun _ => .pure _

theorem readPiece_heeds (r : PieceRead) (read : PiecesRead) : (watch (Linked.lenient w)).Heeds (readPiece r read) := by
  unfold readPiece
  dsimp only
  split
  · exact .pure _
  refine .bind (.ofExcept _) fun request => .bind (transactReporting_heeds h _) fun _ => .bind (.ofExcept _) fun _ => ?_
  refine .bind (finished_heeds h _) fun _ => ?_
  exact .ite (.ite (.throw_bind _ _) (.pure _)) (.pure _)

theorem readPieces_heeds (r : PieceRead) : (watch (Linked.lenient w)).Heeds (readPieces r) :=
  .bind (begun_heeds h _) fun _ => .bind .get fun _ => .bind (.repeatWhileFed (readPiece_heeds h r) _ _) fun _ =>
    .bind (followed_heeds h _) fun _ => .pure _

theorem readActive_heeds (d : Descriptor) : (watch (Linked.lenient w)).Heeds (readActive d) := by
  refine .bind (.ofExcept _) fun _ => .bind (ensureActive_heeds _) fun _ => .bind .get fun c => ?_
  cases d.access with
  | full => exact .ite (readPieces_heeds h _) (readAtOnce_heeds h _ _ _ _)
  | range offset count =>
    exact .ite (readPieces_heeds h _) (.bind (.ofExcept _) fun _ => readAtOnce_heeds h _ _ _ _)

theorem writePieces_heeds (number : UInt16) (place : Nat) (pieces : List Bytes) :
    (watch (Linked.lenient w)).Heeds (writePieces number place pieces) := by
  induction pieces generalizing place with
  | nil => exact .pure _
  | cons piece rest ih =>
    exact .bind (.ofExcept _) fun _ => .bind (transact_heeds h _) fun _ => .bind (finished_heeds h _) fun _ =>
      .bind (followed_heeds h _) fun _ => ih _

theorem writeInPieces_heeds (number : UInt16) (offset : Nat) (data : Bytes) (limit : Nat) :
    (watch (Linked.lenient w)).Heeds (writeInPieces number offset data limit) :=
  .ite (.throw_bind _ _) (.bind (begun_heeds h _) fun _ => .bind (writePieces_heeds h _ _ _) fun _ => followed_heeds h _)

theorem writeActive_heeds (d : Descriptor) (data : Bytes) : (watch (Linked.lenient w)).Heeds (writeActive d data) := by
  have atOnce (r : Except Fault Request) : (watch (Linked.lenient w)).Heeds (do
      let _ ← transact (← Step.ofExcept r) : Step Client Unit) :=
    .bind (.ofExcept _) fun _ => .bind (transact_heeds h _) fun _ => .pure _
  refine .bind (.ofExcept _) fun _ => .bind (ensureActive_heeds _) fun _ => .bind .get fun c => ?_
  cases d.access with
  | full => exact .ite (atOnce _) (writeInPieces_heeds h _ _ _ _)
  | range offset count => exact .ite (atOnce _) (writeInPieces_heeds h _ _ _ _)

theorem procedureResult_heeds (number : UInt16) (sequence : UInt8) (request : Bytes) :
    (watch (Linked.lenient w)).Heeds (procedureResult number sequence request) :=
  .bind (readActive_heeds h _) fun _ => .bind (.ofExcept _) fun _ => .ite (.throw_bind _ _) (.pure _)

theorem awaitProcedure_heeds (number : UInt16) (sequence : UInt8) (request : Bytes) (retries : Nat) :
    (watch (Linked.lenient w)).Heeds (awaitProcedure number sequence request retries) := by
  induction retries with
  | zero => exact .bind (procedureResult_heeds h _ _ _) fun _ => .ofExcept _
  | succ retries ih =>
    refine .bind (procedureResult_heeds h _ _ _) fun result => ?_
    cases result with
    | ok data => exact .pure _
    | error e =>
      dsimp only
      split
      · exact .throw_bind _ _
      · exact .bind .get fun _ => .bind (slept_heeds h _) fun _ => ih

theorem procedureActive_heeds (number : UInt16) (parameters : Bytes) :
    (watch (Linked.lenient w)).Heeds (procedureActive number parameters) := by
  refine .bind (ensureActive_heeds _) fun _ => .get_bind fun c => ?_
  dsimp only
  rw [Step.run_set_bind]
  have numbered : Aside c { c with procedureSequence := c.procedureSequence + 1 } := aside_of_eq rfl rfl
  refine .after (calm_of_aside h.toOutward numbered) ?_
  exact (Watch.Heeds.bind (writeActive_heeds h _ _) fun _ => awaitProcedure_heeds h _ _ _ _) _

theorem waitActive_heeds (seconds : Nat) : (watch (Linked.lenient w)).Heeds (waitActive seconds) :=
  .bind (.ofExcept _) fun _ => .bind (ensureActive_heeds _) fun _ => .bind (transact_heeds h _) fun _ => .pure _

end Watched

/-! ## Settled transfers -/

/-- With a packet link, the result tells what happened on it. -/
theorem tells_linked {v : Watch Linked} {c t : Client} {r : Except Fault α} {s : Linked} (hs : c.linked = some s) :
    (watch v).Tells c r t ↔ ∃ s', t.linked = some s' ∧ v.Tells s r s' := by
  constructor
  · rintro (calm | ⟨e, failed, alarm⟩)
    · obtain ⟨s', hs', calm⟩ := calm s hs
      exact ⟨s', hs', .inl calm⟩
    · obtain ⟨s', hs', alarm⟩ := alarm s hs
      exact ⟨s', hs', .inr ⟨e, failed, alarm⟩⟩
  · have only {s₂ : Linked} (hs₂ : c.linked = some s₂) : s = s₂ := Option.some.inj (hs.symm.trans hs₂)
    rintro ⟨s', hs', calm | ⟨e, failed, alarm⟩⟩
    · exact .inl fun s₂ hs₂ => ⟨s', hs', only hs₂ ▸ calm⟩
    · exact .inr ⟨e, failed, fun s₂ hs₂ => ⟨s', hs', only hs₂ ▸ alarm⟩⟩

/-- Without one there is nothing to tell. -/
theorem tells_unlinked (v : Watch Linked) {c : Client} (hs : c.linked = none) (r : Except Fault α) (t : Client) :
    (watch v).Tells c r t := .inl fun _ hs' => nomatch hs.symm.trans hs'

/-- How the alarms of a watch come out when an operation is settled: behind a fault that ends the session the
channel is closed. -/
structure Settles (w v : Watch Channel) : Prop where
  calm {c t : Channel} : w.calm c t → v.calm c t
  alarm {c t : Channel} {e : Fault} : w.alarm c e t → v.alarm c e t
  closed {c t : Channel} {e : Fault} : e.disposition = .disconnect → w.calm c t ∨ w.alarm c e t →
    v.calm c (Channel.close.run t).2 ∨ v.alarm c e (Channel.close.run t).2

/-- No deadline explains an alarm. -/
theorem endsChannel_of_alarms {e : Fault} (h : e.Alarms) : endsChannel e = true := by
  obtain (rfl | rfl) | ⟨cause, rfl⟩ := h <;> rfl

theorem excuse_aside (e : Fault) (c : Client) : ∃ e' c', (excuse e).run c = (.ok e', c') ∧ Aside c c' ∧
    (e.Alarms → e' = e) := by
  have forgot : Aside c ((changeLink Link.forget).run c).2 := changeLink_aside (f := Link.forget) (fun _ => rfl) c
  unfold excuse
  rw [Step.run_get_bind]
  split
  next late =>
    refine ⟨.readTimeout 0, _, rfl, forgot, fun alarms => ?_⟩
    rw [endsChannel_of_alarms alarms] at late
    simp at late
  next => exact ⟨e, c, rfl, refl_of Aside c, fun _ => rfl⟩

theorem shutdown_linked {c : Client} {s : Linked} (h : c.linked = some s) :
    (shutdown.run c).2.linked = some ⟨(Channel.close.run s.channel).2, s.link⟩ := by
  rw [shutdown_run]
  rcases hw : c.wire with link | a
  · obtain rfl := Option.some.inj ((linked_packets hw).symm.trans h)
    rfl
  · exact nomatch (linked_apdus hw).symm.trans h

section Settled

variable {w v : Watch Channel} (h : Channel.Watched w) (settles : Settles w v)

include h settles

/-- A fault after which the link was left alone, and its verdict. -/
theorem told_settled {s t u : Linked} {e e' : Fault} (told : (Linked.lenient w).Tells (α := α) s (.error e) t)
    (alone : LeftAlone t u) (verdict : e.Alarms → e' = e) (closes : Prop) [Decidable closes]
    (ends : closes → e'.disposition = .disconnect) :
    (Linked.lenient v).Tells (α := α) s (.error e')
      (if closes then ⟨(Channel.close.run u.channel).2, u.link⟩ else u) := by
  have counted : (if closes then ⟨(Channel.close.run u.channel).2, u.link⟩ else u : Linked).disorder = t.disorder := by
    split <;> exact alone.disorder
  have known : s.disorder ≤ t.disorder ∧ ((w.calm s.channel u.channel ∨ w.alarm s.channel e' u.channel) ∨
      s.disorder < t.disorder) := by
    obtain ⟨le, calm | more⟩ | ⟨le, alarm | more⟩ := told.of_error
    · exact ⟨le, .inl (.inl (w.trans calm (h.kept alone.line alone.connected)))⟩
    · exact ⟨le, .inr more⟩
    · obtain rfl := verdict (h.alarms alarm)
      exact ⟨le, .inl (.inr (h.passed alarm alone.line alone.connected))⟩
    · exact ⟨le, .inr more⟩
  obtain ⟨le, told | more⟩ := known
  · have settled : v.Tells (α := α) s.channel (.error e')
        (if closes then ⟨(Channel.close.run u.channel).2, u.link⟩ else u : Linked).channel := by
      refine .error ?_
      split
      next closed => exact settles.closed (ends closed) told
      next => exact told.imp settles.calm settles.alarm
    exact settled.mono (fun calm => ⟨counted ▸ le, .inl calm⟩) fun _ alarm => ⟨counted ▸ le, .inl alarm⟩
  · exact .inl ⟨counted ▸ le, .inr (counted ▸ more)⟩

/-- **A settled operation** passes an alarm on, as it comes out behind a closed channel. -/
theorem settle_heeds {x : Step Client α} (hx : (watch (Linked.lenient w)).Heeds x) :
    (watch (Linked.lenient v)).Heeds (settle x) := by
  intro c
  rcases hs : c.linked with _ | s
  · exact tells_unlinked _ hs _ _
  rcases hr : x.run c with ⟨r, t⟩
  obtain ⟨s', hs', told⟩ := (tells_linked hs).1 (hx.of_run hr)
  rw [tells_linked hs]
  cases r with
  | ok a =>
    obtain ⟨le, calm⟩ := told.calm_of_ok
    rw [settle_run_ok hr]
    exact ⟨s', hs', .inl ⟨le, calm.imp_left settles.calm⟩⟩
  | error e =>
    obtain ⟨e', t', excused, aside, verdict⟩ := excuse_aside e t
    obtain ⟨u, hu, alone⟩ := aside s' hs'
    have linked : (if e'.disposition = .disconnect ∧ t'.phase ≠ .disconnected then (shutdown.run t').2
        else t').linked = some (if e'.disposition = .disconnect ∧ t'.phase ≠ .disconnected
          then ⟨(Channel.close.run u.channel).2, u.link⟩ else u) := by
      split
      · exact shutdown_linked hu
      · exact hu
    rw [settle_run_excused hr excused]
    exact ⟨_, linked, told_settled h settles told alone verdict _ And.left⟩

/-- **A transfer** passes an alarm on, with and without a deadline. -/
theorem transfer_heeds (outward : Channel.Outward v) (t : Transfer) (timeout : Option Duration) :
    (watch (Linked.lenient v)).Heeds (Operation.transfer t timeout).step := by
  have plain : (watch (Linked.lenient v)).Heeds t.step := by
    cases t with
    | read d => exact .bind (settle_heeds h settles (readActive_heeds h d)) fun _ => .pure _
    | write d data => exact .bind (settle_heeds h settles (writeActive_heeds h d data)) fun _ => .pure _
    | procedure number parameters =>
      exact .bind (settle_heeds h settles (procedureActive_heeds h number parameters)) fun _ => .pure _
    | wait seconds => exact .bind (settle_heeds h settles (waitActive_heeds h seconds)) fun _ => .pure _
  cases timeout with
  | none => exact plain
  | some timeout => exact within_heeds outward timeout plain

/-- **While packets come in order** a transfer tells what happened on its channel. -/
theorem transfer_tells (outward : Channel.Outward v) {t : Transfer} {timeout : Option Duration} {c c' : Client}
    {r : Except Fault Unit} (packets : c.InPackets) (run : (Operation.transfer t timeout).step.run c = (r, c'))
    (orderly : c'.disorder = c.disorder) : v.Tells c.channel r c'.channel := by
  obtain ⟨link, wire⟩ := packets
  have hs := linked_packets wire
  obtain ⟨s', hs', told⟩ := (tells_linked hs).1 ((transfer_heeds h settles outward t timeout).of_run run)
  obtain ⟨link', -, rfl⟩ := linked_eq_some.1 hs'
  rw [disorder, disorder, hs, hs'] at orderly
  have even : ¬ (⟨c.channel, link⟩ : Linked).disorder < (⟨c'.channel, link'⟩ : Linked).disorder :=
    Nat.not_lt.2 (Nat.le_of_eq (Option.some.inj orderly))
  exact told.mono (fun calm => calm.2.resolve_right even) fun _ alarm => alarm.2.resolve_right even

end Settled

/-! ## Sessions on a direct line -/

/-- A session on a direct line with the answers that its meter has left. -/
def answeredBy (answers : List FarAnswer) : Client :=
  { directSession with
    channel := { directSession.channel with line := { directSession.channel.line with answers } } }

theorem reached_answeredBy (answers : List FarAnswer) : Reached (answeredBy answers) := by
  have started : Reached directSession := .after (inUse_direct rfl).reached .start
  exact .meanwhile started _ directSession.watched

/-- A message was received, and a packet follows. -/
def saying (p : Packet) : FarAnswer := fun _ => [(10, .arrival (.data (ackByte :: frameBytes p)))]

/-- The last answer of the start comes again before the one to the first request. What happens meanwhile, after
the packet that came again was acknowledged, is left open. -/
def repeating (meanwhile : List (Duration × Event)) : Client :=
  answeredBy [saying ⟨0, ⟨0x20⟩, 0, [0]⟩, fun _ => meanwhile, saying ⟨0, ⟨0⟩, 0, [0, 0, 2, 1, 2, 0xFD]⟩, fun _ => []]

end Metering.Client
