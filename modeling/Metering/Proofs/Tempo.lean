import Metering.Proofs.Disposition
import Metering.Proofs.Transit

set_option autoImplicit false

/-! # How long packets of a session may take

A new channel allows no silence within a read, and of all that a client does only the agreement on
timing of a session over a telephone line changes that (`Client.AgreesOnTiming`). So in a session with that
agreement a packet is returned whenever its line has no gaps, and in every other session only if its
header and what is left of it come within one timeout each, however many bytes they have
(`Client.packet_returned_iff`). -/

namespace Metering.Client

open Step (Moves Same)

variable {α : Type}

/-! ## What a client goes by -/

/-- The dialect and the configuration. -/
def setup (c : Client) : Dialect × Config := (c.dialect, c.config)

/-- What decides how long packets may take. -/
def pace (c : Client) : Option (Duration × LinkParameters) :=
  match c.wire with
  | .packets link => some (c.channel.intercharacter, link.parameters)
  | .apdus _ => none

def bearing (c : Client) : (Dialect × Config) × Option (Duration × LinkParameters) := (c.setup, c.pace)

/-- A start agrees on timing. -/
def AgreesOnTiming (c : Client) : Prop := c.dialect = .c1221 ∧ c.config.telephone.issueTimingSetup = true

/-- The channel allows within a read the silence that the link waits for. -/
def Matched (c : Client) : Prop := ∀ p, c.pace = some p → p.1 = p.2.intercharacter

theorem onLinked_bearing (otherwise : Fault) {x : Step Linked α} (h : Linked.KeepsPace x) :
    Moves (Same bearing) (onLinked otherwise x) := by
  refine .get_bind fun c => ?_
  rcases hw : c.wire with link | a
  · have kept : (x.run ⟨c.channel, link⟩).2.pace = (c.channel.intercharacter, link.parameters) := (h ⟨c.channel, link⟩).pace_eq
    dsimp only
    rw [Step.run_set_bind, Step.run_ofExcept]
    have here : c.pace = some (c.channel.intercharacter, link.parameters) := by rw [pace, hw]
    rw [Same, bearing, bearing, here, ← kept]
    rfl
  · exact refl_of (Same bearing) c

theorem onAssociated_bearing (x : Step Associated α) : Moves (Same bearing) (onAssociated x) := by
  refine .get_bind fun c => ?_
  rcases hw : c.wire with link | a
  · exact refl_of (Same bearing) c
  · dsimp only
    rw [Step.run_set_bind, Step.run_ofExcept]
    have here : c.pace = none := by rw [pace, hw]
    rw [Same, bearing, bearing, here]
    rfl

theorem onChannel_bearing {x : Step Channel α} (h : Channel.KeepsPace x) : Moves (Same bearing) (onChannel x) := by
  refine .within h fun c channel paced => ?_
  rcases hw : c.wire with link | a
  · simp only [Same, bearing, setup, pace, hw, paced.silence]
  · simp only [Same, bearing, setup, pace, hw]

theorem changeLink_bearing {f : Link → Link} (h : ∀ l, (f l).parameters = l.parameters) :
    Moves (Same bearing) (changeLink f) := by
  refine .modify fun c => ?_
  rcases hw : c.wire with link | a
  · simp only [Same, bearing, setup, pace, hw, h link]
  · simp only [Same, bearing, setup, pace, hw]

theorem frame_bearing : Frame (Same bearing) where
  linked otherwise _ h := onLinked_bearing otherwise h
  associated _ := onAssociated_bearing _
  channel h := onChannel_bearing h
  changed h := changeLink_bearing h
  noted _ _ := rfl
  recorded _ _ := rfl

theorem frame_setup : Frame (Same setup) := by
  have weaken {α : Type} {x : Step Client α} (h : Moves (Same bearing) x) : Moves (Same setup) x :=
    h.mono fun _ _ same => congrArg Prod.fst same
  exact ⟨fun otherwise _ h => weaken (onLinked_bearing otherwise h), fun _ => weaken (onAssociated_bearing _),
    fun h => weaken (onChannel_bearing h), fun h => weaken (changeLink_bearing h), fun _ _ => rfl, fun _ _ => rfl⟩

/-! ## Starts -/

/-- A relation between clients that also the moves of a start respect, and its end. -/
structure StartFrame (A : Request → Prop) (R : Client → Client → Prop) : Prop extends SessionFrame A R where
  moved (c : Client) (phase : Phase) (refusals : Nat) : R c { c with phase, refusals }
  recognised (c : Client) (i : Option Identification) : R c { c with identification := i }
  begun : Moves R (onAssociated (Associated.change Association.beginSession))
  loggedOn : Moves R (onAssociated (Associated.change Association.afterLogon))
  opened : Moves R (onChannel Channel.openUp)
  closed : Moves R shutdown

theorem shutdown_bearing : Moves (Same bearing) shutdown := by
  intro c
  rw [shutdown_run]
  have kept : (Channel.close.run c.channel).2.intercharacter = c.channel.intercharacter := (Channel.close_pace c.channel).silence
  rcases hw : c.wire with link | a
  · simp only [Same, bearing, setup, pace, wiped, hw, kept]
  · simp only [Same, bearing, setup, pace, wiped, hw]

theorem startFrame_bearing : StartFrame (fun _ => True) (Same bearing) where
  toSessionFrame := frame_bearing.session
  moved _ _ _ := rfl
  recognised _ _ := rfl
  begun := onAssociated_bearing _
  loggedOn := onAssociated_bearing _
  opened := onChannel_bearing Channel.openUp_pace
  closed := shutdown_bearing

theorem startFrame_setup : StartFrame (fun _ => True) (Same setup) where
  toSessionFrame := frame_setup.session
  moved _ _ _ := rfl
  recognised _ _ := rfl
  begun := (onAssociated_bearing _).mono fun _ _ same => congrArg Prod.fst same
  loggedOn := (onAssociated_bearing _).mono fun _ _ same => congrArg Prod.fst same
  opened := (onChannel_bearing Channel.openUp_pace).mono fun _ _ same => congrArg Prod.fst same
  closed := shutdown_bearing.mono fun _ _ same => congrArg Prod.fst same

section Respected

variable {A : Request → Prop} {R : Client → Client → Prop} [IsPreorder Client R] (frame : StartFrame A R)

include frame

omit [IsPreorder Client R] in
theorem moveTo_frame (phase : Phase) : Moves R (moveTo phase) := by
  refine .get_bind fun c => ?_
  cases c.phase.moveTo phase with
  | ok p => exact frame.moved c p c.refusals
  | error e => exact frame.moved c c.phase (c.refusals + 1)

theorem security_frame : Moves R security := by
  refine .bind .get fun c => ?_
  split
  · exact .bind (moveTo_frame frame _) fun _ => sendPassword_frame frame.toSessionFrame _
  · exact sendPassword_frame frame.toSessionFrame _

theorem negotiate_frame (withBaud : Bool) : Moves R (negotiate withBaud) :=
  .bind (moveTo_frame frame _) fun _ => agree_frame frame.toSessionFrame withBaud

theorem negotiateAndLogon_frame : Moves R negotiateAndLogon := by
  refine .bind .get fun c => ?_
  split
  · exact .bind (negotiate_frame frame true) fun _ => logon_frame frame.toSessionFrame
  · exact logon_frame frame.toSessionFrame

theorem restartAt_frame (baud : Nat) : Moves R (restartAt baud) := by
  refine .bind (frame.slept _) fun _ => .bind (frame.tuned _) fun _ => ?_
  have back : Moves R (modify ({ · with negotiated := none, phase := .identifying })) := .modify fun c =>
    trans_of R (frame.noted c { c.notes with negotiated := none }) (frame.moved _ .identifying c.refusals)
  exact .bind back fun _ => .bind (identify_frame frame.toSessionFrame frame.recognised false) fun _ => negotiateAndLogon_frame frame

/-- The password is sent if that is configured, and then the session is active. -/
theorem secureAndActivate_frame (issueSecurity : Bool) : Moves R (do
    if issueSecurity then security
    moveTo .active) := by
  cases issueSecurity with
  | true => exact .bind (security_frame frame) fun _ => moveTo_frame frame _
  | false => exact moveTo_frame frame _

theorem startDirect_frame : Moves R startDirect := by
  refine .bind .get fun c => .bind (identify_frame frame.toSessionFrame frame.recognised false) fun _ => ?_
  have rest : Moves R (do
      if (← get).config.issueSecurity then security
      moveTo .active) := .bind .get fun _ => secureAndActivate_frame frame _
  refine .bind (.outcome (negotiateAndLogon_frame frame)) fun r => ?_
  cases r with
  | ok u => exact rest
  | error e =>
    refine .bind .get fun c' => ?_
    dsimp only
    cases fallbackBaud c'.config c.channel.line.baud e with
    | none => exact .bind (.throw e) fun _ => rest
    | some baud => exact .bind (restartAt_frame frame baud) fun _ => rest

/-- The part of a start on a telephone line that follows the agreement on timing. -/
def afterTiming (c : Config) : Step Client Unit := do
  if c.issueNegotiate then negotiate false
  logon
  if c.telephone.enableAuthentication then authenticate
  else if c.issueSecurity then security
  moveTo .active

theorem afterTiming_frame (c : Config) : Moves R (afterTiming c) := by
  have proof : Moves R (do
      if c.telephone.enableAuthentication then authenticate
      else if c.issueSecurity then security
      moveTo .active) := by
    split
    · exact .bind (authenticate_frame frame.toSessionFrame) fun _ => moveTo_frame frame _
    · exact secureAndActivate_frame frame _
  have loggedOn : Moves R (do
      logon
      if c.telephone.enableAuthentication then authenticate
      else if c.issueSecurity then security
      moveTo .active) := .bind (logon_frame frame.toSessionFrame) fun _ => proof
  exact .ite (.bind (negotiate_frame frame false) fun _ => loggedOn) loggedOn

/-- Only the agreement on timing may not respect the relation. -/
theorem startTelephone_frame {c : Client}
    (timing : c.config.telephone.issueTimingSetup = true → Moves R timingSetup) : R c (startTelephone.run c).2 := by
  unfold startTelephone
  rw [Step.run_get_bind]
  refine (Moves.bind (identify_frame frame.toSessionFrame frame.recognised true) fun _ => ?_ : Moves R _) c
  dsimp only
  split
  next issued => exact .bind (timing issued) fun _ => afterTiming_frame frame _
  next => exact afterTiming_frame frame _

theorem startNetwork_frame : Moves R startNetwork := by
  refine .bind .get fun c => .bind frame.begun fun _ => ?_
  have logon : Moves R logonWithIdle := by
    refine .bind .get fun c => ?_
    have asked : A (.logonWithIdle c.config.userId c.config.paddedUser c.config.network.sessionIdleTimeout) :=
      frame.brief (Request.brief_logonWithIdle _ _ (Nat.le_of_eq c.config.length_paddedUser))
    exact .bind (transact_frame frame.toServiceFrame asked) fun _ => .bind (.ofExcept _) fun _ => .pure _
  have rest : Moves R (do
      onAssociated (Associated.change Association.afterLogon)
      if c.config.issueSecurity && !c.config.network.sessionless then security
      else moveTo .securityHandshake
      moveTo .active) := by
    refine .bind frame.loggedOn fun _ => .ite ?_ ?_
    · exact .bind (security_frame frame) fun _ => moveTo_frame frame _
    · exact .bind (moveTo_frame frame _) fun _ => moveTo_frame frame _
  exact .ite (.bind logon fun _ => rest) rest

theorem bringUp_frame (timing : Moves R timingSetup) : Moves R bringUp := by
  refine .bind .get fun c => ?_
  have onward {x : Step Client Unit} (h : Moves R x) : Moves R (do
      if !c.channel.connected then onChannel Channel.openUp
      moveTo .identifying
      x) := by
    have rest : Moves R (do
        moveTo .identifying
        x) := .bind (moveTo_frame frame _) fun _ => h
    exact .ite (.bind frame.opened fun _ => rest) rest
  cases c.dialect with
  | c1218 => exact onward (startDirect_frame frame)
  | c1221 => exact onward fun _ => startTelephone_frame frame fun _ => timing
  | c1222 => exact onward (startNetwork_frame frame)

theorem startSession_frame (timing : Moves R timingSetup) : Moves R startSession := by
  refine .bind .get fun _ => .ite (.throw_bind _ _) (.bind (.outcome (bringUp_frame frame timing)) fun r => ?_)
  cases r with
  | ok u => exact .pure _
  | error e => exact .bind frame.closed fun _ => .throw e

theorem endSession_frame : Moves R endSession := by
  have left : Moves R (do
      modify ({ · with phase := .terminating })
      let _ ← takeLeave.outcome
      shutdown : Step Client Unit) :=
    .bind (.modify fun c => frame.moved c .terminating c.refusals) fun _ =>
      .bind (.outcome (takeLeave_frame frame.toServiceFrame frame.brief)) fun _ => frame.closed
  exact .bind .get fun _ => .ite left frame.closed

end Respected

theorem timingSetup_setup : Moves (Same setup) timingSetup := by
  have changed (f : Link → Link) : Moves (Same setup) (changeLink f) := by
    refine .modify fun c => ?_
    rcases hw : c.wire with link | a <;> simp only [Same, setup]
  exact timingSetup_frame frame_setup.session (frame_setup.onLink Linked.parameters_pace) (fun _ _ _ _ => changed _)
    fun _ => .modify fun _ => rfl

/-- Timing that was agreed on is that of the channel, too. -/
theorem timingSetup_ok {c c' : Client} (h : timingSetup.run c = (.ok (), c')) : c'.Matched := by
  obtain ⟨p, t1, -, h⟩ := Step.run_bind_ok.1 h
  dsimp only at h
  rw [Step.run_outcome_bind] at h
  split at h
  · obtain ⟨_, _, _, h⟩ := Step.run_bind_ok.1 h
    exact absurd h Step.run_throw_ne_ok
  next results _ =>
    obtain ⟨agreed, t2, -, h⟩ := Step.run_bind_ok.1 h
    obtain ⟨_, t3, changed, h⟩ := Step.run_bind_ok.1 h
    obtain rfl := (Prod.mk.inj h).2
    obtain rfl := (Prod.mk.inj changed).2
    intro q hq
    unfold pace at hq
    rcases hw : t2.wire with link | a
    · simp only [hw, Option.some.injEq] at hq
      rw [← hq]
      rfl
    · simp only [hw] at hq
      cases hq

theorem matched_of_pace {c c' : Client} (same : c'.pace = c.pace) (h : c.Matched) : c'.Matched :=
  fun p hp => h p (same ▸ hp)

theorem startTelephone_ok {c c' : Client} (issued : c.config.telephone.issueTimingSetup = true)
    (h : startTelephone.run c = (.ok (), c')) : c'.Matched := by
  unfold startTelephone at h
  rw [Step.run_get_bind] at h
  obtain ⟨_, t, -, h⟩ := Step.run_bind_ok.1 h
  dsimp only at h
  rw [if_pos issued] at h
  obtain ⟨_, t', agreed, rest⟩ := Step.run_bind_ok.1 h
  have kept := (afterTiming_frame startFrame_bearing c.config).of_run rest
  exact matched_of_pace (congrArg Prod.snd kept) (timingSetup_ok agreed)

/-- A start opens the channel, moves on and then goes the way of its dialect. -/
theorem bringUp_run (c : Client) : ∃ t : Client, t.bearing = c.bearing ∧
    ((∃ e, bringUp.run c = (.error e, t)) ∨ bringUp.run c = (match c.dialect with
      | .c1218 => startDirect
      | .c1221 => startTelephone
      | .c1222 => startNetwork).run t) := by
  generalize way : (match c.dialect with
    | .c1218 => startDirect
    | .c1221 => startTelephone
    | .c1222 => startNetwork) = x
  have moved (t : Client) (same : t.bearing = c.bearing) : ∃ t' : Client, t'.bearing = c.bearing ∧
      ((∃ e, (moveTo .identifying >>= fun _ => x).run t = (.error e, t')) ∨
        (moveTo .identifying >>= fun _ => x).run t = x.run t') := by
    have kept := moveTo_frame startFrame_bearing .identifying t
    rcases hm : (moveTo .identifying).run t with ⟨r, t'⟩
    rw [hm] at kept
    refine ⟨t', kept.trans same, ?_⟩
    cases r with
    | error e => exact .inl ⟨e, Step.run_bind_of_error hm⟩
    | ok u => exact .inr (Step.run_bind_of_ok hm)
  have run : bringUp.run c = (if !c.channel.connected then
      onChannel Channel.openUp >>= fun _ => moveTo .identifying >>= fun _ => x
      else moveTo .identifying >>= fun _ => x).run c := by
    rw [← way]
    rfl
  rw [run]
  split
  · have kept := frame_bearing.channel Channel.openUp_pace c
    rcases ho : (onChannel Channel.openUp).run c with ⟨r, t⟩
    rw [ho] at kept
    cases r with
    | error e => exact ⟨t, kept, .inl ⟨e, Step.run_bind_of_error ho⟩⟩
    | ok u =>
      rw [Step.run_bind_of_ok ho]
      exact moved t kept
  · exact moved c rfl

/-- Without an agreement on timing a start leaves the pace as it was. -/
theorem bringUp_pace {c : Client} (h : ¬ c.AgreesOnTiming) : (bringUp.run c).2.pace = c.pace := by
  obtain ⟨t, same, failed | run⟩ := bringUp_run c
  · obtain ⟨e, failed⟩ := failed
    rw [failed]
    exact congrArg Prod.snd same
  rw [run]
  refine Eq.trans ?_ (congrArg Prod.snd same)
  have config : t.config = c.config := congrArg (fun b => b.1.2) same
  cases dialect : c.dialect with
  | c1218 => exact congrArg Prod.snd (startDirect_frame startFrame_bearing t)
  | c1222 => exact congrArg Prod.snd (startNetwork_frame startFrame_bearing t)
  | c1221 =>
    have none : ¬ t.config.telephone.issueTimingSetup = true := fun issued => h ⟨dialect, config ▸ issued⟩
    exact congrArg Prod.snd (startTelephone_frame startFrame_bearing fun issued => absurd issued none)

/-- With an agreement on timing, a start that succeeds has matched the channel to the link. -/
theorem bringUp_matched {c c' : Client} (timed : c.AgreesOnTiming) (h : bringUp.run c = (.ok (), c')) : c'.Matched := by
  obtain ⟨t, same, failed | run⟩ := bringUp_run c
  · obtain ⟨e, failed⟩ := failed
    rw [h] at failed
    cases (Prod.mk.inj failed).1
  have config : t.config = c.config := congrArg (fun b => b.1.2) same
  rw [timed.1, h] at run
  exact startTelephone_ok (config ▸ timed.2) run.symm

theorem startSession_ok {c c' : Client} (h : startSession.run c = (.ok (), c')) :
    c.phase = .disconnected ∧ bringUp.run c = (.ok (), c') := by
  by_cases down : c.phase = .disconnected
  case neg =>
    rw [startSession_run_of_ne down] at h
    cases (Prod.mk.inj h).1
  refine ⟨down, ?_⟩
  unfold startSession at h
  rw [Step.run_get_bind, if_neg (by simpa using down), Step.run_outcome_bind] at h
  rcases hb : bringUp.run c with ⟨r, t⟩
  rw [hb] at h
  cases r with
  | ok u => rw [← (Prod.mk.inj h).2]
  | error e =>
    obtain ⟨_, _, _, h⟩ := Step.run_bind_ok.1 h
    exact absurd h Step.run_throw_ne_ok

/-! ## Operations -/

/-- A relation between clients that transfers respect, their deadlines and what is done with their faults. -/
structure OperationFrame (A : Request → Prop) (R : Client → Client → Prop) : Prop extends TableFrame A R where
  waits {r : Request} {seconds : Nat} (made : Request.wait seconds = .ok r) : A r
  forgot : Moves R (changeLink Link.forget)
  bounded (deadline : Option Moment) : Moves R (setDeadline deadline)
  closed : Moves R shutdown

theorem excuse_frame {R : Client → Client → Prop} [IsPreorder Client R] (forgot : Moves R (changeLink Link.forget))
    (e : Fault) : Moves R (excuse e) :=
  .bind .get fun _ => .ite (.bind forgot fun _ => .pure _) (.pure _)

/-- What a step respects it respects when its fault is settled. -/
theorem settle_frame {R : Client → Client → Prop} [IsPreorder Client R] (forgot : Moves R (changeLink Link.forget))
    (closed : Moves R shutdown) {x : Step Client α} (h : Moves R x) : Moves R (settle x) := by
  refine .bind (.outcome h) fun r => ?_
  cases r with
  | ok a => exact .pure a
  | error e =>
    exact .bind (excuse_frame forgot e) fun _ => .bind .get fun _ => .ite (.bind closed fun _ => .throw _) (.throw _)

section Respected

variable {A : Request → Prop} {R : Client → Client → Prop} [IsPreorder Client R] (frame : OperationFrame A R)

include frame

theorem transfer_frame (t : Transfer) (timeout : Option Duration) (numbered : t.IsProcedure → Renumbers R) :
    Moves R (Operation.transfer t timeout).step := by
  have plain : Moves R t.step := by
    have settled {β : Type} {x : Step Client β} (h : Moves R x) : Moves R (settle x) :=
      settle_frame frame.forgot frame.closed h
    cases t with
    | read d => exact .bind (settled (readActive_frame frame.toTableFrame d)) fun _ => .pure _
    | write d data => exact .bind (settled (writeActive_frame frame.toTableFrame d data)) fun _ => .pure _
    | procedure number parameters =>
      have renumbers := numbered ⟨number, parameters, rfl⟩
      exact .bind (settled (procedureActive_frame frame.toTableFrame renumbers number parameters)) fun _ => .pure _
    | wait seconds => exact .bind (settled (waitActive_frame frame.toCallFrame frame.waits seconds)) fun _ => .pure _
  cases timeout with
  | none => exact plain
  | some timeout =>
    exact .bind .get fun _ => .bind (frame.bounded _) fun _ => .bind (.outcome plain) fun _ =>
      .bind (frame.bounded _) fun _ => .ofExcept _

end Respected

theorem operationFrame_bearing : OperationFrame (fun _ => True) (Same bearing) where
  toTableFrame := frame_bearing.transfers.tables
  waits _ := trivial
  forgot := changeLink_bearing fun _ => rfl
  bounded deadline := by
    refine .modify fun c => ?_
    rcases hw : c.wire with link | a
    · simp only [Same, bearing, setup, pace, hw]
      rfl
    · simp only [Same, bearing, setup, pace, hw]
  closed := shutdown_bearing

theorem startSession_setup : Moves (Same setup) startSession := startSession_frame startFrame_setup timingSetup_setup

/-- A start without an agreement on timing keeps the pace. -/
theorem startSession_pace {c : Client} (h : ¬ c.AgreesOnTiming) : (startSession.run c).2.pace = c.pace := by
  unfold startSession
  rw [Step.run_get_bind]
  split
  · rfl
  rw [Step.run_outcome_bind]
  have pace := bringUp_pace h
  rcases hb : bringUp.run c with ⟨r, t⟩
  rw [hb] at pace
  cases r with
  | ok u => exact pace
  | error e =>
    have closed : Moves (Same bearing) (do
        shutdown
        throw e : Step Client Unit) := .bind shutdown_bearing fun _ => .throw e
    exact (congrArg Prod.snd (closed t)).trans pace

/-! ## Runs -/

/-- The clients of all runs on a new channel: operations one after the other, between which the line does
what it wants. -/
inductive InUse : Client → Prop
  | new {channel : Channel} {dialect : Dialect} {config : Config} {clock : UInt64} {entropy : Nat → UInt32}
      {c : Client} (fresh : channel.intercharacter = 0)
      (made : ofConfig channel dialect config clock entropy = .ok c) : InUse c
  | meanwhile {c : Client} (before : InUse c) (line : Line) (watched : Bool) :
      InUse { c with channel := { c.channel with line }, watched }
  | after {c : Client} (before : InUse c) (o : Operation) : InUse (o.step.run c).2

theorem InUse.reached {c : Client} (h : InUse c) : Reached c := by
  induction h with
  | new _ made => exact .new made
  | meanwhile _ _ _ ih => exact .meanwhile ih _ _
  | after _ o ih => exact .after ih o

/-- The channel allows within a read what the link waits for, once timing was agreed on, and nothing
without an agreement. -/
structure Paced (c : Client) : Prop where
  timed : c.AgreesOnTiming → c.phase = .active → c.Matched
  plain : ¬ c.AgreesOnTiming → ∀ p, c.pace = some p → p.1 = 0

/-- A new client has its channel and no session. -/
theorem ofConfig_spec {channel : Channel} {dialect : Dialect} {config : Config} {clock : UInt64}
    {entropy : Nat → UInt32} {c : Client} (h : ofConfig channel dialect config clock entropy = .ok c) :
    c.channel = channel ∧ c.phase = .disconnected := by
  unfold ofConfig at h
  obtain ⟨_, -, h⟩ := Step.except_bind_ok.1 h
  obtain ⟨_, -, h⟩ := Step.except_bind_ok.1 h
  dsimp only at h
  split at h
  all_goals
    obtain ⟨_, -, h⟩ := Step.except_bind_ok.1 h
    obtain rfl := Except.ok.inj h
    exact ⟨rfl, rfl⟩

theorem paced_of_ofConfig {channel : Channel} {dialect : Dialect} {config : Config} {clock : UInt64}
    {entropy : Nat → UInt32} {c : Client} (fresh : channel.intercharacter = 0)
    (h : ofConfig channel dialect config clock entropy = .ok c) : c.Paced := by
  have made := ofConfig_spec h
  refine ⟨fun _ active => ?_, fun _ p hp => ?_⟩
  · rw [made.2] at active
    cases active
  · unfold pace at hp
    split at hp
    · obtain rfl := Option.some.inj hp
      rw [made.1]
      exact fresh
    · cases hp

theorem Paced.of_bearing {c c' : Client} (h : c.Paced) (same : c'.bearing = c.bearing)
    (phase : c'.phase = .active → c.phase = .active) : c'.Paced := by
  obtain ⟨setup, pace⟩ := Prod.mk.inj same
  have timed : c'.AgreesOnTiming ↔ c.AgreesOnTiming := by
    obtain ⟨dialect, config⟩ := Prod.mk.inj setup
    rw [AgreesOnTiming, AgreesOnTiming, dialect, config]
  exact ⟨fun ht active => matched_of_pace pace (h.timed (timed.1 ht) (phase active)),
    fun ht p hp => h.plain (fun t => ht (timed.2 t)) p (pace ▸ hp)⟩

theorem Paced.start {c : Client} (h : c.Paced) (steady : c.Steady) : (startSession.run c).2.Paced := by
  have setup : (startSession.run c).2.setup = c.setup := startSession_setup c
  have timed : (startSession.run c).2.AgreesOnTiming ↔ c.AgreesOnTiming := by
    obtain ⟨dialect, config⟩ := Prod.mk.inj setup
    rw [AgreesOnTiming, AgreesOnTiming, dialect, config]
  by_cases down : c.phase = .disconnected
  case neg =>
    rw [startSession_run_of_ne down]
    exact h
  refine ⟨fun ht active => ?_, fun ht p hp => ?_⟩
  · -- an active session is one whose start succeeded
    obtain ⟨-, -, ⟨ok, -⟩ | ⟨-, ended, -⟩⟩ := startSession_spec down steady.sound
    · exact bringUp_matched (timed.1 ht) (startSession_ok (Step.run_eq_of_fst ok)).2
    · rw [ended] at active
      cases active
  · have plain : ¬ c.AgreesOnTiming := fun t => ht (timed.2 t)
    exact h.plain plain p (startSession_pace plain ▸ hp)

theorem InUse.paced {c : Client} (h : InUse c) : c.Paced := by
  induction h with
  | new fresh made => exact paced_of_ofConfig fresh made
  | @meanwhile c _ line watched ih => exact ih.of_bearing rfl id
  | @after c before o ih =>
    have steady := before.reached.steady
    cases o with
    | start => exact ih.start steady
    | finish =>
      refine ih.of_bearing (endSession_frame startFrame_bearing c) fun active => ?_
      have down : (endSession.run c).2.phase = .disconnected := (endSession_spec steady.sound).1
      exact absurd (down.symm.trans active) nofun
    | transfer t timeout =>
      refine ih.of_bearing (transfer_frame operationFrame_bearing t timeout (fun _ _ _ => rfl) c) fun active => ?_
      refine steady.phase.resolve_right fun down => ?_
      have ended := ((settled_transfer t timeout).refused c down).2.1
      exact absurd (ended.symm.trans active) nofun

/-- **A packet without gaps on its way to an active session** is returned exactly if it carries data and
either timing was agreed on at the start or its header and what is left of it come within one timeout
each. -/
theorem packet_returned_iff {c : Client} (used : InUse c) (active : c.phase = .active) {s : Linked}
    (working : c.pace = some s.pace) (undisturbed : s.channel.Undisturbed) {p : Packet} {a : Transit}
    (brings : a.Brings p s) (gapless : a.Gapless s.link.parameters.intercharacter) (acceptDamaged : Bool) :
    (∃ crc s', (Linked.receivePacket acceptDamaged).run s = (.ok (p, crc), s')) ↔
      p.data ≠ [] ∧ (c.AgreesOnTiming ∨ a.Prompt s.link.parameters.intercharacter s.channel.now) := by
  obtain ⟨timed, plain⟩ := used.paced
  by_cases ht : c.AgreesOnTiming
  · have silence : s.channel.intercharacter = s.link.parameters.intercharacter := timed ht active _ working
    rw [Linked.receivePacket_iff acceptDamaged undisturbed brings (.inr silence), silence]
    exact and_congr_right fun _ => ⟨fun _ => .inl ht, fun _ => Transit.inTime_of_gapless gapless⟩
  · have silence : s.channel.intercharacter = 0 := plain ht _ working
    rw [Linked.receivePacket_iff acceptDamaged undisturbed brings (.inl silence), silence, Transit.inTime_zero]
    exact and_congr_right fun _ => (or_iff_right ht).symm

/-! ### A slow line -/

/-- The bytes of a packet. -/
def frameBytes (p : Packet) : Bytes := (p.encode.toOption).getD []

/-- A client on a direct line that neither negotiates nor sends a password. -/
def direct (channel : Channel) : Client where
  dialect := .c1218
  config := { issueNegotiate := false, issueSecurity := false, telephone := { authenticationKey := [] },
              network := { securityKey := [] } }
  channel
  wire := .packets (.ofParameters (.ofConfig {}))

theorem inUse_direct {channel : Channel} (fresh : channel.intercharacter = 0) : InUse (direct channel) := by
  have made : ofConfig channel .c1218 { issueNegotiate := false, issueSecurity := false } 0 (fun _ => 0) =
      .ok (direct channel) := rfl
  exact .new fresh made

/-- A line with a meter that answers identify and logon. -/
def answering : Line where
  answers := [
    fun _ => [(10, .arrival (.data (ackByte :: frameBytes ⟨0, ⟨0⟩, 0, [0, 0, 2, 0, 0]⟩)))],
    fun _ => [],
    fun _ => [(10, .arrival (.data (ackByte :: frameBytes ⟨0, ⟨0x20⟩, 0, [0]⟩)))],
    fun _ => []]

/-- The session that the client starts on it. -/
def directSession : Client := (Operation.start.step.run (direct (.ofLine answering))).2

/-- The answer to a request. -/
def answer : Packet := ⟨0, ⟨0⟩, 0, [0]⟩

/-- The answer on its way, with so many milliseconds before each byte. -/
def slowAnswer (gap : Nat) : List Timed :=
  (frameBytes answer).mapIdx fun i b => (Duration.ofMillis (gap * (i + 1)), b)

def slowTransit (gap : Nat) : Transit where
  garbage := []
  start := (Duration.ofMillis gap, startByte)
  header := ((slowAnswer gap).drop 1).take 5
  rest := (slowAnswer gap).drop 6
  more := []

/-- The session while the answer is on its way. -/
def slowSession (gap : Nat) : Client :=
  { directSession with
    channel := { directSession.channel with
      line := { arrivals := (slowAnswer gap).map fun x => (x.1, .data [x.2]) } } }

/-- Its link at work. -/
def slowLinked (gap : Nat) : Linked where
  channel := (slowSession gap).channel
  link := match directSession.wire with
    | .packets link => link
    | .apdus _ => .ofParameters (.ofConfig {})

theorem inUse_slowSession (gap : Nat) : InUse (slowSession gap) := by
  have onLine {c : Client} (h : InUse c) (line : Line) :
      InUse { c with channel := { c.channel with line } } := .meanwhile h line c.watched
  have started : InUse directSession := .after (inUse_direct rfl) .start
  exact onLine started _

/-- The session is active, and the answer is on its way to it without gaps. -/
structure OnItsWay (gap : Nat) : Prop where
  used : InUse (slowSession gap)
  active : (slowSession gap).phase = .active
  working : (slowSession gap).pace = some (slowLinked gap).pace
  undisturbed : (slowLinked gap).channel.Undisturbed
  brings : (slowTransit gap).Brings answer (slowLinked gap)
  gapless : (slowTransit gap).Gapless (slowLinked gap).link.parameters.intercharacter

theorem onItsWay_of_mem {gap : Nat} (h : gap ∈ [100, 150]) : OnItsWay gap := by
  have facts : ∀ gap ∈ [100, 150], (slowSession gap).phase = .active ∧
      (slowSession gap).pace = some (slowLinked gap).pace ∧
      ((slowLinked gap).channel.connected = true ∧ (slowLinked gap).channel.deadline = none) ∧
      (slowLinked gap).channel.due = (slowTransit gap).packet ∧
      answer.encode.toOption = some ((slowTransit gap).packet.map (·.2)) ∧
      (slowTransit gap).header.length = packetHeaderLength - 1 ∧
      answer.data.length ≤ (slowLinked gap).link.maxData ∧
      Duration.ofMillis gap ≤ (slowLinked gap).channel.now + (slowLinked gap).link.parameters.acknowledgement ∧
      (slowTransit gap).packet.IsChain
        fun x y => y.1 < x.1 + (slowLinked gap).link.parameters.intercharacter := by
    decide +kernel
  obtain ⟨active, working, ⟨connected, deadline⟩, due, encoded, header, fits, timely, gapless⟩ := facts gap h
  have items : ∀ a ∈ (slowLinked gap).channel.line.arrivals, a.2 ≠ .data [] := by
    intro a ha
    obtain ⟨x, -, rfl⟩ := List.mem_map.1 ha
    simp
  refine ⟨inUse_slowSession gap, active, working, ⟨⟨connected, rfl, rfl, items⟩, deadline⟩, ?_, gapless⟩
  refine ⟨?_, nofun, ?_, header, fits, ?_⟩
  · rw [due]
    exact (List.append_nil _).symm
  · cases he : answer.encode with
    | error e => rw [he] at encoded; cases encoded
    | ok bytes => rw [he] at encoded; exact congrArg Except.ok (Option.some.inj encoded)
  · intro y hy
    obtain rfl := List.mem_singleton.1 hy
    exact timely

/-- With a tenth of a second between its bytes the answer is returned. -/
theorem packet_returned_quick : OnItsWay 100 ∧
    ∃ crc s', (Linked.receivePacket false).run (slowLinked 100) = (.ok (answer, crc), s') := by
  have way : OnItsWay 100 := onItsWay_of_mem (by decide)
  obtain ⟨header, rest⟩ : (∀ x ∈ (slowTransit 100).header, x.1 ≤ (slowTransit 100).started
        (slowLinked 100).channel.now + (slowLinked 100).link.parameters.intercharacter) ∧
      (∀ x ∈ (slowTransit 100).rest, x.1 ≤ (slowTransit 100).headed
        (slowLinked 100).channel.now + (slowLinked 100).link.parameters.intercharacter) := by
    decide +kernel
  exact ⟨way, (packet_returned_iff way.used way.active way.working way.undisturbed way.brings way.gapless false).2
    ⟨nofun, .inr ⟨header, rest⟩⟩⟩

/-- With a little more it is not, though each byte follows the one before well within the timeout: the
header does not come within one timeout of the start byte. -/
theorem packet_late_gapless : OnItsWay 150 ∧ (slowLinked 150).link.parameters.intercharacter = Duration.ofMillis 500 ∧
    ((Linked.receivePacket false).run (slowLinked 150)).1 = .error (.readTimeout 3) := by
  refine ⟨onItsWay_of_mem (by decide), ?_⟩
  decide +kernel

end Metering.Client
