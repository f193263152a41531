import Metering.Proofs.Calls

set_option autoImplicit false

/-! # The order of services

The dialect and the configuration say which services a start hands over and in which order (`Client.opening`), and
how leave is taken (`Client.closing`); tables and waits stand between the two. A start over a direct line may be
tried once more from identify on (`Client.Restarts`). Every session keeps to that order, whatever operations
are run in it and whatever the line does (`Client.session_inOrder`). -/

namespace Metering.Client

open Step (Moves Same Establishes)

variable {α β : Type} {dialect : Dialect} {config : Config} {c d c' : Client}

/-! ## The services of a session -/

/-- A step that a configuration switches on or off. -/
def optional (on : Bool) (step : List Service) : List (List Service) := if on then [step] else []

/-- What comes before logon. -/
def introduction : Dialect → Config → List (List Service)
  | .c1218, c => [.identify] :: optional c.issueNegotiate [.negotiate, .negotiateWithBaud]
  | .c1221, c => [.identify] :: (optional c.telephone.issueTimingSetup [.timingSetup] ++
      optional c.issueNegotiate [.negotiate, .negotiateWithBaud])
  | .c1222, _ => []

/-- What comes after logon: a password or a proof of the key. -/
def authorization : Dialect → Config → List (List Service)
  | .c1221, c => if c.telephone.enableAuthentication then [[.authenticate]] else optional c.issueSecurity [.security]
  | _, c => optional c.issueSecurity [.security]

/-- There is no session to start or to end: every request stands alone. -/
def standsAlone : Dialect → Config → Bool
  | .c1222, c => c.network.sessionless
  | _, _ => false

/-- The services of a start. -/
def opening (dialect : Dialect) (c : Config) : List (List Service) :=
  if standsAlone dialect c then [] else introduction dialect c ++ [.logon] :: authorization dialect c

/-- The services of an active session. -/
def transfers : List Service := [.readFull, .readPartial, .writeFull, .writePartial, .wait]

/-- The services of taking leave. -/
def closing : Dialect → Config → List (List Service)
  | .c1222, c =>
    if c.network.sessionless then []
    else if c.network.issueTerminate then [[.terminate]]
    else optional c.issueLogoff [.logoff]
  | _, c => optional c.issueLogoff [.logoff] ++ [[.terminate]]

/-- The first attempt of a start on a direct line was given up: the meter told who it is, and then negotiation or
logon failed with a fault that is none of a refusal, a disconnect or a cancellation. -/
structure GivenUp (config : Config) (first : List (List Transaction)) : Prop where
  follows : Follows (introduction .c1218 config ++ [[.logon]]) first
  speed : config.issueNegotiate = true ∧ config.sessionBaud ≠ 0
  failed : ∃ known rest before after e, first = known :: rest ∧ Offers [.identify] known ∧ Passes known ∧
    negotiateAndLogon.run before = (.error e, after) ∧ after.exchanges = rest.flatten.reverse ++ before.exchanges ∧
    allowsFallback e = true
  unrefused : ∀ call, first.getLast? = some call → ¬ Declines call

/-- The calls of a start, which on a direct line may be made once more after a first attempt. -/
inductive Restarts (dialect : Dialect) (config : Config) (P : List (List Transaction) → Prop) :
    List (List Transaction) → Prop
  | once {calls : List (List Transaction)} (h : P calls) : Restarts dialect config P calls
  | again {first second : List (List Transaction)} (direct : dialect = .c1218) (left : GivenUp config first)
      (h : P second) : Restarts dialect config P (first ++ second)

/-- What a start hands over: as far as it came the services of its dialect, and all of them if it succeeded. -/
structure Started (dialect : Dialect) (config : Config) (r : Except Fault α) (calls : List (List Transaction)) : Prop where
  follows : Restarts dialect config (Follows (opening dialect config)) calls
  completes : ∀ a, r = .ok a → Restarts dialect config (Completes (opening dialect config)) calls

theorem opening_eq (session : standsAlone dialect config = false) :
    opening dialect config = introduction dialect config ++ [[.logon]] ++ authorization dialect config := by
  simp [opening, session]

theorem Performed.started {shows : Fault → Bool} {r : Except Fault α} {calls : List (List Transaction)}
    (h : Performed (opening dialect config) shows r calls) : Started dialect config r calls :=
  ⟨.once h.follows, fun a ok => .once (h.completes a ok)⟩

theorem Performed.startedAgain {shows : Fault → Bool} {r : Except Fault α} {first calls : List (List Transaction)}
    (left : GivenUp config first) (h : Performed (opening .c1218 config) shows r calls) :
    Started .c1218 config r (first ++ calls) :=
  ⟨.again rfl left h.follows, fun a ok => .again rfl left (h.completes a ok)⟩

/-! ## Services of the start -/

theorem Performs.optional {on : Bool} {step : List Service} {w : List (List Service)} {shows : Fault → Bool}
    {x : Step Client β} {rest : Step Client α} (hx : Performs dialect config [step] shows x)
    (hr : Performs dialect config w shows rest) :
    Performs dialect config (optional on step ++ w) shows (if on = true then x >>= fun _ => rest else rest) := by
  cases on with
  | true => exact hx.bind fun _ => hr
  | false => exact hr

theorem negotiate_performs (withBaud : Bool) :
    Performs dialect config [[.negotiate, .negotiateWithBaud]] isNok (negotiate withBaud) := by
  have index : Moves (Quiet dialect config) (baudIndex withBaud) :=
    .bind .get fun _ => .ite (.bind (.ofExcept _) fun _ => .pure _) (.pure _)
  have among (size : UInt16) (packets : UInt8) (i : Option UInt8) :
      (Request.negotiate size packets i).service ∈ [Service.negotiate, Service.negotiateWithBaud] := by
    cases i <;> simp [Request.negotiate]
  have kept (n : Negotiated) : Moves (Quiet dialect config) (modify ({ · with negotiated := some n })) :=
    .modify fun c => ⟨frame_continues.noted c { c.notes with negotiated := some n }, rfl⟩
  refine .before (moveTo_quiet _) fun _ => .before index fun i => .get_bind fun c _ => ?_
  refine .after (transact_performs (among _ _ _)) fun results => ?_
  refine .bind (.ofExcept _) fun agreed => .bind (onLink_quiet _) fun sizes => ?_
  cases agreed.baud with
  | none => exact kept _
  | some baud => exact .bind (onChannel_quiet _) fun _ => kept _

theorem logon_performs : Performs dialect config [[.logon]] isNok logon :=
  .get_bind fun _ _ => .after (transact_performs (List.mem_singleton.2 rfl)) fun _ => .pure _

theorem security_performs : Performs dialect config [[.security]] (fun _ => true) security := by
  refine .get_bind fun c _ => ?_
  have sent {f : Except Fault Bytes → Step Client Unit} (hok : ∀ results, f (.ok results) = pure ())
      (herror : ∀ e, f (.error e) = throw (refusedPassword e)) :
      Performs dialect config [[.security]] (fun _ => true)
        ((transact (.security c.config.paddedPassword)).outcome >>= f) := by
    refine .rescue (transact_performs (List.mem_singleton.2 rfl)) (fun r => ?_) fun e => ?_
    · cases r with
      | ok results => exact hok results ▸ .pure _
      | error e => exact herror e ▸ .throw _
    · exact herror e ▸ .throw _
  exact .ite (.before (moveTo_quiet _) fun _ => sent (fun _ => rfl) fun _ => rfl) (sent (fun _ => rfl) fun _ => rfl)

theorem authenticate_performs : Performs dialect config [[.authenticate]] (fun _ => true) authenticate := by
  refine .get_bind fun c _ => .before (.ofExcept _) fun ticket => .before (.ofExcept _) fun key => ?_
  refine .before (.ofExcept _) fun cipher => ?_
  dsimp only
  split
  · exact .throw_bind _ _
  · refine .before (.ofExcept _) fun encrypted => ?_
    refine .rescue (transact_performs (List.mem_singleton.2 rfl)) (fun r => ?_) fun e => ?_
    · cases r with
      | ok results => exact .bind (.ofExcept _) fun _ => .ofExcept _
      | error e => exact .ite (.bind (changeLink_quiet _) fun _ => .throw _) (.throw _)
    · exact .ite (.bind (Q := fun _ => True) (fun _ _ _ _ _ => trivial) fun _ => .throw _) (.throw _)

theorem timingSetup_performs : Performs dialect config [[.timingSetup]] (fun _ => true) timingSetup := by
  have takenOn (d : Duration) :
      Moves (Quiet dialect config) (modify fun c => { c with channel.intercharacter := d }) :=
    .modify fun _ => ⟨.of_wire id, rfl⟩
  refine .before (onLink_quiet _) fun p => ?_
  refine .rescue (transact_performs (List.mem_singleton.2 rfl)) (fun r => ?_) fun e => ?_
  · cases r with
    | ok results => exact .bind (.ofExcept _) fun _ => .bind (changeLink_quiet _) fun _ => takenOn _
    | error e => exact .bind (changeLink_quiet _) fun _ => .throw _
  · exact .bind (Q := fun _ => True) (fun _ _ _ _ _ => trivial) fun _ => .throw _

theorem logonWithIdle_performs : Performs dialect config [[.logon]] isNok logonWithIdle := by
  refine .get_bind fun c _ => ?_
  exact .after (transact_performs (List.mem_singleton.2 rfl)) fun _ => .bind (.ofExcept _) fun _ => .pure _

theorem negotiateAndLogon_performs : Performs .c1218 config
    (optional config.issueNegotiate [.negotiate, .negotiateWithBaud] ++ [[.logon]]) isNok negotiateAndLogon := by
  refine .get_bind fun c goes => ?_
  rw [goes.configured]
  exact .optional (negotiate_performs true) logon_performs

/-! ## Starts -/

theorem secureAndActivate_performs (issueSecurity : Bool) :
    Performs dialect config (optional issueSecurity [.security]) (fun _ => true) (do
      if issueSecurity then security
      moveTo .active) := by
  simpa using Performs.optional security_performs (.silent (moveTo_quiet .active))

theorem restartAt_performs (baud : Nat) : Performs .c1218 config (introduction .c1218 config ++ [[.logon]])
    (fun _ => true) (restartAt baud) := by
  have back : Moves (Quiet .c1218 config) (modify ({ · with negotiated := none, phase := .identifying })) :=
    .modify fun c => ⟨trans_of _ (frame_continues.noted c { c.notes with negotiated := none })
      (startFrame_continues.moved _ .identifying c.refusals), rfl⟩
  refine .before (onChannel_quiet _) fun _ => .before (onChannel_quiet _) fun _ => .before back fun _ => ?_
  exact (identify_performs false).bind fun _ => negotiateAndLogon_performs.mono fun _ _ => rfl

theorem fallbackBaud_some {initial : Option Nat} {e : Fault} {baud : Nat} (h : fallbackBaud config initial e = some baud) :
    (config.issueNegotiate = true ∧ config.sessionBaud ≠ 0) ∧ allowsFallback e = true := by
  unfold fallbackBaud at h
  cases initial with
  | none => cases h
  | some initial =>
    simp only [Option.bind_eq_bind, Option.bind_some] at h
    split at h
    next asked =>
      simp only [Bool.and_eq_true, decide_eq_true_eq] at asked
      exact ⟨asked.1.1, asked.2⟩
    · cases h

/-- A first attempt that identified the meter and then failed with a fault that allows a second one was given up. -/
theorem givenUp_of_fallbackBaud {shows : Fault → Bool} {xs ys : List (List Transaction)} {initial : Option Nat} {e : Fault}
    {baud : Nat} {u : Unit} (identified : Performed [[.identify]] shows (.ok u) xs)
    (loggedOn : Performed (optional config.issueNegotiate [.negotiate, .negotiateWithBaud] ++ [[.logon]]) isNok
      (.error e : Except Fault Unit) ys)
    (run : negotiateAndLogon.run c = (.error e, c')) (made : c'.exchanges = ys.flatten.reverse ++ c.exchanges)
    (chosen : fallbackBaud config initial e = some baud) : GivenUp config (xs ++ ys) := by
  obtain ⟨speed, allowed⟩ := fallbackBaud_some chosen
  have entered : Performed (introduction .c1218 config ++ [[.logon]]) isNok (.error e : Except Fault Unit) (xs ++ ys) :=
    identified.of_ok.andThen loggedOn
  refine ⟨entered.follows, speed, ?_, ?_⟩
  · cases identified.completes u rfl with
    | cons known none =>
      cases none
      exact ⟨_, ys, c, c', e, rfl, known.1, known.2, run, made, allowed⟩
  · intro call last declines
    -- a refusal would be the fault
    have refused : isNok e = true := entered.declined e call rfl last declines
    cases e with
    | nok code extra => cases allowed
    | _ => cases refused

theorem startDirect_started : Sends .c1218 config startDirect (Started .c1218 config) := by
  have rest : Performs .c1218 config (authorization .c1218 config) (fun _ => true) (do
      if (← get).config.issueSecurity then security
      moveTo .active) := by
    refine .get_bind fun c goes => ?_
    rw [goes.configured]
    exact secureAndActivate_performs _
  intro c goes
  unfold startDirect
  rw [Step.run_get_bind, Step.run_bind]
  obtain ⟨xs, handed, identified⟩ := identify_performs false c goes
  rcases hi : (identify false).run c with ⟨r, d⟩
  rw [hi] at handed identified
  cases r with
  | error e =>
    have stopped : Performed (opening .c1218 config) (fun _ => true) (.error e : Except Fault Unit) xs :=
      identified.stop _
    exact ⟨xs, handed, stopped.started⟩
  | ok u =>
    dsimp only
    rw [Step.run_outcome_bind]
    have goes' : d.GoesBy .c1218 config := handed.continues.goesBy goes
    obtain ⟨ys, handed', loggedOn⟩ := negotiateAndLogon_performs d goes'
    rcases hl : negotiateAndLogon.run d with ⟨r, e⟩
    rw [hl] at handed' loggedOn
    have goes'' : e.GoesBy .c1218 config := handed'.continues.goesBy goes'
    have entered : Performed (introduction .c1218 config ++ [[.logon]]) isNok r (xs ++ ys) :=
      identified.of_ok.andThen loggedOn
    cases r with
    | ok u =>
      obtain ⟨zs, handed'', secured⟩ := rest e goes''
      have all := entered.of_ok.andThen secured
      rw [← opening_eq rfl] at all
      exact ⟨xs ++ ys ++ zs, (handed.trans handed').trans handed'', all.started⟩
    | error f =>
      dsimp only
      rw [Step.run_get_bind]
      cases hf : fallbackBaud e.config c.channel.line.baud f with
      | none =>
        have stopped : Performed (opening .c1218 config) isNok (.error f : Except Fault Unit) (xs ++ ys) := by
          rw [opening_eq rfl]
          exact entered.stop _
        exact ⟨xs ++ ys, handed.trans handed', stopped.started⟩
      | some baud =>
        rw [goes''.configured] at hf
        have left : GivenUp config (xs ++ ys) := givenUp_of_fallbackBaud identified loggedOn hl handed'.exchanges hf
        have again := (restartAt_performs baud).bind fun _ => rest
        rw [← opening_eq rfl] at again
        obtain ⟨zs, handed'', performed⟩ := again e goes''
        exact ⟨xs ++ ys ++ zs, (handed.trans handed').trans handed'', performed.startedAgain left⟩

theorem showKey_performs : Performs .c1221 config (authorization .c1221 config) (fun _ => true) (showKey config) := by
  unfold showKey authorization
  dsimp only
  split
  · exact .after authenticate_performs fun _ => moveTo_quiet _
  · exact secureAndActivate_performs _

theorem startTelephone_performs :
    Performs .c1221 config (opening .c1221 config) (fun _ => true) startTelephone := by
  have loggedOn : Performs .c1221 config ([.logon] :: authorization .c1221 config) (fun _ => true)
      (logon >>= fun _ => showKey config) :=
    (logon_performs.mono fun _ _ => rfl).bind fun _ => showKey_performs
  have all : opening .c1221 config = [.identify] :: (optional config.telephone.issueTimingSetup [.timingSetup] ++
      (optional config.issueNegotiate [.negotiate, .negotiateWithBaud] ++ [.logon] :: authorization .c1221 config)) := by
    simp [opening, standsAlone, introduction]
  refine .get_bind fun c goes => ?_
  rw [goes.configured, all]
  refine (identify_performs true).bind fun _ => .optional timingSetup_performs (.optional ?_ loggedOn)
  exact (negotiate_performs false).mono fun _ _ => rfl

theorem startNetwork_performs :
    Performs .c1222 config (opening .c1222 config) (fun _ => true) startNetwork := by
  have started : Moves (Quiet .c1222 config) (onAssociated (Associated.change Association.afterLogon)) :=
    change_quiet fun _ serves => serves.afterLogon
  have active : Moves (Quiet .c1222 config) (do
      moveTo .securityHandshake
      moveTo .active) := .bind (moveTo_quiet _) fun _ => moveTo_quiet _
  refine .get_bind fun c goes => .before (change_quiet fun _ serves => serves.beginSession) fun _ => ?_
  have session : c.config.network.sessionless = config.network.sessionless := by rw [goes.configured]
  have security : c.config.issueSecurity = config.issueSecurity := by rw [goes.configured]
  dsimp only
  rw [session, security]
  cases hs : config.network.sessionless with
  | true =>
    have none : opening .c1222 config = [] := by simp [opening, standsAlone, hs]
    rw [none, Bool.not_true, Bool.and_false]
    exact .silent (.bind started fun _ => active)
  | false =>
    have all : opening .c1222 config = [.logon] :: optional config.issueSecurity [.security] := by
      simp [opening, standsAlone, hs, introduction, authorization]
    rw [all, Bool.not_false, Bool.and_true]
    refine (logonWithIdle_performs.mono fun _ _ => rfl).bind fun _ => .before started fun _ => ?_
    cases config.issueSecurity with
    | true => exact .after security_performs fun _ => moveTo_quiet _
    | false => exact .silent active

/-- What comes before the services of a start hands nothing over. -/
theorem Started.before {x : Step Client α} {f : α → Step Client β} (hx : Moves (Quiet dialect config) x)
    (hf : ∀ a, Sends dialect config (f a) (Started dialect config)) :
    Sends dialect config (x >>= f) (Started dialect config) := by
  intro c goes
  have quiet := hx c
  rw [Step.run_bind]
  rcases hr : x.run c with ⟨r, d⟩
  rw [hr] at quiet
  cases r with
  | error e => exact ⟨[], quiet.handsOver, .once (.nil _), fun _ => nofun⟩
  | ok a =>
    obtain ⟨calls, handed, started⟩ := hf a d (quiet.continues.goesBy goes)
    exact ⟨calls, quiet.handsOver.trans handed, started⟩

theorem bringUp_started : Sends dialect config bringUp (Started dialect config) := by
  have onward {x : Step Client Unit} (h : Sends dialect config x (Started dialect config)) (closed : Bool) :
      Sends dialect config (do
        if closed then onChannel Channel.openUp
        moveTo .identifying
        x) (Started dialect config) := by
    have rest := Started.before (moveTo_quiet .identifying) fun _ => h
    cases closed with
    | true => exact Started.before (onChannel_quiet _) fun _ => rest
    | false => exact rest
  intro c goes
  unfold bringUp
  rw [Step.run_get_bind, goes.speaks]
  cases dialect with
  | c1218 => exact onward startDirect_started _ c goes
  | c1221 =>
    refine onward (fun d goes => ?_) _ c goes
    obtain ⟨calls, handed, performed⟩ := startTelephone_performs d goes
    exact ⟨calls, handed, performed.started⟩
  | c1222 =>
    refine onward (fun d goes => ?_) _ c goes
    obtain ⟨calls, handed, performed⟩ := startNetwork_performs d goes
    exact ⟨calls, handed, performed.started⟩

/-- **A start** hands over the services of its dialect. -/
theorem startSession_started : Sends dialect config startSession (Started dialect config) := by
  intro c goes
  unfold startSession
  rw [Step.run_get_bind]
  split
  · exact ⟨[], (refl_of (Quiet dialect config) c).handsOver, .once (.nil _), fun _ => nofun⟩
  · obtain ⟨calls, handed, started⟩ := bringUp_started c goes
    rw [Step.run_outcome_bind]
    rcases hb : bringUp.run c with ⟨r, t⟩
    rw [hb] at handed started
    cases r with
    | ok u => exact ⟨calls, handed, started⟩
    | error e =>
      have closed : Quiet dialect config t ((shutdown >>= fun _ => throw e : Step Client Unit).run t).2 :=
        Moves.bind shutdown_quiet (fun _ => .throw e) t
      refine ⟨calls, handed.quiet closed, started.follows, fun a ok => ?_⟩
      exact absurd ok (by simp [Step.run_bind, shutdown_run])

/-! ## Leave and transfers -/

theorem takeLeave_performs : Performs dialect config (closing dialect config) (fun _ => true) takeLeave := by
  have left {request : Request} {service : Service} (same : request.service = service) :
      Performs dialect config [[service]] (fun _ => true) (do let _ ← transact request : Step Client Unit) := by
    refine .after ((transact_performs ?_).mono fun _ _ => rfl) fun _ => .pure _
    exact List.mem_singleton.2 same
  have packets : Performs dialect config (optional config.issueLogoff [.logoff] ++ [[.terminate]]) (fun _ => true) (do
      if config.issueLogoff then let _ ← transact .logoff
      let _ ← transact .terminate) :=
    .optional ((transact_performs (List.mem_singleton.2 rfl)).mono fun _ _ => rfl) (left rfl)
  refine .get_bind fun c goes => ?_
  rw [goes.speaks, goes.configured]
  cases dialect with
  | c1218 => exact packets
  | c1221 => exact packets
  | c1222 =>
    unfold closing
    dsimp only
    cases config.network.sessionless with
    | true => exact .silent (.pure _)
    | false =>
      cases config.network.issueTerminate with
      | true => exact left rfl
      | false =>
        cases config.issueLogoff with
        | true => exact left rfl
        | false => exact .silent (.pure _)

/-- Taking leave hands over its services, and only from an active session. -/
theorem endSession_leaves (goes : c.GoesBy dialect config) :
    ∃ leave, HandsOver dialect config c (endSession.run c).2 leave ∧ Follows (closing dialect config) leave ∧
      (c.phase.isActive = false → leave = []) := by
  unfold endSession
  rw [Step.run_get_bind]
  cases c.phase.isActive with
  | false => exact ⟨[], (shutdown_quiet c).handsOver, .nil _, fun _ => rfl⟩
  | true =>
    have ending : Quiet dialect config c { c with phase := .terminating } :=
      ⟨startFrame_continues.moved c .terminating c.refusals, rfl⟩
    obtain ⟨leave, handed, performed⟩ := takeLeave_performs _ (ending.continues.goesBy goes)
    exact ⟨leave, (ending.handsOver.trans handed).quiet (shutdown_quiet _), performed.follows, nofun⟩

/-- Between the two states only services of an active session were handed to the wire. -/
def Works (dialect : Dialect) (config : Config) (c c' : Client) : Prop :=
  c.GoesBy dialect config → ∃ work, HandsOver dialect config c c' work ∧ ∀ call ∈ work, Offers transfers call

theorem Quiet.works (h : Quiet dialect config c c') : Works dialect config c c' :=
  fun _ => ⟨[], h.handsOver, nofun⟩

instance : IsPreorder Client (Works dialect config) where
  refl c := (refl_of (Quiet dialect config) c).works
  trans _ _ _ h h' goes := by
    obtain ⟨xs, handed, offers⟩ := h goes
    obtain ⟨ys, handed', offers'⟩ := h' (handed.continues.goesBy goes)
    exact ⟨xs ++ ys, handed.trans handed', List.forall_mem_append.2 ⟨offers, offers'⟩⟩

theorem quiet_works {x : Step Client α} (h : Moves (Quiet dialect config) x) : Moves (Works dialect config) x :=
  fun c => (h c).works

theorem service_of_keeps {limits : LinkLimits} {r : Request} (h : r.Keeps limits) : r.service ∈ transfers := by
  cases h with
  | readFull table => simp [transfers, Request.readFull]
  | readPartial made short =>
    obtain ⟨place, -, made⟩ := Step.except_bind_ok.1 made
    obtain rfl := Except.ok.inj made
    simp [transfers]
  | writeFull made short =>
    obtain ⟨contents, -, made⟩ := Step.except_bind_ok.1 made
    obtain rfl := Except.ok.inj made
    simp [transfers]
  | writePartial made short =>
    obtain ⟨place, -, made⟩ := Step.except_bind_ok.1 made
    obtain ⟨contents, -, made⟩ := Step.except_bind_ok.1 made
    obtain rfl := Except.ok.inj made
    simp [transfers]

theorem service_of_wait {seconds : Nat} {r : Request} (h : Request.wait seconds = .ok r) : r.service ∈ transfers := by
  unfold Request.wait at h
  split at h
  · cases h
  · obtain rfl := Except.ok.inj h
    simp [transfers]

theorem operationFrame_works : OperationFrame (fun r => r.service ∈ transfers) (Works dialect config) where
  called among reporting c goes := by
    obtain ⟨call, handed, concluded⟩ := called_concludes goes reporting _
    exact ⟨[call], handed, List.forall_mem_singleton.2 (concluded.offers among)⟩
  slept _ := quiet_works (onChannel_quiet _)
  noted c n := Quiet.works ⟨frame_continues.noted c n, rfl⟩
  limited h := h fun r keeps => service_of_keeps keeps
  waits := service_of_wait
  forgot := quiet_works (changeLink_quiet _)
  bounded _ := quiet_works (.modify fun _ => ⟨.of_wire id, rfl⟩)
  closed := quiet_works shutdown_quiet

/-- What fails at once is settled at once. -/
theorem settle_congr {x y : Step Client α} (h : x.run c = y.run c) : (settle x).run c = (settle y).run c := by
  unfold settle
  rw [Step.run_outcome_bind, Step.run_outcome_bind, h]

/-- Without a session nothing is handed over. -/
theorem transfer_idle (down : c.phase = .disconnected) (t : Transfer) (timeout : Option Duration) :
    ((Operation.transfer t timeout).step.run c).2.exchanges = c.exchanges := by
  have settled {β : Type} {x : Step Client β} (needs : NeedsActive x) {d : Client} (inactive : d.phase.isActive = false) :
      ((do let _ ← settle x : Step Client Unit).run d).2.exchanges = d.exchanges := by
    obtain ⟨e, failed⟩ := needs d inactive
    have kept : Moves (Same exchanges) (settle (throw e : Step Client β)) :=
      settle_frame (changeLink_exchanges _) shutdown_exchanges (.throw e)
    rw [ignored_run, settle_congr (failed.trans rfl : x.run d = (throw e : Step Client β).run d)]
    exact kept d
  have plain {d : Client} (inactive : d.phase.isActive = false) : (t.step.run d).2.exchanges = d.exchanges := by
    cases t with
    | read descriptor => exact settled (needsActive_of_check _ _) inactive
    | write descriptor data => exact settled (needsActive_of_check _ _) inactive
    | procedure number parameters =>
      exact settled (fun _ down => ⟨_, Step.run_bind_of_error (ensureActive_run down)⟩) inactive
    | wait seconds => exact settled (needsActive_of_check _ _) inactive
  have inactive : c.phase.isActive = false := by rw [down]; rfl
  cases timeout with
  | none => exact plain inactive
  | some timeout =>
    obtain ⟨limited, -, run⟩ := within_run timeout t.step c
    rw [Operation.step, run]
    exact plain (d := { c with channel := limited }) inactive

/-! ## Who may be let in -/

/-- Services that need a user who is logged on: passwords, proofs of a key and all that is done in a session. -/
def guarded : List Service := .security :: .authenticate :: transfers

/-- Every call of a guarded service comes behind a logon that passed. -/
def Admitted (calls : List (List Transaction)) : Prop :=
  ∀ before call after, calls = before ++ call :: after → (∃ t ∈ call, t.request.service ∈ guarded) →
    ∃ logon ∈ before, Offers [.logon] logon ∧ Passes logon

section Guards

variable {front back steps : List (List Service)} {calls xs ys : List (List Transaction)} {call : List Transaction}
  {step : List Service}

theorem admitted_nil : Admitted [] := by
  intro before call after split
  simp at split

theorem not_guarded (offers : Offers step call) (free : ∀ s ∈ step, s ∉ guarded) :
    ¬ ∃ t ∈ call, t.request.service ∈ guarded := by
  rintro ⟨t, mem, needs⟩
  exact free _ (offers t mem) needs

theorem Admitted.cons (free : ¬ ∃ t ∈ call, t.request.service ∈ guarded)
    (h : Admitted calls ∨ Offers [.logon] call ∧ Passes call) : Admitted (call :: calls) := by
  intro before needing after split needs
  cases before with
  | nil =>
    obtain ⟨rfl, -⟩ := List.cons.inj split
    exact absurd needs free
  | cons first before =>
    obtain ⟨rfl, rest⟩ := List.cons.inj split
    rcases h with admitted | logon
    · obtain ⟨logon, mem, passed⟩ := admitted before needing after rest needs
      exact ⟨logon, List.mem_cons_of_mem _ mem, passed⟩
    · exact ⟨call, List.mem_cons_self, logon⟩

theorem Admitted.append (hx : Admitted xs) (hy : Admitted ys ∨ ∃ logon ∈ xs, Offers [.logon] logon ∧ Passes logon) :
    Admitted (xs ++ ys) := by
  intro before call after split needs
  rcases List.append_eq_append_iff.1 split with ⟨more, rfl, rest⟩ | ⟨more, rfl, rest⟩
  · rcases hy with admitted | ⟨logon, mem, passed⟩
    · obtain ⟨logon, mem, passed⟩ := admitted more call after rest needs
      exact ⟨logon, List.mem_append_right xs mem, passed⟩
    · exact ⟨logon, List.mem_append_left more mem, passed⟩
  · cases more with
    | nil =>
      rcases hy with admitted | ⟨logon, mem, passed⟩
      · obtain ⟨logon, none, -⟩ := admitted [] call after rest.symm needs
        cases none
      · exact ⟨logon, by simpa using mem, passed⟩
    | cons first more =>
      obtain ⟨rfl, -⟩ := List.cons.inj rest
      exact hx before call more rfl needs

/-- Calls that follow a list with a logon are admitted. -/
theorem Follows.admitted (h : Follows (front ++ [.logon] :: back) calls)
    (free : ∀ step ∈ front, ∀ s ∈ step, s ∉ guarded) : Admitted calls := by
  have logon : ∀ s ∈ [Service.logon], s ∉ guarded := by decide
  induction front generalizing calls with
  | nil =>
    cases h with
    | nil => exact admitted_nil
    | last offers => exact .cons (not_guarded offers logon) (.inl admitted_nil)
    | next offers passed rest => exact .cons (not_guarded offers logon) (.inr ⟨offers, passed⟩)
  | cons step front ih =>
    obtain ⟨first, free⟩ := List.forall_mem_cons.1 free
    cases h with
    | nil => exact admitted_nil
    | last offers => exact .cons (not_guarded offers first) (.inl admitted_nil)
    | next offers passed rest => exact .cons (not_guarded offers first) (.inl (ih rest free))

theorem Completes.loggedOn (h : Completes (front ++ [.logon] :: back) calls) :
    ∃ logon ∈ calls, Offers [.logon] logon ∧ Passes logon := by
  induction front generalizing calls with
  | nil =>
    cases h with
    | cons first rest => exact ⟨_, List.mem_cons_self, first⟩
  | cons step front ih =>
    cases h with
    | cons first rest =>
      obtain ⟨logon, mem, passed⟩ := ih rest
      exact ⟨logon, List.mem_cons_of_mem _ mem, passed⟩

theorem introduction_free (dialect : Dialect) (config : Config) :
    ∀ step ∈ introduction dialect config, ∀ s ∈ step, s ∉ guarded := by
  have identified : ∀ s ∈ [Service.identify], s ∉ guarded := by decide
  have negotiated (on : Bool) :
      ∀ step ∈ optional on [.negotiate, .negotiateWithBaud], ∀ s ∈ step, s ∉ guarded := by
    cases on <;> decide
  have timed (on : Bool) : ∀ step ∈ optional on [.timingSetup], ∀ s ∈ step, s ∉ guarded := by
    cases on <;> decide
  cases dialect with
  | c1218 => exact List.forall_mem_cons.2 ⟨identified, negotiated _⟩
  | c1221 => exact List.forall_mem_cons.2 ⟨identified, List.forall_mem_append.2 ⟨timed _, negotiated _⟩⟩
  | c1222 => exact nofun

theorem Restarts.admitted {P : List (List Transaction) → Prop} (h : Restarts dialect config P calls)
    (admits : ∀ calls, P calls → Admitted calls) : Admitted calls := by
  cases h with
  | once h => exact admits _ h
  | again direct left h =>
    subst direct
    exact (left.follows.admitted (introduction_free _ _)).append (.inl (admits _ h))

theorem Restarts.loggedOn (h : Restarts dialect config (Completes (opening dialect config)) calls)
    (session : standsAlone dialect config = false) : ∃ logon ∈ calls, Offers [.logon] logon ∧ Passes logon := by
  have found {calls : List (List Transaction)} (h : Completes (opening dialect config) calls) :
      ∃ logon ∈ calls, Offers [.logon] logon ∧ Passes logon := by
    rw [opening, session] at h
    exact h.loggedOn
  cases h with
  | once h => exact found h
  | again direct left h =>
    obtain ⟨logon, mem, passed⟩ := found h
    exact ⟨logon, List.mem_append_right _ mem, passed⟩

end Guards

/-! ## Sessions -/

/-- The clients of one session: one without a session is started, and then operations are run one after the
other, but for a start where the session is over. Between them the line does what it wants, and the caller may
reset the channel or ask for progress. What was handed over before the session is `base`. -/
inductive InSession (dialect : Dialect) (config : Config) (base : List Transaction) : Client → Prop
  | started {c : Client} (reached : ReachedBy dialect config c) (down : c.phase = .disconnected)
      (before : c.exchanges = base) : InSession dialect config base (Operation.start.step.run c).2
  | meanwhile {c : Client} (before : InSession dialect config base c) (channel : Channel) (watched : Bool) :
      InSession dialect config base { c with channel, watched }
  | after {c : Client} (before : InSession dialect config base c) (o : Operation)
      (same : o = .start → c.phase ≠ .disconnected) : InSession dialect config base (o.step.run c).2

/-- The calls are those of a session, as far as it came: of a start that did not come to its end, or of a whole
start, of any number of transfers, and of taking leave. -/
inductive InOrder (dialect : Dialect) (config : Config) : List (List Transaction) → Prop
  | starting {calls : List (List Transaction)} (h : Restarts dialect config (Follows (opening dialect config)) calls) :
      InOrder dialect config calls
  | working {start work leave : List (List Transaction)}
      (started : Restarts dialect config (Completes (opening dialect config)) start)
      (works : ∀ call ∈ work, Offers transfers call) (leaves : Follows (closing dialect config) leave) :
      InOrder dialect config (start ++ work ++ leave)

theorem InOrder.admitted {calls : List (List Transaction)} (h : InOrder dialect config calls)
    (session : standsAlone dialect config = false) : Admitted calls := by
  have admits {calls : List (List Transaction)} (h : Follows (opening dialect config) calls) : Admitted calls := by
    rw [opening, session] at h
    exact h.admitted (introduction_free dialect config)
  cases h with
  | starting h => exact h.admitted fun _ => admits
  | working started works leaves =>
    obtain ⟨logon, mem, passed⟩ := started.loggedOn session
    have start := started.admitted fun _ completed => admits completed.follows
    rw [List.append_assoc]
    exact start.append (.inr ⟨logon, mem, passed⟩)

/-- What was handed over in a session up to a client of it. -/
structure Kept (dialect : Dialect) (config : Config) (base : List Transaction) (c : Client)
    (calls : List (List Transaction)) : Prop where
  reached : ReachedBy dialect config c
  exchanges : c.exchanges = calls.flatten.reverse ++ base
  whole : ∀ call ∈ calls, IsCall config.applicationRetries.toNat call
  served : ∀ call ∈ calls, ∀ t ∈ call, t.before.2.Serves dialect config
  inOrder : InOrder dialect config calls
  active : c.phase = .active → ∃ start work, calls = start ++ work ∧
    Restarts dialect config (Completes (opening dialect config)) start ∧ ∀ call ∈ work, Offers transfers call

section Sessions

variable {base : List Transaction} {calls : List (List Transaction)}

theorem kept_start (reached : ReachedBy dialect config c) (down : c.phase = .disconnected)
    (before : c.exchanges = base) : ∃ calls, Kept dialect config base (Operation.start.step.run c).2 calls := by
  obtain ⟨calls, handed, started⟩ := startSession_started c reached.goesBy
  refine ⟨calls, .after reached .start, before ▸ handed.exchanges, handed.whole, handed.served, .starting started.follows,
    fun active => ?_⟩
  have ok : (startSession.run c).1 = .ok () :=
    ((conforms_start reached.reached.steady).started rfl down).1 active
  exact ⟨calls, [], (List.append_nil calls).symm, started.completes () ok, nofun⟩

/-- A transfer adds its services to those of an active session, and does nothing without one. -/
theorem Kept.transfer (h : Kept dialect config base c calls) (t : Transfer) (timeout : Option Duration) :
    ∃ calls', Kept dialect config base ((Operation.transfer t timeout).step.run c).2 calls' := by
  have reached := ReachedBy.after h.reached (.transfer t timeout)
  rcases h.reached.reached.steady.phase with active | down
  · obtain ⟨start, work, rfl, started, works⟩ := h.active active
    have moves : Moves (Works dialect config) (Operation.transfer t timeout).step :=
      transfer_frame operationFrame_works t timeout fun _ _ _ => Quiet.works ⟨renumbers_continues _ _, rfl⟩
    obtain ⟨more, handed, offers⟩ := moves c h.reached.goesBy
    have works' : ∀ call ∈ work ++ more, Offers transfers call := List.forall_mem_append.2 ⟨works, offers⟩
    refine ⟨start ++ (work ++ more), reached, ?_, ?_, ?_, ?_, fun _ => ⟨start, work ++ more, rfl, started, works'⟩⟩
    · rw [handed.exchanges, h.exchanges, ← List.append_assoc, ← List.reverse_append, ← List.flatten_append,
        List.append_assoc]
    · rw [← List.append_assoc]
      exact List.forall_mem_append.2 ⟨h.whole, handed.whole⟩
    · rw [← List.append_assoc]
      exact List.forall_mem_append.2 ⟨h.served, handed.served⟩
    · simpa using InOrder.working started works' (.nil _)
  · have ended := ((settled_transfer t timeout).refused c down).2.1
    have exchanges := (transfer_idle down t timeout).trans h.exchanges
    refine ⟨calls, reached, exchanges, h.whole, h.served, h.inOrder, fun active => ?_⟩
    exact absurd (ended.symm.trans active) nofun

/-- Ending an active session adds the services of taking leave. -/
theorem Kept.finish (h : Kept dialect config base c calls) :
    ∃ calls', Kept dialect config base (Operation.finish.step.run c).2 calls' := by
  have reached := ReachedBy.after h.reached .finish
  have down : (endSession.run c).2.phase = .disconnected := (endSession_spec h.reached.reached.steady.sound).1
  have ended {P : Prop} (active : (endSession.run c).2.phase = .active) : P :=
    absurd (down.symm.trans active) nofun
  obtain ⟨leave, handed, leaves, quiet⟩ := endSession_leaves h.reached.goesBy
  have exchanges : (endSession.run c).2.exchanges = (calls ++ leave).flatten.reverse ++ base := by
    rw [handed.exchanges, h.exchanges, ← List.append_assoc, ← List.reverse_append, ← List.flatten_append]
  refine ⟨calls ++ leave, reached, exchanges, List.forall_mem_append.2 ⟨h.whole, handed.whole⟩,
    List.forall_mem_append.2 ⟨h.served, handed.served⟩, ?_, ended⟩
  rcases h.reached.reached.steady.phase with active | down
  · obtain ⟨start, work, rfl, started, works⟩ := h.active active
    exact .working started works leaves
  · rw [quiet (by rw [down]; rfl), List.append_nil]
    exact h.inOrder

theorem InSession.kept (h : InSession dialect config base c) : ∃ calls, Kept dialect config base c calls := by
  induction h with
  | started reached down before => exact kept_start reached down before
  | meanwhile _ channel watched ih =>
    obtain ⟨calls, kept⟩ := ih
    exact ⟨calls, .meanwhile kept.reached channel watched, kept.exchanges, kept.whole, kept.served, kept.inOrder,
      kept.active⟩
  | @after c _ o same ih =>
    obtain ⟨calls, kept⟩ := ih
    cases o with
    | start =>
      -- there is a session, so that another start is refused
      have unchanged : (Operation.start.step.run c).2 = c := congrArg Prod.snd (startSession_run_of_ne (same rfl))
      rw [unchanged]
      exact ⟨calls, kept⟩
    | transfer t timeout => exact kept.transfer t timeout
    | finish => exact kept.finish

/-- **The order of services.** What is handed to the wire in one session, whatever is done in it and whatever the
line does, falls into calls, each of them one service with its repeats, and these are in the order of the
dialect: each service of the start and of taking leave is handed over only behind one that passed, and a start
is tried once more at most. Where there are sessions, no password, no proof of a key and no table is handed over
but behind a logon that passed. -/
theorem session_inOrder (h : InSession dialect config base c) :
    ∃ calls, c.exchanges = calls.flatten.reverse ++ base ∧
      (∀ call ∈ calls, IsCall config.applicationRetries.toNat call ∧
        (∃ request, Transaction.Repeats request config.applicationRetries.toNat call) ∧
        ∀ t ∈ call, t.before.2.Serves dialect config) ∧
      InOrder dialect config calls ∧
      (¬ (dialect = .c1222 ∧ config.network.sessionless = true) → Admitted calls) := by
  obtain ⟨calls, kept⟩ := h.kept
  refine ⟨calls, kept.exchanges, fun call mem => ?_, kept.inOrder, fun session => kept.inOrder.admitted ?_⟩
  · exact ⟨kept.whole call mem, (kept.whole call mem).repeats, kept.served call mem⟩
  · cases dialect with
    | c1218 => rfl
    | c1221 => rfl
    | c1222 => simpa [standsAlone] using session

end Sessions

/-! ### A busy meter -/

/-- A line with a meter that is busy when the user logs on first, and then answers all that is asked. -/
def busyAtLogon : Line where
  answers := [
    fun _ => [(10, .arrival (.data (ackByte :: frameBytes ⟨0, ⟨0⟩, 0, [0, 0, 2, 0, 0]⟩)))],
    fun _ => [],
    fun _ => [(10, .arrival (.data (ackByte :: frameBytes ⟨0, ⟨0x20⟩, 0, [6]⟩)))],
    fun _ => [],
    fun _ => [(10, .arrival (.data (ackByte :: frameBytes ⟨0, ⟨0⟩, 0, [0]⟩)))],
    fun _ => [],
    fun _ => [(10, .arrival (.data (ackByte :: frameBytes ⟨0, ⟨0x20⟩, 0, [0]⟩)))],
    fun _ => [],
    fun _ => [(10, .arrival (.data (ackByte :: frameBytes ⟨0, ⟨0⟩, 0, [0]⟩)))],
    fun _ => [],
    fun _ => [(10, .arrival (.data (ackByte :: frameBytes ⟨0, ⟨0x20⟩, 0, [0]⟩)))],
    fun _ => []]

/-- A session on it, in which the meter is asked to wait before the session ends. -/
def patientSession : Client :=
  (Operation.finish.step.run
    ((Operation.transfer (.wait 5) none).step.run
      (Operation.start.step.run (direct (.ofLine busyAtLogon))).2).2).2

/-- Logon is handed over twice, and everything else once. -/
theorem session_inOrder_patient :
    InSession .c1218 { issueNegotiate := false, issueSecurity := false } [] patientSession ∧
      patientSession.exchanges.map (·.request.service) = [.terminate, .logoff, .wait, .logon, .logon, .identify] ∧
      ∃ calls, patientSession.exchanges = calls.flatten.reverse ++ [] ∧
        (∀ call ∈ calls, IsCall 2 call ∧ (∃ request, Transaction.Repeats request 2 call) ∧
          ∀ t ∈ call, t.before.2.Serves .c1218 { issueNegotiate := false, issueSecurity := false }) ∧
        InOrder .c1218 { issueNegotiate := false, issueSecurity := false } calls ∧ Admitted calls := by
  have made : ofConfig (.ofLine busyAtLogon) .c1218 { issueNegotiate := false, issueSecurity := false } 0 (fun _ => 0) =
      .ok (direct (.ofLine busyAtLogon)) := rfl
  have session : InSession .c1218 { issueNegotiate := false, issueSecurity := false } [] patientSession :=
    .after (.after (.started (.new made) rfl rfl) (.transfer (.wait 5) none) nofun) .finish nofun
  obtain ⟨calls, found, whole, inOrder, admitted⟩ := session_inOrder session
  exact ⟨session, by decide +kernel, calls, found, whole, inOrder, admitted nofun⟩

/-! ### A meter that need not answer -/

/-- Sessions over a network in which the meter is not expected to answer. -/
def unanswering : Config where
  network := { calledTitle := ".2.5", callingTitle := ".9.1", responseControl := .never }

/-- There the password and a table are asked for, though nothing at all was heard. -/
theorem handed_over_unheard : ∃ c, InSession .c1222 unanswering [] c ∧ c.phase = .active ∧
    c.exchanges.map (·.request.service) = [.readFull, .security, .logon] ∧ c.channel.line.heard = [] := by
  have found : ((ofConfig (.ofLine {}) .c1222 unanswering 0 fun _ => 0).toOption.map fun c =>
      let used := ((Operation.transfer (.read (.full 3)) none).step.run (Operation.start.step.run c).2).2
      ((c.phase, c.exchanges.length), used.phase, used.exchanges.map (·.request.service), used.channel.line.heard)) =
      some ((.disconnected, 0), .active, [.readFull, .security, .logon], []) := by decide +kernel
  rcases made : ofConfig (.ofLine {}) .c1222 unanswering 0 (fun _ => 0) with e | c
  · rw [made] at found
    cases found
  rw [made] at found
  obtain ⟨fresh, found⟩ := Prod.mk.inj (Option.some.inj found)
  obtain ⟨down, none⟩ := Prod.mk.inj fresh
  obtain ⟨active, found⟩ := Prod.mk.inj found
  obtain ⟨services, heard⟩ := Prod.mk.inj found
  have started : InSession .c1222 unanswering [] (Operation.start.step.run c).2 :=
    .started (.new made) down (List.length_eq_zero_iff.1 none)
  exact ⟨_, .after started (.transfer (.read (.full 3)) .none) nofun, active, services, heard⟩

end Metering.Client
