import Metering.Proofs.Settle
import Metering.Proofs.Start

set_option autoImplicit false

/-! # What an operation leaves of a session

Between operations a session is active or disconnected. Starting it, using it and ending it each lead
to one of the two, and when a session ends the channel is closed and the keys are wiped. The fault that
an operation reports decides which of the two it is (`Client.conforms_of_reached`). -/

namespace Metering.Client

open Step (Moves Same)

/-! ## Starting and ending -/

/-- A start from the disconnected phase: it succeeds and the session is active, or it fails and the
session is over. -/
theorem startSession_spec {c : Client} (down : c.phase = .disconnected) (sound : c.secrets.Sound) :
    (startSession.run c).2.refusals = c.refusals ∧ (startSession.run c).2.secrets.Sound ∧
      ((startSession.run c).1 = .ok () ∧ (startSession.run c).2.phase = .active ∨
        (∃ e, (startSession.run c).1 = .error e) ∧ (startSession.run c).2.phase = .disconnected ∧
          (startSession.run c).2.Wiped) := by
  obtain ⟨refusals, secrets, reached⟩ := bringUp_climbs c down
  have started : startSession.run c = match bringUp.run c with
      | (.ok (), t) => (.ok (), t)
      | (.error e, t) => (.error e, (shutdown.run t).2) := by
    unfold startSession
    rw [Step.run_get_bind, if_neg (by simpa using down), Step.run_outcome_bind]
    rcases bringUp.run c with ⟨r, t⟩
    cases r with
    | ok u => rfl
    | error e =>
      dsimp only
      rw [Step.run_bind, shutdown_run]
      rfl
  rw [started]
  rcases hb : bringUp.run c with ⟨r, t⟩
  rw [hb] at refusals secrets reached
  have kept : t.secrets.Sound := secrets ▸ sound
  cases r with
  | ok u => exact ⟨refusals, kept, .inl ⟨rfl, reached u rfl⟩⟩
  | error e =>
    obtain ⟨phase, same, sound', wiped⟩ := shutdown_spec kept
    exact ⟨same.trans refusals, sound', .inr ⟨⟨e, rfl⟩, phase, wiped⟩⟩

/-- A session that is not disconnected cannot be started, and stays as it is. -/
theorem startSession_run_of_ne {c : Client} (h : c.phase ≠ .disconnected) :
    startSession.run c = (.error (.invalidState (.cannotStart c.phase)), c) := by
  unfold startSession
  rw [Step.run_get_bind, if_pos h]
  rfl

theorem takeLeave_frame {A : Request → Prop} {R : Client → Client → Prop} [IsPreorder Client R]
    (frame : ServiceFrame A R) (brief : ∀ {r : Request}, r.Brief → A r) : Moves R takeLeave := by
  refine .bind .get fun c => ?_
  have ended {request : Request} (h : request.Brief) : Moves R (do let _ ← transact request : Step Client Unit) :=
    .bind (transact_frame frame (brief h)) fun _ => .pure _
  have terminated := ended Request.brief_terminate
  have packets : Moves R (do
      if c.config.issueLogoff then let _ ← transact .logoff
      let _ ← transact .terminate : Step Client Unit) :=
    .ite (.bind (transact_frame frame (brief Request.brief_logoff)) fun _ => terminated) terminated
  cases c.dialect with
  | c1218 => exact packets
  | c1221 => exact packets
  | c1222 => exact .ite (.ite terminated (.ite (ended Request.brief_logoff) (.pure _))) (.pure _)

/-- **Ending a session** disconnects it, whatever becomes of taking leave. -/
theorem endSession_spec {c : Client} (sound : c.secrets.Sound) :
    (endSession.run c).2.phase = .disconnected ∧ (endSession.run c).2.refusals = c.refusals ∧
      (endSession.run c).2.secrets.Sound ∧ (endSession.run c).2.Wiped := by
  have left : ∃ t : Client, t.refusals = c.refusals ∧ t.secrets = c.secrets ∧
      endSession.run c = shutdown.run t := by
    unfold endSession
    rw [Step.run_get_bind]
    split
    · obtain ⟨-, refusals, secrets⟩ := core_eq_iff.1 (takeLeave_frame frame_core.services (fun _ => trivial) { c with phase := .terminating })
      exact ⟨_, refusals, secrets, rfl⟩
    · exact ⟨c, rfl, rfl, rfl⟩
  obtain ⟨t, refusals, secrets, run⟩ := left
  obtain ⟨phase, same, sound', wiped⟩ := shutdown_spec (c := t) (secrets ▸ sound)
  rw [run]
  exact ⟨phase, same.trans refusals, sound', wiped⟩

/-! ## Runs of operations -/

/-- What an active session is used for. -/
inductive Transfer where
  | read (d : Descriptor)
  | write (d : Descriptor) (data : Bytes)
  | procedure (number : UInt16) (parameters : Bytes)
  | wait (seconds : Nat)

/-- It runs a procedure. -/
def Transfer.IsProcedure (t : Transfer) : Prop := ∃ number parameters, t = procedure number parameters

def Transfer.step : Transfer → Step Client Unit
  | read d => do let _ ← readTable d
  | write d data => do let _ ← writeTable d data
  | procedure number parameters => do let _ ← runProcedure number parameters
  | wait seconds => do let _ ← Client.wait seconds

/-- What a caller can ask of a client. A transfer may have a deadline. -/
inductive Operation where
  | start
  | transfer (t : Transfer) (timeout : Option Duration)
  | finish

def Operation.step : Operation → Step Client Unit
  | start => startSession
  | transfer t none => t.step
  | transfer t (some timeout) => Client.within timeout t.step
  | finish => endSession

/-- The clients of all runs: a new client, and what operations make of it one after the other. Between
them the line does what it wants, and the caller may reset the channel or ask for progress. -/
inductive Reached : Client → Prop
  | new {channel : Channel} {dialect : Dialect} {config : Config} {clock : UInt64} {entropy : Nat → UInt32}
      {c : Client} (made : ofConfig channel dialect config clock entropy = .ok c) : Reached c
  | meanwhile {c : Client} (before : Reached c) (channel : Channel) (watched : Bool) :
      Reached { c with channel, watched }
  | after {c : Client} (before : Reached c) (o : Operation) : Reached (o.step.run c).2

theorem settled_transfer (t : Transfer) (timeout : Option Duration) :
    Settled (Operation.transfer t timeout).step := by
  have plain : Settled t.step := by
    cases t with
    | read d => exact (settled_readTable d).ignore
    | write d data => exact (settled_writeTable d data).ignore
    | procedure number parameters => exact (settled_runProcedure number parameters).ignore
    | wait seconds => exact (settled_wait seconds).ignore
  cases timeout with
  | none => exact plain
  | some timeout => exact plain.within timeout

/-- What an operation makes of a client. -/
structure Conforms (o : Operation) (c : Client) (r : Except Fault Unit) (c' : Client) : Prop where
  /-- No phase in between is left behind. -/
  steady : c'.phase = .active ∨ c'.phase = .disconnected
  /-- A start from the disconnected phase ends active exactly when it succeeds. -/
  started : o = .start → c.phase = .disconnected → (c'.phase = .active ↔ r = .ok ())
  /-- No move between phases was refused. -/
  allowed : c'.refusals = c.refusals
  /-- A transfer of an active session ends it exactly when it reports a fault that does so. -/
  transferred : ∀ t timeout, o = .transfer t timeout → c.phase = .active →
    (c'.phase = .disconnected ↔ Ends r)
  /-- Without a session it fails and leaves the line alone. -/
  refused : ∀ t timeout, o = .transfer t timeout → c.phase = .disconnected →
    (∃ e, r = .error e) ∧ c'.channel.line = c.channel.line
  finished : o = .finish → c'.phase = .disconnected
  /-- The session that is over leaves a closed channel and no keys. -/
  wiped : (o = .start ∧ (∃ e, r = .error e) ∨ (∃ t timeout, o = .transfer t timeout) ∧ c.phase = .active ∨
    o = .finish) → c'.phase = .disconnected → c'.Wiped

/-- What holds of a client between operations. -/
structure Steady (c : Client) : Prop where
  phase : c.phase = .active ∨ c.phase = .disconnected
  sound : c.secrets.Sound

/-- A key that was taken over for the wire has the length of its cipher, and no copy of it is left. -/
theorem association_keys {config : Config} {clock : UInt64} {entropy : Nat → UInt32} {a : Association}
    (h : Association.ofConfig config clock entropy = .ok a) :
    a.keys.1 = [] ∧ ∀ key ∈ a.keys.2, key.length = 16 := by
  obtain ⟨security, chosen, h⟩ := Step.except_bind_ok.1 h
  obtain rfl := Except.ok.inj h
  refine ⟨rfl, fun key hkey => ?_⟩
  unfold Association.contextOf at chosen
  split at chosen
  · obtain ⟨key', taken, chosen⟩ := Step.except_bind_ok.1 chosen
    obtain ⟨context, made, chosen⟩ := Step.except_bind_ok.1 chosen
    obtain ⟨eax, -, made⟩ := Step.except_bind_ok.1 made
    obtain rfl := Except.ok.inj made
    obtain rfl := Except.ok.inj chosen
    have same : key = key' := by
      cases hv : config.network.initializationVector <;>
        simpa [Association.keys, hv, SecurityContext.choose, eq_comm] using hkey
    rw [same]
    unfold SecretKey.aes128 SecretKey.ofBytes at taken
    split at taken
    next long =>
      obtain rfl := Except.ok.inj taken
      simpa [SecretKey.length] using long
    next => cases taken
  · obtain rfl := Except.ok.inj chosen
    cases hkey

theorem steady_of_ofConfig {channel : Channel} {dialect : Dialect} {config : Config} {clock : UInt64}
    {entropy : Nat → UInt32} {c : Client} (h : ofConfig channel dialect config clock entropy = .ok c) :
    c.Steady := by
  unfold ofConfig at h
  obtain ⟨_, valid, h⟩ := Step.except_bind_ok.1 h
  obtain ⟨wire, hw, h⟩ := Step.except_bind_ok.1 h
  have onWire (w : Bytes × Option SecretKey) (hc : w ∈ c.secrets.wire) (same : c.wire = wire) :
      w.1 = [] ∧ ∀ key ∈ w.2, key.length = 16 := by
    unfold wireFor at hw
    split at hw
    · obtain rfl := Except.ok.inj hw
      simp [secrets, same] at hc
    · cases ha : Association.ofConfig config clock entropy with
      | error e => simp [ha, Except.map] at hw
      | ok a =>
        rw [ha] at hw
        obtain rfl := Except.ok.inj hw
        obtain rfl : a.keys = w := by simpa [secrets, same] using hc
        exact association_keys ha
  dsimp only at h
  split at h
  all_goals
    obtain ⟨key, -, h⟩ := Step.except_bind_ok.1 h
    obtain rfl := Except.ok.inj h
    exact ⟨.inr rfl, rfl, rfl, fun w hc => (onWire w hc rfl).1, fun w hc => (onWire w hc rfl).2⟩

theorem conforms_start {c : Client} (h : c.Steady) :
    Conforms .start c (startSession.run c).1 (startSession.run c).2 := by
  by_cases down : c.phase = .disconnected
  · obtain ⟨refusals, -, result⟩ := startSession_spec down h.sound
    obtain ⟨ok, active⟩ | ⟨⟨e, failed⟩, phase, wiped⟩ := result
    · refine ⟨.inl active, fun _ _ => ⟨fun _ => ok, fun _ => active⟩, refusals, nofun, nofun, nofun, ?_⟩
      intro _ ended
      rw [active] at ended
      cases ended
    · refine ⟨.inr phase, fun _ _ => ⟨fun active => ?_, fun ok => ?_⟩, refusals, nofun, nofun, nofun,
        fun _ _ => wiped⟩
      · rw [phase] at active
        cases active
      · rw [failed] at ok
        cases ok
  · rw [startSession_run_of_ne down]
    exact ⟨h.phase, fun _ h => absurd h down, rfl, nofun, nofun, nofun, fun _ h => absurd h down⟩

theorem conforms_transfer {c : Client} (h : c.Steady) (t : Transfer) (timeout : Option Duration) :
    Conforms (.transfer t timeout) c ((Operation.transfer t timeout).step.run c).1
      ((Operation.transfer t timeout).step.run c).2 := by
  have settled := settled_transfer t timeout
  generalize (Operation.transfer t timeout).step = x at settled ⊢
  rcases h.phase with active | down
  · have up : c.phase ≠ .disconnected := by rw [active]; decide
    by_cases ends : Ends (x.run c).1
    · obtain ⟨phase, wiped⟩ := settled.ended c active h.sound ends
      exact ⟨.inr phase, nofun, settled.refusals c, fun _ _ _ _ => ⟨fun _ => ends, fun _ => phase⟩,
        fun _ _ _ down => absurd down up, nofun, fun _ _ => wiped⟩
    · have phase := settled.kept c active ends
      have stays : (x.run c).2.phase ≠ .disconnected := by rw [phase]; decide
      exact ⟨.inl phase, nofun, settled.refusals c,
        fun _ _ _ _ => ⟨fun down => absurd down stays, fun h => absurd h ends⟩,
        fun _ _ _ down => absurd down up, nofun, fun _ down => absurd down stays⟩
  · obtain ⟨failed, phase, line⟩ := settled.refused c down
    refine ⟨.inr phase, nofun, settled.refusals c, fun _ _ _ active => ?_, fun _ _ _ _ => ⟨failed, line⟩, nofun, ?_⟩
    · rw [down] at active
      cases active
    · rintro (⟨start, -⟩ | ⟨-, active⟩ | finish) _
      · cases start
      · rw [down] at active
        cases active
      · cases finish

theorem conforms_of_steady {c : Client} (h : c.Steady) (o : Operation) :
    Conforms o c (o.step.run c).1 (o.step.run c).2 := by
  cases o with
  | start => exact conforms_start h
  | transfer t timeout => exact conforms_transfer h t timeout
  | finish =>
    obtain ⟨phase, refusals, -, wiped⟩ := endSession_spec h.sound
    exact ⟨.inr phase, nofun, refusals, nofun, nofun, fun _ => phase, fun _ _ => wiped⟩

theorem Steady.after {c : Client} (h : c.Steady) (o : Operation) : (o.step.run c).2.Steady := by
  refine ⟨(conforms_of_steady h o).steady, ?_⟩
  cases o with
  | start =>
    by_cases down : c.phase = .disconnected
    · exact (startSession_spec down h.sound).2.1
    · rw [Operation.step, startSession_run_of_ne down]
      exact h.sound
  | transfer t timeout => exact (settled_transfer t timeout).sound c h.sound
  | finish => exact (endSession_spec h.sound).2.2.1

theorem Reached.steady {c : Client} (h : Reached c) : c.Steady := by
  induction h with
  | new made => exact steady_of_ofConfig made
  | meanwhile _ channel watched ih => exact ⟨ih.phase, ih.sound⟩
  | after _ o ih => exact ih.after o

/-- **Every operation of every run** leaves the session active or disconnected, as its result says, and
a session that it ends leaves no key behind. -/
theorem conforms_of_reached {c : Client} (h : Reached c) (o : Operation) :
    Conforms o c (o.step.run c).1 (o.step.run c).2 :=
  conforms_of_steady h.steady o

/-- A new client for a telephone line, with a key to prove, on a line where nobody answers. -/
def unanswered : Client where
  dialect := .c1221
  config := { telephone := { enableAuthentication := true, authenticationKey := [] },
              network := { securityKey := [] } }
  channel := .ofLine {}
  wire := .packets (.ofParameters (.ofConfig {}))
  authenticationKey := some ⟨List.replicate 8 0x5A⟩

theorem reached_unanswered : Reached unanswered := by
  have made : ofConfig (.ofLine {}) .c1221
      { telephone := { enableAuthentication := true, authenticationKey := List.replicate 8 0x5A } } 0 (fun _ => 0) =
      .ok unanswered := rfl
  exact .new made

/-- Its start fails, and the key is gone. -/
theorem conforms_unanswered :
    Reached unanswered ∧ Conforms .start unanswered (startSession.run unanswered).1 (startSession.run unanswered).2 ∧
      (startSession.run unanswered).2.phase = .disconnected ∧ (startSession.run unanswered).2.Wiped := by
  have conforms : Conforms .start unanswered (startSession.run unanswered).1 (startSession.run unanswered).2 :=
    conforms_of_reached reached_unanswered .start
  have failed : (startSession.run unanswered).1.toBool = false := by decide +kernel
  cases result : (startSession.run unanswered).1 with
  | ok u => simp [result, Except.toBool] at failed
  | error e =>
    have inactive : (startSession.run unanswered).2.phase ≠ .active := fun active =>
      absurd (result.symm.trans ((conforms.started rfl rfl).1 active)) nofun
    have down : (startSession.run unanswered).2.phase = .disconnected :=
      conforms.steady.resolve_left inactive
    exact ⟨reached_unanswered, result ▸ conforms, down, conforms.wiped (.inl ⟨rfl, e, result⟩) down⟩

end Metering.Client
