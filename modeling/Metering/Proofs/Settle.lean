import Metering.Client.Tables
import Metering.Proofs.Services

set_option autoImplicit false

/-! # Settled operations

An operation is settled by the fault it reports: a fault that ends the session shuts the client down,
which closes the channel and wipes the keys, and any other fault leaves the session active
(`Client.Settled`). A client without a session refuses to transfer anything, before it touches the
line. -/

namespace Metering

open Step (Moves Same)

/-! ## Wiped keys -/

namespace SecretKey

theorem isCleared_clear (k : SecretKey) : k.clear.isCleared = true := by simp [clear, isCleared]

theorem length_clear (k : SecretKey) : k.clear.length = k.length := by simp [clear, length]

theorem eax_of_length {k : SecretKey} (h : k.length = 16) : ∃ e, k.eax = .ok e := by
  unfold eax aes
  rw [if_pos h]
  exact ⟨_, rfl⟩

end SecretKey

/-- A context that was wiped works under the wiped key. -/
theorem SecurityContext.clear_eax {s : SecurityContext} (h : s.key.length = 16) :
    s.clear.key = s.key.clear ∧ s.clear.key.eax = .ok s.clear.eax := by
  obtain ⟨e, he⟩ := SecretKey.eax_of_length ((SecretKey.length_clear s.key).trans h)
  unfold clear
  dsimp only
  rw [he]
  exact ⟨rfl, he⟩

theorem Channel.close_connected (c : Channel) : (close.run c).2.connected = false := by
  unfold close
  rw [Step.run_get_bind]
  split
  next closed =>
    obtain ⟨off, -⟩ := Bool.and_eq_true_iff.1 closed
    simpa using off
  next => rfl

namespace Client

variable {α : Type}

/-- Keys were taken out of the configuration, and a key on the wire has the length of its cipher. -/
structure Secrets.Sound (s : Secrets) : Prop where
  telephone : s.config.telephone.authenticationKey = []
  network : s.config.network.securityKey = []
  options : ∀ w ∈ s.wire, w.1 = []
  length : ∀ w ∈ s.wire, ∀ key ∈ w.2, key.length = 16

/-- The channel is closed and no key is left: those in use are zeros, a cipher is that of zeros, and
the configuration holds none. -/
structure Wiped (c : Client) : Prop where
  closed : c.channel.connected = false
  authenticationKey : ∀ key ∈ c.authenticationKey, key.isCleared = true
  security : ∀ a, c.wire = .apdus a → a.options.securityKey = [] ∧
    ∀ s ∈ a.security, s.isCleared = true ∧ s.key.eax = .ok s.eax
  configured : c.config.telephone.authenticationKey = [] ∧ c.config.network.securityKey = []

/-- The wire after the key of its association was wiped. -/
def wiped : Wire → Wire
  | .packets link => .packets link
  | .apdus a => .apdus a.endSession

theorem shutdown_run (c : Client) :
    shutdown.run c = (.ok (),
      { c with channel := (Channel.close.run c.channel).2, phase := .disconnected, wire := wiped c.wire,
               authenticationKey := c.authenticationKey.map SecretKey.clear }) := by
  unfold shutdown changeAssociation
  rw [Step.run_modify_bind, Step.run_modify_bind, Step.run_outcome_bind]
  rcases hw : c.wire with link | a
  · dsimp only [wiped]
    rw [← hw]
    rfl
  · rfl

/-- **Shutting down** disconnects, closes the channel and wipes the keys. -/
theorem shutdown_spec {c : Client} (sound : c.secrets.Sound) :
    (shutdown.run c).2.phase = .disconnected ∧ (shutdown.run c).2.refusals = c.refusals ∧
      (shutdown.run c).2.secrets.Sound ∧ (shutdown.run c).2.Wiped := by
  obtain ⟨telephone, network, options, length⟩ := sound
  rw [shutdown_run]
  have cleared (key : SecretKey) (h : key ∈ c.authenticationKey.map SecretKey.clear) : key.isCleared = true := by
    obtain ⟨k, -, rfl⟩ := Option.map_eq_some_iff.1 h
    exact k.isCleared_clear
  rcases hw : c.wire with link | a
  · exact ⟨rfl, rfl, ⟨telephone, network, by simp [secrets, wiped], by simp [secrets, wiped]⟩,
      Channel.close_connected _, cleared, by simp [wiped], telephone, network⟩
  · have held : c.secrets.wire = some a.keys := by rw [secrets, hw]
    have noCopy : a.options.securityKey = [] := options _ held
    have cleared' (s : SecurityContext) (h : s ∈ a.endSession.security) :
        s.key.length = 16 ∧ s.isCleared = true ∧ s.key.eax = .ok s.eax := by
      obtain ⟨s0, h0, rfl⟩ := Option.map_eq_some_iff.1 h
      have long : s0.key.length = 16 := length _ held _ (Option.map_eq_some_iff.2 ⟨s0, h0, rfl⟩)
      obtain ⟨key, eax⟩ := SecurityContext.clear_eax long
      refine ⟨by rw [key, SecretKey.length_clear, long], ?_, eax⟩
      rw [SecurityContext.isCleared, key, SecretKey.isCleared_clear]
    refine ⟨rfl, rfl, ⟨telephone, network, ?_, ?_⟩, Channel.close_connected _, cleared, ?_, telephone, network⟩
    · rintro w hw'
      obtain rfl := Option.some.inj hw'
      exact noCopy
    · rintro w hw' key hkey
      obtain rfl := Option.some.inj hw'
      obtain ⟨s, hs, rfl⟩ := Option.map_eq_some_iff.1 hkey
      exact (cleared' s hs).1
    · intro a' ha'
      obtain rfl := Wire.apdus.inj ha'
      exact ⟨noCopy, fun s hs => (cleared' s hs).2⟩

/-! ## Settled operations -/

/-- The result is a fault that ends the session. -/
def Ends (r : Except Fault α) : Prop := ∃ e, r = .error e ∧ e.disposition = .disconnect

/-- What an operation comes to whose result was settled: a session that was active is over exactly if
the result ends it, and one that was disconnected is not touched. -/
structure Settled (x : Step Client α) : Prop where
  sound : ∀ c, c.secrets.Sound → (x.run c).2.secrets.Sound
  refusals : ∀ c, (x.run c).2.refusals = c.refusals
  ended : ∀ c, c.phase = .active → c.secrets.Sound → Ends (x.run c).1 →
    (x.run c).2.phase = .disconnected ∧ (x.run c).2.Wiped
  kept : ∀ c, c.phase = .active → ¬ Ends (x.run c).1 → (x.run c).2.phase = .active
  refused : ∀ c, c.phase = .disconnected → (∃ e, (x.run c).1 = .error e) ∧
    (x.run c).2.phase = .disconnected ∧ (x.run c).2.channel.line = c.channel.line

/-- An operation that needs an active session does nothing without one. -/
def NeedsActive (x : Step Client α) : Prop := ∀ c, c.phase.isActive = false → ∃ e, x.run c = (.error e, c)

theorem excuse_run (e : Fault) (c : Client) :
    ∃ e', ((excuse e).run c).1 = .ok e' ∧ ((excuse e).run c).2.core = c.core ∧
      ((excuse e).run c).2.channel = c.channel := by
  have forgot : ((changeLink Link.forget).run c).2.channel = c.channel := by
    unfold changeLink
    rw [Step.run_modify]
    rcases c.wire with link | a <;> rfl
  unfold excuse
  rw [Step.run_get_bind]
  split
  · exact ⟨.readTimeout 0, rfl, changeLink_core _ c, forgot⟩
  · exact ⟨e, rfl, rfl, rfl⟩

/-- The run of a settled operation that failed, once its fault was judged. -/
theorem settle_run_excused {x : Step Client α} {c t t' : Client} {e e' : Fault} (h : x.run c = (.error e, t))
    (excused : (excuse e).run t = (.ok e', t')) : (settle x).run c = (.error e',
      if e'.disposition = .disconnect ∧ t'.phase ≠ .disconnected then (shutdown.run t').2 else t') := by
  unfold settle
  rw [Step.run_outcome_bind, h]
  dsimp only
  rw [Step.run_bind_of_ok excused, Step.run_get_bind]
  by_cases ends : e'.disposition = .disconnect ∧ t'.phase ≠ .disconnected
  · rw [if_pos (by simpa using ends), if_pos ends, Step.run_bind, shutdown_run]
    rfl
  · rw [if_neg (by simpa using ends), if_neg ends]
    rfl

theorem settle_run_error {x : Step Client α} {c t : Client} {e : Fault} (h : x.run c = (.error e, t)) :
    ∃ e' t', t'.core = t.core ∧ t'.channel = t.channel ∧ (settle x).run c = (.error e',
      if e'.disposition = .disconnect ∧ t'.phase ≠ .disconnected then (shutdown.run t').2 else t') := by
  obtain ⟨e', he, core, channel⟩ := excuse_run e t
  exact ⟨e', _, core, channel, settle_run_excused h (Step.run_eq_of_fst he)⟩

theorem settle_run_ok {x : Step Client α} {c t : Client} {a : α} (h : x.run c = (.ok a, t)) :
    (settle x).run c = (.ok a, t) := by
  unfold settle
  rw [Step.run_outcome_bind, h]
  rfl

/-- **Settling an operation** that leaves phase and keys alone, and needs an active session. -/
theorem settled_settle {x : Step Client α} (hx : Moves (Same core) x) (needs : NeedsActive x) :
    Settled (settle x) := by
  -- the state in which the fault is judged, and what it is judged to be
  have judged (c : Client) : (∃ a t, t.core = c.core ∧ (settle x).run c = (.ok a, t)) ∨
      ∃ e t, t.core = c.core ∧ (settle x).run c = (.error e,
        if e.disposition = .disconnect ∧ t.phase ≠ .disconnected then (shutdown.run t).2 else t) := by
    have same := hx c
    rcases hr : x.run c with ⟨r, t⟩
    rw [hr] at same
    cases r with
    | ok a => exact .inl ⟨a, t, same, settle_run_ok hr⟩
    | error e =>
      obtain ⟨e', t', core, -, run⟩ := settle_run_error hr
      exact .inr ⟨e', t', core.trans same, run⟩
  constructor
  case sound =>
    intro c sound
    obtain ⟨a, t, same, run⟩ | ⟨e, t, same, run⟩ := judged c
    all_goals
      obtain ⟨-, -, secrets⟩ := core_eq_iff.1 same
      have kept : t.secrets.Sound := secrets ▸ sound
      rw [run]
    · exact kept
    · dsimp only
      split
      · exact (shutdown_spec kept).2.2.1
      · exact kept
  case refusals =>
    intro c
    obtain ⟨a, t, same, run⟩ | ⟨e, t, same, run⟩ := judged c
    all_goals
      obtain ⟨-, refusals, -⟩ := core_eq_iff.1 same
      rw [run]
    · exact refusals
    · dsimp only
      split
      · rw [shutdown_run]
        exact refusals
      · exact refusals
  case ended =>
    intro c active sound ends
    obtain ⟨a, t, same, run⟩ | ⟨e, t, same, run⟩ := judged c
    · rw [run] at ends
      obtain ⟨_, h, -⟩ := ends
      cases h
    · obtain ⟨phase, -, secrets⟩ := core_eq_iff.1 same
      rw [run] at ends ⊢
      obtain ⟨_, h, disconnects⟩ := ends
      obtain rfl := Except.error.inj h
      dsimp only
      rw [if_pos ⟨disconnects, by rw [phase, active]; decide⟩]
      obtain ⟨down, -, -, wiped⟩ := shutdown_spec (c := t) (secrets ▸ sound)
      exact ⟨down, wiped⟩
  case kept =>
    intro c active stays
    obtain ⟨a, t, same, run⟩ | ⟨e, t, same, run⟩ := judged c
    all_goals
      obtain ⟨phase, -, -⟩ := core_eq_iff.1 same
      rw [run] at stays ⊢
    · exact phase.trans active
    · dsimp only
      rw [if_neg fun h => stays ⟨e, rfl, h.1⟩]
      exact phase.trans active
  case refused =>
    intro c down
    obtain ⟨e, failed⟩ := needs c (by rw [down]; rfl)
    obtain ⟨e', t, core, channel, run⟩ := settle_run_error failed
    obtain ⟨phase, -, -⟩ := core_eq_iff.1 core
    rw [run, if_neg fun h => h.2 (phase.trans down)]
    exact ⟨⟨e', rfl⟩, phase.trans down, by rw [channel]⟩

theorem within_run (timeout : Duration) (x : Step Client α) (c : Client) :
    ∃ limited : Channel, limited.line = c.channel.line ∧
      (within timeout x).run c = ((x.run { c with channel := limited }).1,
        { (x.run { c with channel := limited }).2 with
          channel := (x.run { c with channel := limited }).2.channel.setDeadline none }) := by
  refine ⟨c.channel.setDeadline (some (c.channel.now + timeout)), rfl, ?_⟩
  unfold within setDeadline
  rw [Step.run_get_bind, Step.run_modify_bind, Step.run_outcome_bind, Step.run_modify_bind, Step.run_ofExcept]

/-- A deadline changes nothing of what an operation comes to. -/
theorem Settled.within {x : Step Client α} (h : Settled x) (timeout : Duration) :
    Settled (within timeout x) := by
  constructor
  case sound =>
    intro c sound
    obtain ⟨limited, -, run⟩ := within_run timeout x c
    rw [run]
    exact h.sound { c with channel := limited } sound
  case refusals =>
    intro c
    obtain ⟨limited, -, run⟩ := within_run timeout x c
    rw [run]
    exact h.refusals { c with channel := limited }
  case ended =>
    intro c active sound ends
    obtain ⟨limited, -, run⟩ := within_run timeout x c
    rw [run] at ends ⊢
    obtain ⟨down, wiped⟩ := h.ended { c with channel := limited } active sound ends
    exact ⟨down, wiped.closed, wiped.authenticationKey, wiped.security, wiped.configured⟩
  case kept =>
    intro c active stays
    obtain ⟨limited, -, run⟩ := within_run timeout x c
    rw [run] at stays ⊢
    exact h.kept { c with channel := limited } active stays
  case refused =>
    intro c down
    obtain ⟨limited, line, run⟩ := within_run timeout x c
    rw [run]
    obtain ⟨failed, phase, same⟩ := h.refused { c with channel := limited } down
    exact ⟨failed, phase, same.trans line⟩

theorem ignored_run (x : Step Client α) (c : Client) :
    (do let _ ← x : Step Client Unit).run c = ((x.run c).1.map fun _ => (), (x.run c).2) := by
  rw [Step.run_bind]
  rcases x.run c with ⟨r, t⟩
  cases r <;> rfl

theorem ends_map {β : Type} {r : Except Fault α} {f : α → β} : Ends (r.map f) ↔ Ends r := by
  cases r <;> simp [Ends, Except.map]

/-- What an operation comes to does not depend on the value it gives. -/
theorem Settled.ignore {x : Step Client α} (h : Settled x) : Settled (do let _ ← x : Step Client Unit) := by
  constructor
  case sound =>
    intro c
    rw [ignored_run]
    exact h.sound c
  case refusals =>
    intro c
    rw [ignored_run]
    exact h.refusals c
  case ended =>
    intro c
    rw [ignored_run, ends_map]
    exact h.ended c
  case kept =>
    intro c
    rw [ignored_run, ends_map]
    exact h.kept c
  case refused =>
    intro c down
    obtain ⟨⟨e, failed⟩, rest⟩ := h.refused c down
    rw [ignored_run, failed]
    exact ⟨⟨e, rfl⟩, rest⟩

/-! ## Transfers -/

theorem ensureActive_run {c : Client} (h : c.phase.isActive = false) :
    ensureActive.run c = (.error (.invalidState (.notActive c.phase)), c) := by
  unfold ensureActive
  rw [Step.run_get_bind, h]
  rfl

/-- A step that checks its arguments and then for an active session needs one. -/
theorem needsActive_of_check {β : Type} (check : Except Fault β) (rest : β → Step Client α) :
    NeedsActive (do
      let b ← Step.ofExcept check
      ensureActive
      rest b) := by
  intro c down
  rw [Step.run_bind, Step.run_ofExcept]
  cases check with
  | error e => exact ⟨e, rfl⟩
  | ok b => exact ⟨_, Step.run_bind_of_error (ensureActive_run down)⟩

theorem settled_readTable (d : Descriptor) : Settled (readTable d) :=
  settled_settle (readActive_frame frame_core.transfers.tables d) (needsActive_of_check _ _)

theorem settled_writeTable (d : Descriptor) (data : Bytes) : Settled (writeTable d data) :=
  settled_settle (writeActive_frame frame_core.transfers.tables d data) (needsActive_of_check _ _)

theorem settled_wait (seconds : Nat) : Settled (wait seconds) :=
  settled_settle (waitActive_frame frame_core.services.calls (fun _ => trivial) seconds) (needsActive_of_check _ _)

theorem settled_runProcedure (number : UInt16) (parameters : Bytes) :
    Settled (runProcedure number parameters) := by
  have moves := procedureActive_frame frame_core.transfers.tables (fun _ _ => rfl) number parameters
  refine settled_settle moves fun c down => ?_
  exact ⟨_, Step.run_bind_of_error (ensureActive_run down)⟩

end Client

end Metering
