import Metering.Proofs.Bare
import Metering.Proofs.Frames
import Metering.Proofs.Lonely

set_option autoImplicit false

/-! # What a reset brings back

A reset takes a link back to its parameters, and what was agreed on before about the size and the number of packets and
all toggle bits are forgotten. But timing values are agreed on by replacing those of the parameters, so the last of them
stay (`Linked.agreed`). Whatever was done with a link, after a reset nobody can tell it from a new link with these
timing values. From a new link with the parameters it was made from it can be told, by a few calls, unless the timing
values are the same (`Linked.reset_indistinguishable`). -/

namespace Metering

namespace Linked

open Channel (Lonely)
open Step (Moves Same)

/-! ## Using a link -/

/-- What is done with a link. -/
inductive Call where
  | negotiate (packetSize : UInt16) (maxPackets : UInt8)
  | setTiming (traffic intercharacter acknowledgement : Duration) (retries : UInt8)
  | forget
  | reset
  | send (message : Bytes)
  | receive
  | request (message : Bytes)
  | requestWithMinimum (message : Bytes) (minimum : Nat)
  /-- Asks how much table data a request may carry. -/
  | limits
  /-- Something else is done on the channel. -/
  | elsewhere (x : Step Channel Unit)

/-- What a call gives. -/
inductive Reply where
  | done
  | agreed (packetSize : UInt16)
  | received (r : Received)
  | response (bytes : Bytes)
  | limits (l : LinkLimits)
  deriving DecidableEq, Repr

def Call.step : Call → Step Linked Reply
  | negotiate packetSize maxPackets => return .agreed (← onLink (Link.applyNegotiated packetSize maxPackets))
  | setTiming traffic intercharacter acknowledgement retries => do
    changeLink (Link.applyTiming traffic intercharacter acknowledgement retries)
    return .done
  | forget => do
    changeLink Link.forget
    return .done
  | reset => do
    changeLink Link.reset
    return .done
  | send message => do
    sendMessage message
    return .done
  | receive => return .received (← receiveMessage)
  | request message => return .response (← Linked.request message)
  | requestWithMinimum message minimum => return .response (← Linked.requestWithMinimum message minimum)
  | limits => return .limits (← get).link.limits
  | elsewhere x => do
    onChannel x
    return .done

/-- What calls give, one after the other, and how they leave the link. -/
def replies : List Call → Linked → List (Except Fault Reply) × Linked
  | [], s => ([], s)
  | call :: rest, s =>
    let (results, left) := replies rest (call.step.run s).2
    ((call.step.run s).1 :: results, left)

/-! ## Links that nobody can tell apart -/

/-- Nobody can tell two links apart: on every channel all calls give the same, and do the same to the channel. -/
def Indistinguishable (l l' : Link) : Prop :=
  ∀ c calls, (replies calls ⟨c, l⟩).1 = (replies calls ⟨c, l'⟩).1 ∧
    (replies calls ⟨c, l⟩).2.channel = (replies calls ⟨c, l'⟩).2.channel

variable {l l' l'' : Link}

theorem Indistinguishable.symm (h : Indistinguishable l l') : Indistinguishable l' l := fun c calls =>
  ⟨(h c calls).1.symm, (h c calls).2.symm⟩

theorem Indistinguishable.trans (h : Indistinguishable l l') (h' : Indistinguishable l' l'') : Indistinguishable l l'' :=
  fun c calls => ⟨(h c calls).1.trans (h' c calls).1, (h c calls).2.trans (h' c calls).2⟩

theorem negotiate_blind (packetSize : UInt16) (maxPackets : UInt8) :
    Blind (onLink (Link.applyNegotiated packetSize maxPackets)) := by
  intro s
  have same : s.link.bare.parameters = s.link.parameters := rfl
  simp only [onLink, Step.run_within]
  show ((Link.applyNegotiated packetSize maxPackets).run s.link.bare).1 = _ ∧
    ({ s.bare with link := ((Link.applyNegotiated packetSize maxPackets).run s.link.bare).2 } : Linked).bare = _
  unfold Link.applyNegotiated
  rw [Step.run_get_bind, Step.run_get_bind]
  dsimp only
  rw [same]
  split
  · exact ⟨rfl, rfl⟩
  split
  · exact ⟨rfl, rfl⟩
  · exact ⟨rfl, rfl⟩

/-- No call goes by what the link counts and reports. -/
theorem Call.step_blind (call : Call) : Blind call.step := by
  cases call with
  | negotiate packetSize maxPackets => exact .bind (negotiate_blind _ _) fun _ => .pure _
  | setTiming traffic intercharacter acknowledgement retries => exact .bind (.modify fun _ => rfl) fun _ => .pure _
  | forget => exact .bind forget_blind fun _ => .pure _
  | reset => exact .bind (.modify fun _ => rfl) fun _ => .pure _
  | send message => exact .bind (sendMessage_blind _) fun _ => .pure _
  | receive => exact .bind receiveMessage_blind fun _ => .pure _
  | request message => exact .bind (request_blind _) fun _ => .pure _
  | requestWithMinimum message minimum => exact .bind (requestWithMinimum_blind _ _) fun _ => .pure _
  | limits => exact .get_bind (fun _ => rfl) fun _ => .pure _
  | elsewhere x => exact .bind (onChannel_blind _) fun _ => .pure _

theorem replies_alike {s s' : Linked} (same : s.bare = s'.bare) (calls : List Call) :
    (replies calls s).1 = (replies calls s').1 ∧ (replies calls s).2.bare = (replies calls s').2.bare := by
  induction calls generalizing s s' with
  | nil => exact ⟨rfl, same⟩
  | cons call rest ih =>
    obtain ⟨result, left⟩ := call.step_blind.alike same
    obtain ⟨results, left⟩ := ih left
    refine ⟨?_, left⟩
    show (call.step.run s).1 :: (replies rest _).1 = (call.step.run s').1 :: (replies rest _).1
    rw [result, results]

/-- Links that differ only in what they count and report. -/
theorem indistinguishable_of_bare (same : l.bare = l'.bare) : Indistinguishable l l' := by
  intro c calls
  have same : bare ⟨c, l⟩ = bare ⟨c, l'⟩ := congrArg (Linked.mk c) same
  obtain ⟨results, left⟩ := replies_alike same calls
  have channel := congrArg Linked.channel left
  exact ⟨results, channel⟩

/-! ## What is agreed on -/

/-- The parameters after a call. -/
def Call.agreed (p : LinkParameters) : Call → LinkParameters
  | setTiming traffic intercharacter acknowledgement retries =>
    { p with traffic, intercharacter, acknowledgement, retries }
  | _ => p

/-- The parameters with the timing values that were agreed on last. -/
def agreed (p : LinkParameters) (calls : List Call) : LinkParameters := calls.foldl Call.agreed p

theorem converses_parameters : Converses (Same fun s => s.link.parameters) where
  channel _ _ _ := rfl
  counted _ _ := rfl
  toggled _ := rfl
  identified _ _ := rfl
  remembered _ _ _ := rfl

theorem Call.step_parameters (call : Call) (s : Linked) :
    (call.step.run s).2.link.parameters = call.agreed s.link.parameters := by
  have kept {call : Call} (h : Moves (Same fun s => s.link.parameters) call.step) :
      (call.step.run s).2.link.parameters = s.link.parameters := h s
  cases call with
  | negotiate packetSize maxPackets =>
    have negotiated : Moves (Same fun s => s.link.parameters) (onLink (Link.applyNegotiated packetSize maxPackets)) :=
      .within (Link.applyNegotiated_parameters packetSize maxPackets) fun _ _ same => same
    exact kept (.bind negotiated fun _ => .pure _)
  | setTiming traffic intercharacter acknowledgement retries => rfl
  | forget => rfl
  | reset => rfl
  | send message => exact kept (.bind (converses_parameters.sendMessage _) fun _ => .pure _)
  | receive => exact kept (.bind converses_parameters.receiveMessage fun _ => .pure _)
  | request message => exact kept (.bind (converses_parameters.request _) fun _ => .pure _)
  | requestWithMinimum message minimum =>
    exact kept (.bind (converses_parameters.requestWithMinimum _ _) fun _ => .pure _)
  | limits => rfl
  | elsewhere x => exact kept (.bind (fun _ => rfl) fun _ => .pure _)

theorem replies_parameters (calls : List Call) (s : Linked) :
    (replies calls s).2.link.parameters = agreed s.link.parameters calls := by
  induction calls generalizing s with
  | nil => rfl
  | cons call rest ih =>
    exact (ih _).trans (congrArg (agreed · rest) (call.step_parameters s))

/-- Only the timing values of the parameters are agreed on. -/
theorem agreed_eq (p : LinkParameters) (calls : List Call) :
    agreed p calls = { p with
      traffic := (agreed p calls).traffic
      intercharacter := (agreed p calls).intercharacter
      acknowledgement := (agreed p calls).acknowledgement
      retries := (agreed p calls).retries } := by
  induction calls generalizing p with
  | nil => rfl
  | cons call rest ih =>
    refine (ih (call.agreed p)).trans ?_
    cases call <;> rfl

/-! ## Telling links apart -/

/-- A channel on which nothing comes. It takes bytes, each time after `delay`. -/
def silent (delay : Duration) : Channel := { line := { writeDelay := delay }, connected := true }

theorem silent_lonely (delay : Duration) : (silent delay).Lonely delay where
  connected := rfl
  cancels := rfl
  cancelled := rfl
  items := nofun
  deadline := rfl
  ring := rfl
  arrivals := rfl
  answers := rfl
  writes := rfl
  flushes := rfl
  writeDelay := rfl
  flushDelay := rfl
  echoes := rfl
  autoEcho := rfl
  deadlineHit := rfl

namespace Indistinguishable

variable {c c' d : Channel} {m m' : Link} {r r' : Except Fault Reply}

/-- What is left of the channel after one call is the same. -/
theorem left (h : Indistinguishable l l') (call : Call) (run : call.step.run ⟨d, l⟩ = (r, ⟨c, m⟩))
    (run' : call.step.run ⟨d, l'⟩ = (r', ⟨c', m'⟩)) : c = c' := by
  have same : (call.step.run ⟨d, l⟩).2.channel = (call.step.run ⟨d, l'⟩).2.channel := (h d [call]).2
  rwa [run, run'] at same

variable (h : Indistinguishable l l') (turnaround : l'.parameters.turnaround = l.parameters.turnaround)

include h turnaround

/-- How often a message is asked for, and how long it is waited for. -/
theorem patience :
    l'.parameters.retries = l.parameters.retries ∧ l'.parameters.acknowledgement = l.parameters.acknowledgement := by
  obtain ⟨e, c, run, alone⟩ := receiveMessage_lonely (l := l) (silent_lonely 0)
  obtain ⟨e', c', run', alone'⟩ := receiveMessage_lonely (l := l') (silent_lonely 0)
  obtain rfl : c = c' := h.left .receive (Step.run_bind_of_error run) (Step.run_bind_of_error run')
  have asked : l.parameters.retries.toNat + 1 = l'.parameters.retries.toNat + 1 :=
    Nat.add_left_cancel (alone.sent.symm.trans alone'.sent)
  have retries : l'.parameters.retries = l.parameters.retries := UInt8.toNat_inj.1 (Nat.succ.inj asked).symm
  have waited := Nat.add_left_cancel (alone.now.symm.trans alone'.now)
  rw [retries, turnaround] at waited
  exact ⟨retries, (Nat.add_right_cancel (Nat.eq_of_mul_eq_mul_left (Nat.succ_pos _) waited)).symm⟩

/-- How long the rest of a packet is waited for. -/
theorem intercharacter : l'.parameters.intercharacter = l.parameters.intercharacter := by
  obtain ⟨retries, acknowledgement⟩ := h.patience turnaround
  have begun : ((Ring.withCapacity 2).put [startByte]).toList = [startByte] := by decide
  obtain ⟨e, c, run, alone⟩ := receiveMessage_begun (l := l) (silent_lonely 0) begun
  obtain ⟨e', c', run', alone'⟩ := receiveMessage_begun (l := l') (silent_lonely 0) begun
  obtain rfl : c = c' := h.left .receive (Step.run_bind_of_error run) (Step.run_bind_of_error run')
  have waited := Nat.add_left_cancel (alone.now.symm.trans alone'.now)
  rw [retries, acknowledgement, turnaround] at waited
  exact (Nat.add_right_cancel (Nat.add_right_cancel waited)).symm

/-- How long a packet may take to be sent, if any packet can be. -/
theorem traffic (room : packetOverhead < l.packetSize.toNat) (room' : packetOverhead < l'.packetSize.toNat) :
    l'.parameters.traffic = l.parameters.traffic := by
  -- a channel that is too slow for both
  let delay : Duration := max l.parameters.traffic l'.parameters.traffic + 1
  have slow : l.parameters.traffic < delay := Nat.lt_succ_of_le (Nat.le_max_left _ _)
  have slow' : l'.parameters.traffic < delay := Nat.lt_succ_of_le (Nat.le_max_right _ _)
  obtain ⟨e, ⟨c, m⟩, run, alone⟩ := sendMessage_slow room slow (silent_lonely delay)
  obtain ⟨e', ⟨c', m'⟩, run', alone'⟩ := sendMessage_slow room' slow' (silent_lonely delay)
  obtain rfl : c = c' := h.left (.send []) (Step.run_bind_of_error run) (Step.run_bind_of_error run')
  have waited := Nat.add_left_cancel (alone.now.symm.trans alone'.now)
  rw [(h.patience turnaround).1, turnaround] at waited
  exact (Nat.add_left_cancel (Nat.eq_of_mul_eq_mul_left (Nat.succ_pos _) waited)).symm

end Indistinguishable

/-! ## After a reset -/

variable (p : LinkParameters) (history : List Call)

/-- A link whose parameters took on other timing values can be told from a new one. -/
theorem agreed_eq_of_indistinguishable (room : packetOverhead < p.packetSize.toNat)
    (h : Indistinguishable (.ofParameters p) (.ofParameters (agreed p history))) : agreed p history = p := by
  have same := agreed_eq p history
  have turnaround : (agreed p history).turnaround = p.turnaround := by rw [same]
  have size : (Link.ofParameters (agreed p history)).packetSize = p.packetSize := by
    rw [same]
    rfl
  have traffic := h.traffic turnaround room (by rwa [size])
  have intercharacter := h.intercharacter turnaround
  obtain ⟨retries, acknowledgement⟩ := h.patience turnaround
  simp only [Link.ofParameters] at traffic intercharacter retries acknowledgement
  rw [same, traffic, intercharacter, retries, acknowledgement]

/-- **After a reset a link is a new one with the timing values that were agreed on last.** It is a new one with the
parameters it was made from exactly if these are the same. -/
theorem reset_indistinguishable (c : Channel) :
    let link := (replies history ⟨c, .ofParameters p⟩).2.link.reset
    Indistinguishable link (.ofParameters (agreed p history)) ∧
      (agreed p history = p → Indistinguishable link (.ofParameters p)) ∧
      (packetOverhead < p.packetSize.toNat → Indistinguishable link (.ofParameters p) → agreed p history = p) := by
  intro link
  have new : Indistinguishable link (.ofParameters (agreed p history)) := by
    have parameters : (replies history ⟨c, .ofParameters p⟩).2.link.parameters = agreed p history :=
      replies_parameters history ⟨c, .ofParameters p⟩
    refine indistinguishable_of_bare ?_
    rw [← parameters]
    rfl
  refine ⟨new, fun same => same ▸ new, fun room h => ?_⟩
  exact agreed_eq_of_indistinguishable p history room (h.symm.trans new)

/-- A meter that wants everything to be done within a second outlasts the reset. -/
theorem reset_distinguishable :
    ¬ Indistinguishable
      (replies [.setTiming (Duration.ofSeconds 1) (Duration.ofSeconds 1) (Duration.ofSeconds 1) 1]
        ⟨silent 0, .ofParameters (.ofConfig {})⟩).2.link.reset
      (.ofParameters (.ofConfig {})) := by
  intro h
  obtain ⟨retries, -⟩ := h.patience rfl
  exact absurd retries (by decide)

end Linked

end Metering
