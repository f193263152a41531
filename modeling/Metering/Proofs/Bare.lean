import Metering.Link.Request
import Metering.Proofs.Sees

set_option autoImplicit false

/-! # What a link goes by

What a link has counted and reported, and whose packet it heard last, is for others to read. Without these it is
`Link.bare`, and that is all a link goes by: a step is `Linked.Blind` if it sees no more of a link than this. Sending,
receiving and requests are blind. -/

namespace Metering

/-- A link without what it counts and reports. -/
def Link.bare (l : Link) : Link := { l with incomingIdentity := 0, statistics := {}, reports := [] }

namespace Linked

variable {α β : Type}

/-- The same on its channel. -/
def bare (s : Linked) : Linked := { s with link := s.link.bare }

instance : Step.Blanks bare := ⟨fun _ => rfl⟩

/-- What a step does does not depend on what the link counts and reports. -/
def Blind (x : Step Linked α) : Prop := Step.Sees bare x

/-! ## The parts of a link's work -/

theorem onChannel_blind (x : Step Channel α) : Blind (onChannel x) := fun _ => ⟨rfl, rfl⟩

theorem count_blind (g : LinkStatistics → LinkStatistics) : Blind (count g) := .modify fun _ => rfl

theorem forget_blind : Blind (changeLink Link.forget) := .modify fun _ => rfl

theorem parameters_blind : Blind parameters := fun _ => ⟨rfl, rfl⟩

/-! ## Sending -/

theorem writeControl_blind (byte : UInt8) : Blind (writeControl byte) :=
  .bind parameters_blind fun _ => .bind (onChannel_blind _) fun _ => .pure _

theorem turnAround_blind : Blind turnAround := .bind parameters_blind fun _ => onChannel_blind _

theorem skipStray_blind : Blind skipStray := by
  have stray : Blind readStray :=
    .bind parameters_blind fun _ => .bind (onChannel_blind _) fun _ => .get_bind (fun _ => rfl) fun _ =>
      .ite (.bind (onChannel_blind _) fun _ => .pure _) (.pure _)
  refine .bind (.outcome stray) fun r => ?_
  split
  · exact .throw _
  · exact .throw _
  · exact .pure _

theorem acknowledged_blind : Blind acknowledged :=
  .bind parameters_blind fun _ => .bind (onChannel_blind _) fun _ =>
    .ite (.pure _) (.ite (.bind (onChannel_blind _) fun _ => .throw_bind _ _) (.pure _))

theorem awaitAcknowledgement_blind (strays : Nat) : Blind (awaitAcknowledgement strays) := by
  induction strays with
  | zero => exact .bind acknowledged_blind fun _ => .ite (.throw _) (.pure _)
  | succ strays ih =>
    exact .bind acknowledged_blind fun _ => .ite (.bind skipStray_blind fun _ => .bind turnAround_blind fun _ =>
      .bind (writeControl_blind _) fun _ => ih) (.pure _)

theorem sendPacket_blind (bytes : Bytes) : Blind (sendPacket bytes) :=
  .bind parameters_blind fun _ => .bind turnAround_blind fun _ => .bind (onChannel_blind _) fun _ =>
    .bind (count_blind _) fun _ => awaitAcknowledgement_blind _

theorem sendRepeatedly_blind (bytes : Bytes) (retries : Nat) : Blind (sendRepeatedly bytes retries) := by
  induction retries with
  | zero => exact sendPacket_blind bytes
  | succ retries ih =>
    refine .bind (.outcome (sendPacket_blind bytes)) fun r => ?_
    cases r with
    | ok u => exact .pure _
    | error e =>
      exact .bind (.get_bind (fun _ => rfl) fun _ => .pure _) fun _ => .ite (.bind (count_blind _) fun _ => ih) (.throw _)

theorem sendPackets_blind (packets : List Packet) : Blind (sendPackets packets) := by
  induction packets with
  | nil => exact .pure _
  | cons packet rest ih =>
    exact .get_bind (fun _ => rfl) fun _ => .bind (.ofExcept _) fun _ => .bind (sendRepeatedly_blind _ _) fun _ =>
      .bind (.modify fun _ => rfl) fun _ => ih

/-- **Sending** is blind to what the link counts and reports. -/
theorem sendMessage_blind (message : Bytes) : Blind (sendMessage message) :=
  .get_bind (fun _ => rfl) fun _ => .bind (.ofExcept _) fun _ => sendPackets_blind _

/-! ## Receiving -/

theorem refuseLength_blind (length : Nat) : Blind (refuseLength length) :=
  .bind (count_blind _) fun _ => .bind parameters_blind fun _ => .bind (onChannel_blind _) fun _ =>
    .bind (onChannel_blind _) fun _ => .throw _

theorem receivePacket_blind (acceptDamaged : Bool) : Blind (receivePacket acceptDamaged) := by
  refine .bind parameters_blind fun p => .bind (onChannel_blind _) fun _ => .bind (onChannel_blind _) fun header => ?_
  refine .get_bind (fun _ => rfl) fun s => ?_
  have rest : Blind (do
      let rest ← onChannel (Channel.readExact (announcedLength header + 2) p.intercharacter)
      let data := rest.take (announcedLength header)
      let crc := UInt16.ofNat (Bytes.ofLittleEndian (rest.drop (announcedLength header)))
      if crc ≠ Crc.ofBytes ([startByte] ++ header ++ data) ∧ !acceptDamaged then
        count fun s => { s with checksumErrors := s.checksumErrors + 1 }
        throw (.frameInvalid .checksum)
      turnAround
      return (({ identity := header.getD 0 0, control := ⟨header.getD 1 0⟩,
                 sequence := header.getD 2 0, data } : Packet), crc)) :=
    .bind (onChannel_blind _) fun _ => .ite (.bind (count_blind _) fun _ => .throw_bind _ _)
      (.bind turnAround_blind fun _ => .pure _)
  exact .ite (.bind (refuseLength_blind _) fun _ => rest) rest

theorem refuse_blind : Blind refuse :=
  .bind turnAround_blind fun _ => .get_bind (fun _ => rfl) fun _ => .ite (writeControl_blind _) (.pure _)

theorem tryPacket_blind (a : Assembly) (lost : Bool) {again : Option (Bool → Step Linked Accepted)}
    (h : ∀ next ∈ again, ∀ lost, Blind (next lost)) : Blind (tryPacket a lost again) := by
  refine .bind (.outcome (receivePacket_blind _)) fun r => ?_
  cases r with
  | ok read =>
    obtain ⟨packet, crc⟩ := read
    refine .ite (.pure _) (.get_bind (fun _ => rfl) fun s => ?_)
    cases standing s.link.lastReceived packet.control.toggle crc with
    | new => exact .pure _
    | duplicate =>
      refine .bind (count_blind _) fun _ => .bind (writeControl_blind _) fun _ => ?_
      cases again with
      | none => exact .throw _
      | some next => exact h next rfl _
    | misplaced => exact .bind forget_blind fun _ => .bind (count_blind _) fun _ => .pure _
  | error e =>
    refine .get_bind (fun _ => rfl) fun s => .ite (.throw_bind _ _) (.ite ?_ (.ite (.pure _) (.ite (.throw_bind _ _) ?_)))
    · exact .bind (.modify fun _ => rfl) fun _ => .pure _
    · refine .bind refuse_blind fun _ => ?_
      cases again with
      | none => exact .throw _
      | some next => exact h next rfl _

theorem awaitPacket_blind (a : Assembly) (retries : Nat) (lost : Bool) : Blind (awaitPacket a retries lost) := by
  induction retries generalizing lost with
  | zero => exact tryPacket_blind a lost nofun
  | succ retries ih =>
    refine tryPacket_blind a lost fun next hnext lost => ?_
    obtain rfl := Option.some.inj hnext
    exact ih lost

theorem place_blind (a : Assembly) (p : Packet) (crc : UInt16) : Blind (place a p crc) :=
  .ite (.pure _) (.ite (.bind forget_blind fun _ => .bind (count_blind _) fun _ => .pure _)
    (.bind (.modify fun _ => rfl) fun _ => .pure _))

theorem receiveRound_blind (a : Assembly) : Blind (receiveRound a) := by
  refine .bind parameters_blind fun _ => .bind (awaitPacket_blind _ _ _) fun accepted => ?_
  cases accepted with
  | none => exact .pure _
  | some accepted =>
    exact .bind (count_blind _) fun _ => .bind (.modify fun _ => rfl) fun _ => .bind (writeControl_blind _) fun _ =>
      .bind (place_blind _ _ _) fun _ => .ite (.pure _) (.pure _)

/-- **Receiving** is blind to what the link counts and reports. -/
theorem receiveMessage_blind : Blind receiveMessage := by
  have left (s : Linked) : answersLeft s.bare = answersLeft s := rfl
  have more (s : Linked) : waiting s.bare = waiting s := rfl
  exact .get_bind (fun _ => rfl) fun _ => .repeatWhileFed left more receiveRound_blind _ _

/-! ## Requests -/

theorem exchange_blind (message : Bytes) : Blind (exchange message) :=
  .bind (sendMessage_blind _) fun _ => receiveMessage_blind

theorem prepareRepeat_blind : Blind prepareRepeat :=
  .bind forget_blind fun _ => .bind parameters_blind fun _ => onChannel_blind _

theorem requestRepeatedly_blind (message : Bytes) (retries : Nat) : Blind (requestRepeatedly message retries) := by
  induction retries with
  | zero =>
    refine .bind (exchange_blind _) fun received => ?_
    cases received with
    | message response => exact .pure _
    | repeatRequest => exact .throw _
  | succ retries ih =>
    refine .bind (exchange_blind _) fun received => ?_
    cases received with
    | message response => exact .pure _
    | repeatRequest => exact .bind prepareRepeat_blind fun _ => ih

theorem request_blind (message : Bytes) : Blind (request message) :=
  .bind parameters_blind fun _ => requestRepeatedly_blind _ _

theorem skipLeftovers_blind (minimum retries : Nat) (response : Bytes) :
    Blind (skipLeftovers minimum retries response) := by
  induction retries generalizing response with
  | zero => exact .ite (.throw _) (.pure _)
  | succ retries ih =>
    refine .ite (.bind forget_blind fun _ => .bind receiveMessage_blind fun received => ?_) (.pure _)
    cases received with
    | message response => exact ih response
    | repeatRequest => exact ih []

/-- **Requests** are blind to what the link counts and reports, also those that put the reports back. -/
theorem requestWithMinimum_blind (message : Bytes) (minimum : Nat) : Blind (requestWithMinimum message minimum) := by
  have answered : Blind (do
      let response ← request message
      skipLeftovers minimum (← parameters).retries.toNat response) :=
    .bind (request_blind _) fun _ => .bind parameters_blind fun _ => skipLeftovers_blind _ _ _
  intro s
  obtain ⟨result, left⟩ := answered s
  have restored (t t' : Linked) (reports reports' : List Nat) (same : t.bare = t'.bare) :
      ({ t with link.reports := reports } : Linked).bare = ({ t' with link.reports := reports' } : Linked).bare := same
  unfold requestWithMinimum
  rw [Step.run_get_bind, Step.run_get_bind, Step.run_outcome_bind, Step.run_outcome_bind, changeLink, changeLink,
    Step.run_modify_bind, Step.run_modify_bind, Step.run_ofExcept, Step.run_ofExcept, result]
  exact ⟨rfl, restored _ _ _ _ left⟩

end Linked

end Metering
