import Metering.Link.Request
import Metering.Proofs.Steps

set_option autoImplicit false

/-! # What sets the pace of a link

How long a packet may take on its way is decided by two durations: the silence that the channel allows
within a read, and the timeout that the link gives to each of its reads. Nothing that a channel or a
link does on its own changes either (`Linked.request_pace`).

What a link does is work on its channel, counted (`Linked.Works`); with each packet that it sent it turns
its toggle bit (`Linked.Sends`), and with what it hears it changes what it remembers of the meter
(`Linked.Listens`). A relation that respects all of these (`Linked.Converses`) is respected by a request. -/

namespace Metering

open Step (Moves Same)

variable {α : Type}

namespace Channel

/-- The silence allowed within a read is unchanged, and so is the deadline. Without one, none is noted as passed. -/
structure Paced (c c' : Channel) : Prop where
  silence : c'.intercharacter = c.intercharacter
  deadline : c'.deadline = c.deadline
  unnoted : c.deadline = none → c'.deadlineHit = c.deadlineHit

theorem Paced.same {c c' : Channel} (silence : c'.intercharacter = c.intercharacter) (deadline : c'.deadline = c.deadline)
    (noted : c'.deadlineHit = c.deadlineHit) : Paced c c' := ⟨silence, deadline, fun _ => noted⟩

instance : IsPreorder Channel Paced where
  refl _ := .same rfl rfl rfl
  trans _ _ _ h h' := ⟨h'.silence.trans h.silence, h'.deadline.trans h.deadline,
    fun none => (h'.unnoted (h.deadline.trans none)).trans (h.unnoted none)⟩

/-- The silence allowed within a read stays, and no deadline is noted that was not set. -/
abbrev KeepsPace (x : Step Channel α) : Prop := Moves Paced x

theorem onLine_pace (x : Step Line α) : KeepsPace (onLine x) := fun _ => .same rfl rfl rfl

theorem count_pace (f : ChannelStatistics → ChannelStatistics) : KeepsPace (count f) := fun _ => .same rfl rfl rfl

theorem drop_pace : KeepsPace drop := fun _ => .same rfl rfl rfl

theorem clearRing_pace : KeepsPace clearRing := fun _ => .same rfl rfl rfl

theorem orDrop_pace (x : Step Line α) : KeepsPace (orDrop x) := by
  refine .bind (.outcome (onLine_pace x)) fun r => ?_
  cases r with
  | ok a => exact .pure a
  | error e => exact .bind drop_pace fun _ => .throw e

theorem ensureConnected_pace : KeepsPace ensureConnected := .bind .get fun _ => .ite (.throw _) (.pure _)

theorem honourCancel_pace : KeepsPace (honourCancel : Step Channel α) :=
  .bind (.modify fun _ => .same rfl rfl rfl) fun _ => .throw _

theorem checkCancelled_pace : KeepsPace checkCancelled := .bind .get fun _ => .ite honourCancel_pace (.pure _)

/-- A deadline is noted only where one is set. -/
theorem noteDeadline_pace {c t : Channel} {deadline target : Moment} {byOperation : Bool}
    (capped : c.capped deadline = (target, byOperation)) (since : Paced c t) :
    Paced c ((noteDeadline byOperation).run t).2 := by
  cases byOperation with
  | false => exact since
  | true =>
    refine ⟨since.silence, since.deadline, fun none => ?_⟩
    rw [Channel.capped, none] at capped
    cases (Prod.mk.inj capped).2

theorem sleep_pace (d : Duration) : KeepsPace (sleep d) := by
  refine .get_bind fun c => ?_
  rcases capped : c.capped (c.now + d) with ⟨target, byOperation⟩
  dsimp only
  rcases c.line.pause target (!c.window.isActive) with ⟨wake, line⟩
  dsimp only
  rw [Step.run_set_bind]
  have since : Paced c { c with line } := .same rfl rfl rfl
  split
  · exact trans_of Paced since (honourCancel_pace (α := Unit) _)
  · have noted := noteDeadline_pace capped since
    cases byOperation <;> exact noted

theorem setBaud_pace (speed : Nat) : KeepsPace (setBaud speed) :=
  .bind ensureConnected_pace fun _ => onLine_pace _

theorem openUp_pace : KeepsPace openUp := by
  have opened : KeepsPace (do
      checkCancelled
      onLine Line.openUp
      clearRing
      modify ({ · with connected := true }) : Step Channel Unit) :=
    .bind checkCancelled_pace fun _ => .bind (onLine_pace _) fun _ => .bind clearRing_pace fun _ =>
      .modify fun _ => .same rfl rfl rfl
  exact .bind .get fun _ => .ite (.pure _) opened

theorem close_pace : KeepsPace close :=
  .bind .get fun _ => .ite (.pure _)
    (.bind (.outcome (onLine_pace _)) fun _ => .bind clearRing_pace fun _ => drop_pace)

/-! ## Reading and writing -/

theorem fill_pace (deadline : Moment) : KeepsPace (fill deadline) := by
  refine .get_bind fun c => ?_
  rcases capped : c.capped deadline with ⟨target, byOperation⟩
  dsimp only
  rw [Step.run_bind]
  have since := orDrop_pace (Line.read target (!c.window.isActive) readChunk) c
  rcases read : (orDrop (Line.read target (!c.window.isActive) readChunk)).run c with ⟨e | heard, t⟩
  all_goals rw [read] at since
  · exact since
  cases heard with
  | cancelled => exact trans_of Paced since (honourCancel_pace (α := Fill) t)
  | elapsed =>
    have noted := noteDeadline_pace capped since
    cases byOperation <;> exact noted
  | ended => exact trans_of Paced since (drop_pace t)
  | data bytes =>
    have kept : KeepsPace (do
        modify fun c : Channel => { c with input := c.input.put bytes }
        count fun s => { s with received := s.received + bytes.length }
        return Fill.data) :=
      .bind (.modify fun _ => .same rfl rfl rfl) fun _ => .bind (count_pace _) fun _ => .pure _
    exact trans_of Paced since (kept t)

theorem failTimeout_pace (n : Nat) : KeepsPace (failTimeout n : Step Channel α) :=
  .bind (count_pace _) fun _ => .throw _

theorem rounds_pace {β γ : Type} {round : β → Step Channel (β ⊕ γ)} (h : ∀ b, KeepsPace (round b)) (b : β) :
    KeepsPace (rounds round b) := .bind .get fun _ => .repeatUpTo h _ _

theorem fillRound_pace (wanted : Nat) (patience : Patience) (deadline : Moment) :
    KeepsPace (fillRound wanted patience deadline) := by
  refine .bind .get fun c => .ite (.pure _) (.bind (fill_pace _) fun heard => ?_)
  cases heard with
  | elapsed => exact .bind .get fun _ => failTimeout_pace _
  | data =>
    refine .bind .get fun c => ?_
    cases patience <;> exact .pure _

theorem fillTo_pace (wanted : Nat) (patience : Patience) : KeepsPace (fillTo wanted patience) :=
  .bind .get fun _ => rounds_pace (fillRound_pace wanted patience) _

theorem readExactly_pace (n : Nat) (patience : Patience) : KeepsPace (readExactly n patience) := by
  refine .bind ensureConnected_pace fun _ => .bind (.outcome (fillTo_pace _ _)) fun r => ?_
  cases r with
  | ok u => exact fun _ => .same rfl rfl rfl
  | error e => exact .ite (.bind clearRing_pace fun _ => .throw _) (.throw _)

theorem startRound_pace (wanted : Bytes) (deadline : Moment) (garbage : Nat) :
    KeepsPace (startRound wanted deadline garbage) := by
  refine .get_bind fun c => ?_
  rcases c.input.discardUntil wanted with ⟨⟨dropped, found⟩, input⟩
  dsimp only
  rw [Step.run_set_bind]
  have taken : Paced c { c with input } := .same rfl rfl rfl
  split
  · exact taken
  · refine trans_of Paced taken ((Moves.bind (fill_pace _) fun heard => ?_ : KeepsPace _) { c with input })
    cases heard with
    | elapsed => exact failTimeout_pace _
    | data => exact .pure _

theorem readStart_pace (wanted : Bytes) (timeout : Duration) : KeepsPace (readStart wanted timeout) := by
  have waited : KeepsPace (waitStart wanted timeout) :=
    .bind ensureConnected_pace fun _ => .bind .get fun _ => rounds_pace (startRound_pace wanted _) _
  have dropped : KeepsPace (discard 1) := fun _ => .same rfl rfl rfl
  exact .bind waited fun _ => .bind dropped fun _ => .pure _

theorem clearInput_pace : KeepsPace clearInput := by
  refine .bind ensureConnected_pace fun _ => .bind clearRing_pace fun _ => rounds_pace (fun _ => ?_) _
  refine .bind .get fun _ => .bind (onLine_pace _) fun heard => ?_
  cases heard with
  | data bytes => exact .pure _
  | ended => exact .bind drop_pace fun _ => .throw _
  | elapsed => exact .pure _
  | cancelled => exact .pure _

theorem writeRound_pace (deadline : Moment) (p : Bytes × Nat) : KeepsPace (writeRound deadline p) := by
  refine .ite (.pure _) (.bind (orDrop_pace _) fun taken => ?_)
  match taken with
  | none => exact .throw _
  | some 0 => exact .bind drop_pace fun _ => .throw _
  | some (n + 1) => exact .pure _

theorem echoRound_pace (sent : Bytes) (timeout : Duration) (deadline : Moment) :
    KeepsPace (echoRound sent timeout deadline) := by
  refine .bind .get fun c => .ite ?_ (.ite ?_ ?_)
  · exact .bind clearRing_pace fun _ => .bind (count_pace _) fun _ => .throw_bind _ _
  · exact .bind (fun _ => .same rfl rfl rfl) fun _ => .pure _
  · refine .bind (fill_pace _) fun heard => ?_
    cases heard with
    | data => exact .bind .get fun _ => .pure _
    | elapsed => exact .throw _

theorem transmit_pace (bytes : Bytes) (timeout : Duration) : KeepsPace (transmit bytes timeout) := by
  refine .bind .get fun c => .bind (.repeatUpTo (writeRound_pace _) _ _) fun written => ?_
  have echoed : KeepsPace (do
      count fun s => { s with sent := s.sent + bytes.length }
      let c ← get
      if c.line.echoes then
        checkEcho bytes (if c.intercharacter = 0 then timeout else c.intercharacter)
      return written) := by
    refine .bind (count_pace _) fun _ => .bind .get fun c => .ite (.bind ?_ fun _ => .pure _) (.pure _)
    exact .bind .get fun _ => rounds_pace (echoRound_pace _ _) _
  exact .bind (onLine_pace _) fun _ => .ite (.throw_bind _ _) echoed

theorem write_pace (bytes : Bytes) (timeout : Duration) : KeepsPace (write bytes timeout) := by
  refine .bind ensureConnected_pace fun _ => .bind checkCancelled_pace fun _ => ?_
  exact .bind (.modify fun _ => .same rfl rfl rfl) fun _ => .bind (.outcome (transmit_pace _ _)) fun _ =>
    .bind (.modify fun _ => .same rfl rfl rfl) fun _ => .ofExcept _

end Channel

theorem Link.applyNegotiated_parameters (packetSize : UInt16) (maxPackets : UInt8) :
    Moves (Same parameters) (applyNegotiated packetSize maxPackets) := by
  refine .get_bind fun l => ?_
  dsimp only
  split
  · rfl
  split
  · rfl
  · rfl

namespace Linked

/-! ## What a link does -/

/-- A relation that respects work on the channel and its counting. -/
structure Works (R : Linked → Linked → Prop) : Prop where
  channel (s : Linked) (c : Channel) (paced : Channel.Paced s.channel c) : R s { s with channel := c }
  counted (s : Linked) (n : LinkStatistics) : R s { s with link.statistics := n }

/-- A relation that respects sending. -/
structure Sends (R : Linked → Linked → Prop) : Prop extends Works R where
  toggled (s : Linked) : R s { s with link.nextToggle := !s.link.nextToggle }

/-- A relation that respects what is remembered of the meter. -/
structure Listens (R : Linked → Linked → Prop) : Prop extends Works R where
  identified (s : Linked) (identity : UInt8) : R s { s with link.incomingIdentity := identity }
  remembered (s : Linked) (last : Option (Bool × UInt16)) (reports : List Nat) :
    R s { s with link := { s.link with lastReceived := last, reports } }

/-- A relation that respects sending and receiving. -/
structure Converses (R : Linked → Linked → Prop) : Prop extends Sends R, Listens R

namespace Works

variable {R : Linked → Linked → Prop} (w : Works R)

include w

theorem onChannel {x : Step Channel α} (h : Channel.KeepsPace x) : Moves R (Linked.onChannel x) :=
  .within h fun s c paced => w.channel s c paced

theorem count (f : LinkStatistics → LinkStatistics) : Moves R (Linked.count f) := .modify fun s => w.counted s _

theorem readExact (n : Nat) (timeout : Duration) : Moves R (Linked.onChannel (Channel.readExact n timeout)) :=
  w.onChannel (Channel.readExactly_pace _ _)

variable [IsPreorder Linked R]

omit w in
theorem parameters : Moves R Linked.parameters := .bind .get fun _ => .pure _

theorem writeControl (byte : UInt8) : Moves R (Linked.writeControl byte) :=
  .bind parameters fun _ => .bind (w.onChannel (Channel.write_pace _ _)) fun _ => .pure _

theorem turnAround : Moves R Linked.turnAround := .bind parameters fun _ => w.onChannel (Channel.sleep_pace _)

theorem skipStray : Moves R Linked.skipStray := by
  have stray : Moves R readStray :=
    .bind parameters fun _ => .bind (w.readExact _ _) fun _ => .bind .get fun _ =>
      .ite (.bind (w.readExact _ _) fun _ => .pure _) (.pure _)
  refine .bind (.outcome stray) fun r => ?_
  split
  · exact .throw _
  · exact .throw _
  · exact .pure _

theorem acknowledged : Moves R Linked.acknowledged := by
  refine .bind parameters fun _ => .bind (w.onChannel (Channel.readStart_pace _ _)) fun byte => ?_
  exact .ite (.pure _) (.ite (.bind (w.onChannel Channel.clearInput_pace) fun _ => .throw_bind _ _) (.pure _))

theorem awaitAcknowledgement (strays : Nat) : Moves R (Linked.awaitAcknowledgement strays) := by
  induction strays with
  | zero => exact .bind w.acknowledged fun _ => .ite (.throw _) (.pure _)
  | succ strays ih =>
    exact .bind w.acknowledged fun _ => .ite (.bind w.skipStray fun _ => .bind w.turnAround fun _ =>
      .bind (w.writeControl _) fun _ => ih) (.pure _)

theorem sendPacket (bytes : Bytes) : Moves R (Linked.sendPacket bytes) :=
  .bind parameters fun _ => .bind w.turnAround fun _ => .bind (w.onChannel (Channel.write_pace _ _)) fun _ =>
    .bind (w.count _) fun _ => w.awaitAcknowledgement _

theorem sendRepeatedly (bytes : Bytes) (retries : Nat) : Moves R (Linked.sendRepeatedly bytes retries) := by
  induction retries with
  | zero => exact w.sendPacket bytes
  | succ retries ih =>
    refine .bind (.outcome (w.sendPacket bytes)) fun r => ?_
    cases r with
    | ok u => exact .pure _
    | error e => exact .bind (.bind .get fun _ => .pure _) fun _ => .ite (.bind (w.count _) fun _ => ih) (.throw _)

theorem refuseLength (length : Nat) : Moves R (Linked.refuseLength length) :=
  .bind (w.count _) fun _ => .bind parameters fun _ => .bind (w.onChannel (Channel.sleep_pace _)) fun _ =>
    .bind (w.onChannel Channel.clearInput_pace) fun _ => .throw _

theorem receivePacket (acceptDamaged : Bool) : Moves R (Linked.receivePacket acceptDamaged) := by
  refine .bind parameters fun p => .bind (w.onChannel (Channel.readStart_pace _ _)) fun _ => ?_
  refine .bind (w.readExact _ _) fun header => .bind .get fun s => ?_
  have rest : Moves R (do
      let rest ← Linked.onChannel (Channel.readExact (announcedLength header + 2) p.intercharacter)
      let data := rest.take (announcedLength header)
      let crc := UInt16.ofNat (Bytes.ofLittleEndian (rest.drop (announcedLength header)))
      if crc ≠ Crc.ofBytes ([startByte] ++ header ++ data) ∧ !acceptDamaged then
        Linked.count fun s => { s with checksumErrors := s.checksumErrors + 1 }
        throw (.frameInvalid .checksum)
      Linked.turnAround
      return (({ identity := header.getD 0 0, control := ⟨header.getD 1 0⟩,
                 sequence := header.getD 2 0, data } : Packet), crc)) :=
    .bind (w.readExact _ _) fun rest => .ite (.bind (w.count _) fun _ => .throw_bind _ _)
      (.bind w.turnAround fun _ => .pure _)
  exact .ite (.bind (w.refuseLength _) fun _ => rest) rest

theorem refuse : Moves R Linked.refuse :=
  .bind w.turnAround fun _ => .bind .get fun _ => .ite (w.writeControl _) (.pure _)

end Works

section Sending

variable {R : Linked → Linked → Prop} [IsPreorder Linked R] (w : Sends R)

include w

theorem Sends.sendPackets (packets : List Packet) : Moves R (Linked.sendPackets packets) := by
  induction packets with
  | nil => exact .pure _
  | cons packet rest ih =>
    exact .bind .get fun _ => .bind (.ofExcept _) fun _ => .bind (w.sendRepeatedly _ _) fun _ =>
      .bind (.modify w.toggled) fun _ => ih

theorem Sends.sendMessage (message : Bytes) : Moves R (Linked.sendMessage message) :=
  .bind .get fun _ => .bind (.ofExcept _) fun _ => w.sendPackets _

end Sending

section Listening

variable {R : Linked → Linked → Prop} (w : Listens R)

include w

theorem Listens.forget : Moves R (changeLink Link.forget) := .modify fun s => w.remembered s none s.link.reports

variable [IsPreorder Linked R]

theorem Listens.place (a : Assembly) (p : Packet) (crc : UInt16) : Moves R (Linked.place a p crc) := by
  refine .ite (.pure _) (.ite ?_ (.bind (.modify fun s => w.remembered s _ _) fun _ => .pure _))
  exact .bind w.forget fun _ => .bind (w.count _) fun _ => .pure _

theorem Listens.prepareRepeat : Moves R Linked.prepareRepeat :=
  .bind w.forget fun _ => .bind Works.parameters fun _ => w.onChannel (Channel.sleep_pace _)

end Listening

namespace Converses

variable {R : Linked → Linked → Prop} [IsPreorder Linked R] (w : Converses R)

include w

theorem tryPacket (a : Assembly) (lost : Bool) {again : Option (Bool → Step Linked Accepted)}
    (h : ∀ next ∈ again, ∀ lost, Moves R (next lost)) : Moves R (Linked.tryPacket a lost again) := by
  refine .bind (.outcome (w.receivePacket _)) fun r => ?_
  cases r with
  | ok read =>
    obtain ⟨packet, crc⟩ := read
    refine .ite (.pure _) (.bind .get fun s => ?_)
    cases standing s.link.lastReceived packet.control.toggle crc with
    | new => exact .pure _
    | duplicate =>
      refine .bind (w.count _) fun _ => .bind (w.writeControl _) fun _ => ?_
      cases again with
      | none => exact .throw _
      | some next => exact h next rfl _
    | misplaced => exact .bind w.forget fun _ => .bind (w.count _) fun _ => .pure _
  | error e =>
    refine .bind .get fun s => .ite (.throw_bind _ _) (.ite ?_ (.ite (.pure _) (.ite (.throw_bind _ _) ?_)))
    · exact .bind (.modify w.toggled) fun _ => .pure _
    · refine .bind w.refuse fun _ => ?_
      cases again with
      | none => exact .throw _
      | some next => exact h next rfl _

theorem awaitPacket (a : Assembly) (retries : Nat) (lost : Bool) : Moves R (Linked.awaitPacket a retries lost) := by
  induction retries generalizing lost with
  | zero => exact w.tryPacket a lost nofun
  | succ retries ih =>
    refine w.tryPacket a lost fun next hnext lost => ?_
    obtain rfl := Option.some.inj hnext
    exact ih lost

theorem receiveRound (a : Assembly) : Moves R (Linked.receiveRound a) := by
  refine .bind Works.parameters fun _ => .bind (w.awaitPacket _ _ _) fun accepted => ?_
  cases accepted with
  | none => exact .pure _
  | some accepted =>
    exact .bind (w.count _) fun _ => .bind (.modify fun s => w.identified s _) fun _ =>
      .bind (w.writeControl _) fun _ => .bind (w.place _ _ _) fun _ => .ite (.pure _) (.pure _)

theorem receiveMessage : Moves R Linked.receiveMessage :=
  .bind .get fun _ => .repeatWhileFed w.receiveRound _ _

/-! ### Requests -/

theorem exchange (message : Bytes) : Moves R (Linked.exchange message) :=
  .bind (w.sendMessage _) fun _ => w.receiveMessage

theorem requestRepeatedly (message : Bytes) (retries : Nat) : Moves R (Linked.requestRepeatedly message retries) := by
  induction retries with
  | zero =>
    refine .bind (w.exchange _) fun received => ?_
    cases received with
    | message response => exact .pure _
    | repeatRequest => exact .throw _
  | succ retries ih =>
    refine .bind (w.exchange _) fun received => ?_
    cases received with
    | message response => exact .pure _
    | repeatRequest => exact .bind w.prepareRepeat fun _ => ih

theorem request (message : Bytes) : Moves R (Linked.request message) :=
  .bind Works.parameters fun _ => w.requestRepeatedly _ _

theorem skipLeftovers (minimum retries : Nat) (response : Bytes) :
    Moves R (Linked.skipLeftovers minimum retries response) := by
  induction retries generalizing response with
  | zero => exact .ite (.throw _) (.pure _)
  | succ retries ih =>
    refine .ite (.bind w.forget fun _ => .bind w.receiveMessage fun received => ?_) (.pure _)
    cases received with
    | message response => exact ih response
    | repeatRequest => exact ih []

theorem requestWithMinimum (message : Bytes) (minimum : Nat) :
    Moves R (Linked.requestWithMinimum message minimum) := by
  have answered : Moves R (do
      let response ← Linked.request message
      Linked.skipLeftovers minimum (← Linked.parameters).retries.toNat response) :=
    .bind (w.request _) fun _ => .bind Works.parameters fun _ => w.skipLeftovers _ _ _
  exact .bind .get fun _ => .bind (.outcome answered) fun _ =>
    .bind (.modify fun s => w.remembered s s.link.lastReceived _) fun _ => .ofExcept _

end Converses

/-! ## The pace of a link -/

/-- What decides how long a packet may take. -/
def pace (s : Linked) : Duration × LinkParameters := (s.channel.intercharacter, s.link.parameters)

/-- What decides how long a packet may take is unchanged, and no deadline is noted that was not set. -/
structure Paced (s s' : Linked) : Prop where
  parameters : s'.link.parameters = s.link.parameters
  channel : Channel.Paced s.channel s'.channel

instance : IsPreorder Linked Paced where
  refl s := ⟨rfl, refl_of Channel.Paced s.channel⟩
  trans _ _ _ h h' := ⟨h'.parameters.trans h.parameters, trans_of Channel.Paced h.channel h'.channel⟩

theorem Paced.pace_eq {s s' : Linked} (h : Paced s s') : s'.pace = s.pace := by
  rw [pace, pace, h.parameters, h.channel.silence]

abbrev KeepsPace (x : Step Linked α) : Prop := Moves Paced x

theorem paced_of_link {s s' : Linked} (parameters : s'.link.parameters = s.link.parameters)
    (channel : s'.channel = s.channel) : Paced s s' := ⟨parameters, channel ▸ refl_of Channel.Paced s.channel⟩

theorem converses_pace : Converses Paced where
  channel _ _ paced := ⟨rfl, paced⟩
  counted _ _ := paced_of_link rfl rfl
  toggled _ := paced_of_link rfl rfl
  identified _ _ := paced_of_link rfl rfl
  remembered _ _ _ := paced_of_link rfl rfl

theorem changeLink_pace {f : Link → Link} (h : ∀ l, (f l).parameters = l.parameters) : KeepsPace (changeLink f) :=
  .modify fun s => paced_of_link (h s.link) rfl

theorem onLink_pace {x : Step Link α} (h : Moves (Same Link.parameters) x) : KeepsPace (onLink x) :=
  .within h fun _ _ same => paced_of_link same rfl

theorem parameters_pace : KeepsPace parameters := Works.parameters

/-- **A request** keeps the pace of the link. -/
theorem request_pace (message : Bytes) : KeepsPace (request message) := converses_pace.request message

theorem requestWithMinimum_pace (message : Bytes) (minimum : Nat) : KeepsPace (requestWithMinimum message minimum) :=
  converses_pace.requestWithMinimum message minimum

end Linked

end Metering
