import Metering.Proofs.Pace
import Metering.Proofs.Splitting
import Metering.Proofs.Transit

set_option autoImplicit false

/-! # The frames of a message

A message goes out as the encodings of its packets, whose toggle bits alternate from the one that is due
(`Linked.frames`). Each of them turns the toggle bit of the link, so a message of an odd number of packets
leaves another one due (`Linked.sendFrames_toggle`), and with another toggle bit due the same message has
other frames (`Packet.encodings_inj`). -/

namespace Metering

open Step (Moves Same)

namespace Control

theorem toggle_withToggle (c : Control) (toggle : Bool) : (c.withToggle toggle).toggle = toggle := by
  have bits : ∀ b : BitVec 8, (withToggle ⟨⟨b⟩⟩ toggle).toggle = toggle := by cases toggle <;> decide
  exact bits c.byte.toBitVec

theorem isMulti_withToggle (c : Control) (toggle : Bool) : (c.withToggle toggle).isMulti = c.isMulti := by
  have bits : ∀ b : BitVec 8, (withToggle ⟨⟨b⟩⟩ toggle).isMulti = isMulti ⟨⟨b⟩⟩ := by cases toggle <;> decide
  exact bits c.byte.toBitVec

theorem isFirst_withToggle (c : Control) (toggle : Bool) : (c.withToggle toggle).isFirst = c.isFirst := by
  have bits : ∀ b : BitVec 8, (withToggle ⟨⟨b⟩⟩ toggle).isFirst = isFirst ⟨⟨b⟩⟩ := by cases toggle <;> decide
  exact bits c.byte.toBitVec

end Control

namespace Packet

/-- The packet with a toggle bit. -/
def toggled (toggle : Bool) (p : Packet) : Packet := { p with control := p.control.withToggle toggle }

/-- The packets with alternating toggle bits. -/
def alternate : (toggle : Bool) → List Packet → List Packet
  | _, [] => []
  | toggle, p :: rest => p.toggled toggle :: alternate (!toggle) rest

/-- The encodings of the packets with alternating toggle bits. -/
def encodings (toggle : Bool) (packets : List Packet) : Except Fault (List Bytes) :=
  (alternate toggle packets).mapM encode

variable {toggle : Bool} {p : Packet} {packets : List Packet} {frames : List Bytes}

theorem encode_eq_ok (short : p.data.length ≤ 0xFFFF) : ∃ bytes, p.encode = .ok bytes :=
  ⟨_, if_neg (Nat.not_lt.2 short)⟩

theorem encodings_cons : encodings toggle (p :: packets) = .ok frames ↔
    ∃ bytes rest, (p.toggled toggle).encode = .ok bytes ∧ encodings (!toggle) packets = .ok rest ∧
      frames = bytes :: rest := by
  unfold encodings
  rw [alternate, List.mapM_cons]
  constructor
  · intro h
    obtain ⟨bytes, first, h⟩ := Step.except_bind_ok.1 h
    obtain ⟨rest, later, h⟩ := Step.except_bind_ok.1 h
    exact ⟨bytes, rest, first, later, (Except.ok.inj h).symm⟩
  · rintro ⟨bytes, rest, first, later, rfl⟩
    exact Step.except_bind_ok.2 ⟨bytes, first, Step.except_bind_ok.2 ⟨rest, later, rfl⟩⟩

/-- Packets that are not too long have encodings. -/
theorem encodings_ok (short : ∀ p ∈ packets, p.data.length ≤ 0xFFFF) :
    ∃ frames, encodings toggle packets = .ok frames := by
  induction packets generalizing toggle with
  | nil => exact ⟨[], rfl⟩
  | cons p packets ih =>
    obtain ⟨bytes, first⟩ := encode_eq_ok (p := p.toggled toggle) (short p List.mem_cons_self)
    obtain ⟨rest, later⟩ := ih (fun q hq => short q (List.mem_cons_of_mem p hq))
    exact ⟨bytes :: rest, encodings_cons.2 ⟨bytes, rest, first, later, rfl⟩⟩

theorem length_encodings (h : encodings toggle packets = .ok frames) : frames.length = packets.length := by
  induction packets generalizing toggle frames with
  | nil =>
    obtain rfl := Except.ok.inj h
    rfl
  | cons p packets ih =>
    obtain ⟨bytes, rest, -, later, rfl⟩ := encodings_cons.1 h
    rw [List.length_cons, List.length_cons, ih later]

/-- Every encoding is as long as the data of its packet and what stands around them. -/
theorem length_of_mem_encodings (h : encodings toggle packets = .ok frames) {frame : Bytes} (mem : frame ∈ frames) :
    ∃ p ∈ packets, frame.length = p.data.length + packetOverhead := by
  induction packets generalizing toggle frames with
  | nil =>
    obtain rfl := Except.ok.inj h
    cases mem
  | cons p packets ih =>
    obtain ⟨bytes, rest, first, later, rfl⟩ := encodings_cons.1 h
    rcases List.mem_cons.1 mem with rfl | mem
    · refine ⟨p, List.mem_cons_self, ?_⟩
      rw [(encode_ok first).1, List.length_cons, List.length_append, length_headerBytes, length_restBytes]
      simp only [toggled, packetHeaderLength, packetOverhead]
      omega
    · obtain ⟨q, hq, length⟩ := ih later mem
      exact ⟨q, List.mem_cons_of_mem p hq, length⟩

/-- The toggle bit of the first packet can be read from the encodings. -/
theorem encodings_inj {toggle' : Bool} {frames' : List Bytes} (some : packets ≠ [])
    (h : encodings toggle packets = .ok frames) (h' : encodings toggle' packets = .ok frames') :
    frames' = frames ↔ toggle' = toggle := by
  constructor
  · rintro rfl
    obtain ⟨p, packets, rfl⟩ := List.exists_cons_of_ne_nil some
    obtain ⟨bytes, rest, first, -, rfl⟩ := encodings_cons.1 h
    obtain ⟨bytes', rest', first', -, same⟩ := encodings_cons.1 h'
    obtain ⟨rfl, -⟩ := List.cons.inj same
    have whole := (encode_ok first).1.symm.trans (encode_ok first').1
    have control : (p.toggled toggle).control = (p.toggled toggle').control := by
      simp only [headerBytes, List.cons_append, List.cons.injEq] at whole
      exact congrArg Control.mk whole.2.2.1
    have toggles := congrArg Control.toggle control
    rw [toggled, toggled, Control.toggle_withToggle, Control.toggle_withToggle] at toggles
    exact toggles.symm
  · rintro rfl
    exact Except.ok.inj (h'.symm.trans h)

end Packet

namespace Linked

/-- The bytes that a message goes out as, packet by packet. -/
def frames (s : Linked) (message : Bytes) : Except Fault (List Bytes) := do
  let packets ←
    Packet.split s.link.parameters.identity s.link.parameters.dataFormat message s.link.packetSize.toNat
  Packet.encodings s.link.nextToggle packets

/-- Sends frames one after the other. -/
def sendFrames : List Bytes → Step Linked Unit
  | [] => return ()
  | bytes :: rest => do
    sendRepeatedly bytes (← parameters).retries.toNat
    changeLink fun l => { l with nextToggle := !l.nextToggle }
    sendFrames rest

/-- What a message is cut and encoded by, but for the toggle bit. -/
def terms (s : Linked) : LinkParameters × UInt16 × UInt8 := (s.link.parameters, s.link.packetSize, s.link.maxPackets)

theorem converses_terms : Converses (Same terms) where
  channel _ _ _ := rfl
  counted _ _ := rfl
  toggled _ := rfl
  identified _ _ := rfl
  remembered _ _ _ := rfl

theorem listens_nextToggle : Listens (Same fun s => s.link.nextToggle) where
  channel _ _ _ := rfl
  counted _ _ := rfl
  identified _ _ := rfl
  remembered _ _ _ := rfl

theorem sends_lastReceived : Sends (Same fun s => s.link.lastReceived) where
  channel _ _ _ := rfl
  counted _ _ := rfl
  toggled _ := rfl

variable {s s' : Linked} {message : Bytes} {frames : List Bytes}

/-- Packets that have encodings go out as these. -/
theorem sendPackets_run {packets : List Packet} (h : Packet.encodings s.link.nextToggle packets = .ok frames) :
    (sendPackets packets).run s = (sendFrames frames).run s := by
  induction packets generalizing s frames with
  | nil =>
    obtain rfl := Except.ok.inj h
    rfl
  | cons p packets ih =>
    obtain ⟨bytes, rest, first, later, rfl⟩ := Packet.encodings_cons.1 h
    have encoded : ({ p with control := p.control.withToggle s.link.nextToggle } : Packet).encode = .ok bytes := first
    have known : parameters.run s = (.ok s.link.parameters, s) := rfl
    unfold sendPackets sendFrames
    rw [Step.run_get_bind, Step.run_bind_of_ok known]
    dsimp only
    rw [encoded]
    show (sendRepeatedly bytes s.link.parameters.retries.toNat >>= _).run s = _
    rw [Step.run_bind, Step.run_bind]
    rcases sent : (sendRepeatedly bytes s.link.parameters.retries.toNat).run s with ⟨r, t⟩
    cases r with
    | error e => rfl
    | ok u =>
      -- the toggle bit that is due for the rest is the other one
      have due : t.link.nextToggle = s.link.nextToggle := (listens_nextToggle.sendRepeatedly _ _).of_run sent
      have turned : ({ t with link.nextToggle := !t.link.nextToggle } : Linked).link.nextToggle = !s.link.nextToggle :=
        congrArg (!·) due
      have next := ih (s := { t with link.nextToggle := !t.link.nextToggle }) (turned ▸ later)
      exact next

/-- **A message goes out as its frames.** -/
theorem sendMessage_run (h : s.frames message = .ok frames) : (sendMessage message).run s = (sendFrames frames).run s := by
  obtain ⟨packets, split, encoded⟩ := Step.except_bind_ok.1 h
  unfold sendMessage
  rw [Step.run_get_bind]
  dsimp only
  rw [split]
  exact sendPackets_run encoded

/-- A message that can be cut has frames, as many as it has packets. -/
theorem frames_of_split {packets : List Packet}
    (h : Packet.split s.link.parameters.identity s.link.parameters.dataFormat message s.link.packetSize.toNat = .ok packets) :
    ∃ frames, s.frames message = .ok frames ∧ Packet.encodings s.link.nextToggle packets = .ok frames := by
  have cut := Packet.split_ok h
  have small := s.link.packetSize.toNat_lt
  have short : ∀ p ∈ packets, p.data.length ≤ 0xFFFF := by
    intro p hp
    have := cut.sizes p hp
    omega
  obtain ⟨frames, encoded⟩ : ∃ frames, Packet.encodings s.link.nextToggle packets = .ok frames :=
    Packet.encodings_ok short
  exact ⟨frames, Step.except_bind_ok.2 ⟨packets, h, encoded⟩, encoded⟩

/-- A message that was sent has frames. -/
theorem frames_of_sent (h : (sendMessage message).run s = (.ok (), s')) : ∃ frames, s.frames message = .ok frames := by
  unfold sendMessage at h
  rw [Step.run_get_bind] at h
  obtain ⟨packets, t, split, -⟩ := Step.run_bind_ok.1 h
  rw [Step.run_ofExcept] at split
  obtain ⟨frames, framed, -⟩ := frames_of_split (Prod.mk.inj split).1
  exact ⟨frames, framed⟩

/-- Each frame turns the toggle bit that is due. -/
theorem sendFrames_toggle (h : (sendFrames frames).run s = (.ok (), s')) :
    s'.link.nextToggle = (s.link.nextToggle ^^ decide (frames.length % 2 = 1)) := by
  induction frames generalizing s with
  | nil =>
    obtain ⟨-, rfl⟩ := Prod.mk.inj h
    simp
  | cons bytes rest ih =>
    unfold sendFrames at h
    obtain ⟨p, t, known, h⟩ := Step.run_bind_ok.1 h
    obtain rfl := (Prod.mk.inj known).2
    obtain ⟨_, t, sent, h⟩ := Step.run_bind_ok.1 h
    obtain ⟨_, t', turned, h⟩ := Step.run_bind_ok.1 h
    obtain rfl := (Prod.mk.inj turned).2
    have due : t.link.nextToggle = s.link.nextToggle := (listens_nextToggle.sendRepeatedly _ _).of_run sent
    have turned : ({ t with link.nextToggle := !t.link.nextToggle } : Linked).link.nextToggle = !s.link.nextToggle :=
      congrArg (!·) due
    rw [ih h, turned, List.length_cons]
    rcases Nat.mod_two_eq_zero_or_one rest.length with even | odd
    · rw [show (rest.length + 1) % 2 = 1 by omega, even]
      simp
    · rw [show (rest.length + 1) % 2 = 0 by omega, odd]
      simp

/-- Links that agree on terms have the same frames for a message exactly if the same toggle bit is due. -/
theorem frames_eq_iff {frames' : List Bytes} (same : s'.terms = s.terms) (h : s.frames message = .ok frames)
    (h' : s'.frames message = .ok frames') : frames' = frames ↔ s'.link.nextToggle = s.link.nextToggle := by
  obtain ⟨parameters, size, -⟩ := Prod.mk.inj same |>.imp_right Prod.mk.inj
  obtain ⟨packets, split, encoded⟩ := Step.except_bind_ok.1 h
  obtain ⟨packets', split', encoded'⟩ := Step.except_bind_ok.1 h'
  rw [parameters, size] at split'
  obtain rfl := Except.ok.inj (split.symm.trans split')
  exact Packet.encodings_inj (Packet.split_ok split).some encoded encoded'

theorem length_frames (h : s.frames message = .ok frames) {packets : List Packet}
    (split : Packet.split s.link.parameters.identity s.link.parameters.dataFormat message s.link.packetSize.toNat = .ok packets) :
    frames.length = packets.length := by
  obtain ⟨packets', split', encoded⟩ := Step.except_bind_ok.1 h
  obtain rfl := Except.ok.inj (split.symm.trans split')
  exact Packet.length_encodings encoded

end Linked

end Metering
