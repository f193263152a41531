import Mathlib.Logic.Relation
import Metering.Link.Receive
import Metering.Proofs.Channel
import Metering.Proofs.Packet

set_option autoImplicit false

/-! # Receiving one packet

A packet that is read clean is a frame of the line (`Framed`): the bytes that were consumed, after
garbage, decode to it. What comes before it may be tries that gave nothing new (`Passes`): a try
that failed and was refused, or the last accepted packet once more, which was acknowledged. Neither
changes what the link remembers of the packets it accepted. -/

namespace Metering

/-- The bytes of a packet on the line, with the packet they decode to. -/
structure Framed where
  bytes : Bytes
  packet : Packet
  decodes : Packet.decode bytes = .ok packet

/-- The checksum at the end of the bytes. -/
def Framed.checksum (f : Framed) : UInt16 :=
  .ofNat (Bytes.ofLittleEndian (f.bytes.drop (f.packet.data.length + packetHeaderLength)))

def Framed.toggle (f : Framed) : Bool := f.packet.control.toggle

namespace Linked

open Step (Moves Same)

variable {α : Type}

/-- What the link goes by when it accepts packets: the agreed size, and the last one it accepted. -/
def memory (s : Linked) : UInt16 × Option (Bool × UInt16) := (s.link.packetSize, s.link.lastReceived)

/-- Nothing was consumed, nothing was sent, and the memory is the same. -/
def Idles (s s' : Linked) : Prop := Channel.Quiet s.channel s'.channel ∧ s'.memory = s.memory

/-- Something may have been consumed, nothing was sent, and the memory is the same. -/
def Hears (s s' : Linked) : Prop := Channel.Reads s.channel s'.channel ∧ s'.memory = s.memory

instance : IsPreorder Linked Idles where
  refl s := ⟨refl_of Channel.Quiet s.channel, rfl⟩
  trans _ _ _ h h' := ⟨trans_of Channel.Quiet h.1 h'.1, h'.2.trans h.2⟩

instance : IsPreorder Linked Hears where
  refl s := ⟨refl_of Channel.Reads s.channel, rfl⟩
  trans _ _ _ h h' := ⟨trans_of Channel.Reads h.1 h'.1, h'.2.trans h.2⟩

theorem Idles.hears {s s' : Linked} (h : Idles s s') : Hears s s' := ⟨h.1.reads, h.2⟩

theorem onChannel_hears {x : Step Channel α} (h : Moves Channel.Reads x) : Moves Hears (onChannel x) :=
  .within h fun _ _ read => ⟨read, rfl⟩

theorem onChannel_idles {x : Step Channel α} (h : Moves Channel.Quiet x) : Moves Idles (onChannel x) :=
  .within h fun _ _ quiet => ⟨quiet, rfl⟩

theorem count_idles (f : LinkStatistics → LinkStatistics) : Moves Idles (count f) :=
  .modify fun s => ⟨refl_of Channel.Quiet s.channel, rfl⟩

theorem parameters_idles : Moves Idles parameters := .bind .get fun _ => .pure _

theorem turnAround_idles : Moves Idles turnAround :=
  .bind parameters_idles fun _ => onChannel_idles (Channel.sleep_quiet _)

theorem refuseLength_hears (length : Nat) : Moves Hears (refuseLength length) := by
  refine .bind ((count_idles _).mono fun _ _ => Idles.hears) fun _ => ?_
  refine .bind (parameters_idles.mono fun _ _ => Idles.hears) fun p => ?_
  refine .bind ((onChannel_idles (Channel.sleep_quiet _)).mono fun _ _ => Idles.hears) fun _ => ?_
  exact .bind (onChannel_hears Channel.clearInput_reads) fun _ => .throw _

/-! ## Reading a packet -/

theorem receivePacket_hears (acceptDamaged : Bool) : Moves Hears (receivePacket acceptDamaged) := by
  refine .bind (parameters_idles.mono fun _ _ => Idles.hears) fun p => ?_
  refine .bind (onChannel_hears (Channel.readStart_reads _ _)) fun _ => ?_
  refine .bind (onChannel_hears (Channel.readExactly_reads _ _)) fun header => ?_
  refine .bind .get fun s => ?_
  have rest : Moves Hears (do
      let rest ← onChannel (Channel.readExact (announcedLength header + 2) p.intercharacter)
      let data := rest.take (announcedLength header)
      let crc := UInt16.ofNat (Bytes.ofLittleEndian (rest.drop (announcedLength header)))
      if crc ≠ Crc.ofBytes ([startByte] ++ header ++ data) ∧ !acceptDamaged then
        count fun s => { s with checksumErrors := s.checksumErrors + 1 }
        throw (.frameInvalid .checksum)
      turnAround
      return (Packet.read header data, crc)) := by
    refine .bind (onChannel_hears (Channel.readExactly_reads _ _)) fun rest => ?_
    refine .ite ?_ ?_
    · exact .bind ((count_idles _).mono fun _ _ => Idles.hears) fun _ => .throw_bind _ _
    · exact .bind (turnAround_idles.mono fun _ _ => Idles.hears) fun _ => .pure _
  exact .ite (.bind (refuseLength_hears _) fun _ => rest) rest

theorem refuseLength_ne_ok (length : Nat) (s s' : Linked) :
    (refuseLength length).run s ≠ (.ok (), s') := by
  intro h
  obtain ⟨_, _, _, h⟩ := Step.run_bind_ok.1 h
  obtain ⟨_, _, _, h⟩ := Step.run_bind_ok.1 h
  obtain ⟨_, _, _, h⟩ := Step.run_bind_ok.1 h
  obtain ⟨_, _, _, h⟩ := Step.run_bind_ok.1 h
  exact absurd h Step.run_throw_ne_ok

theorem onChannel_ok {x : Step Channel α} {s s' : Linked} {a : α}
    (h : (onChannel x).run s = (.ok a, s')) :
    x.run s.channel = (.ok a, s'.channel) ∧ s'.link = s.link := by
  obtain ⟨c, run, rfl⟩ := Step.run_within_eq.1 h
  exact ⟨run, rfl⟩

/-- **A packet that is read clean** is what a frame of the line decodes to. The frame is consumed
with the garbage in front of it, and nothing is sent. -/
theorem receivePacket_ok {s s' : Linked} {p : Packet} {crc : UInt16}
    (h : (receivePacket false).run s = (.ok (p, crc), s')) :
    ∃ f : Framed, f.packet = p ∧ f.checksum = crc ∧ 1 ≤ p.data.length ∧
      p.data.length + packetOverhead ≤ s.link.packetSize.toNat ∧
      ∃ garbage, Channel.Observed s.channel s'.channel (garbage ++ f.bytes) [] := by
  obtain ⟨_, s0, found, h⟩ := Step.run_bind_ok.1 h
  obtain rfl := (Prod.mk.inj found).2
  obtain ⟨start, s1, started, h⟩ := Step.run_bind_ok.1 h
  obtain ⟨header, s2, headed, h⟩ := Step.run_bind_ok.1 h
  rw [Step.run_get_bind] at h
  obtain ⟨started, link1⟩ := onChannel_ok started
  obtain ⟨headed, link2⟩ := onChannel_ok headed
  obtain ⟨isStart, garbage, observed1⟩ := Channel.readStart_ok started
  obtain ⟨headerLength, observed2⟩ := Channel.readExactly_ok headed
  obtain rfl : start = startByte := by simpa using isStart
  -- a bad length is refused, and then there is no packet
  by_cases bad : announcedLength header = 0 ∨ announcedLength header > s2.link.maxData
  · rw [if_pos bad] at h
    obtain ⟨_, _, refused, -⟩ := Step.run_bind_ok.1 h
    exact absurd refused (refuseLength_ne_ok _ _ _)
  rw [if_neg bad] at h
  obtain ⟨rest, s3, rested, h⟩ := Step.run_bind_ok.1 h
  obtain ⟨rested, link3⟩ := onChannel_ok rested
  obtain ⟨restLength, observed3⟩ := Channel.readExactly_ok rested
  dsimp only at h
  split at h
  · obtain ⟨_, _, _, h⟩ := Step.run_bind_ok.1 h
    exact absurd h Step.run_throw_ne_ok
  next good =>
  obtain ⟨_, s4, turned, h⟩ := Step.run_bind_ok.1 h
  obtain ⟨hp, rfl⟩ := Prod.mk.inj h
  obtain ⟨rfl, rfl⟩ := Prod.mk.inj (Except.ok.inj hp)
  have hcrc : UInt16.ofNat (Bytes.ofLittleEndian (rest.drop (announcedLength header))) =
      Crc.ofBytes (Packet.frameOf header (rest.take (announcedLength header))) :=
    Decidable.byContradiction fun wrong => good ⟨wrong, rfl⟩
  have decodes := Packet.decode_frameOf headerLength restLength hcrc
  have dataLength : (rest.take (announcedLength header)).length = announcedLength header := by
    rw [List.length_take, restLength]
    omega
  have size : s2.link.maxData = s.link.packetSize.toNat - packetOverhead := by
    rw [link2, link1]
    rfl
  refine ⟨⟨_, _, decodes⟩, rfl, ?_, ?_, ?_, garbage, ?_⟩
  · show UInt16.ofNat (Bytes.ofLittleEndian ((Packet.frameOf header rest).drop
      ((rest.take (announcedLength header)).length + packetHeaderLength))) = _
    rw [dataLength, Packet.drop_frameOf headerLength]
  · show 1 ≤ (rest.take (announcedLength header)).length
    omega
  · show (rest.take (announcedLength header)).length + packetOverhead ≤ _
    omega
  · have frame : garbage ++ Packet.frameOf header rest = garbage ++ [startByte] ++ header ++ rest := by
      simp [Packet.frameOf]
    show Channel.Observed s.channel s4.channel (garbage ++ Packet.frameOf header rest) []
    rw [frame]
    simpa using ((observed1.trans observed2).trans observed3).trans (turnAround_idles.of_run turned).1

/-! ## Waiting for a new packet -/

/-- **A control byte that was sent** is all that was sent, and nothing but an echo was consumed. -/
theorem writeControl_ok {byte : UInt8} {s s' : Linked} (h : (writeControl byte).run s = (.ok (), s')) :
    (∃ echo, Channel.Observed s.channel s'.channel echo [byte]) ∧ s'.link = s.link := by
  obtain ⟨p, _, found, h⟩ := Step.run_bind_ok.1 h
  obtain rfl := (Prod.mk.inj found).2
  obtain ⟨n, _, sent, h⟩ := Step.run_bind_ok.1 h
  obtain rfl := (Prod.mk.inj h).2
  obtain ⟨sent, link⟩ := onChannel_ok sent
  exact ⟨Channel.write_ok sent, link⟩

/-- The link has counted a repeat. -/
def repeated (s : Linked) : Linked :=
  { s with link.statistics.duplicates := s.link.statistics.duplicates + 1 }

/-- A try that gave no new packet: it failed and the packet was refused, or it was the last accepted
packet once more and was acknowledged. -/
inductive Pass (s s' : Linked) : Prop
  | refused {t : Linked} {e : Fault} (tried : (receivePacket false).run s = (.error e, t))
      (refused : refuse.run t = (.ok (), s'))
  | again {t : Linked} {p : Packet} {crc : UInt16} (tried : (receivePacket false).run s = (.ok (p, crc), t))
      (known : t.link.lastReceived = some (p.control.toggle, crc))
      (acknowledged : (writeControl ackByte).run (repeated t) = (.ok (), s'))

/-- Any number of tries that gave no new packet. -/
def Passes : Linked → Linked → Prop := Relation.ReflTransGen Pass

/-- Something may have been consumed and sent, and the memory is the same. -/
def Talks (s s' : Linked) : Prop := (∃ x w, Channel.Observed s.channel s'.channel x w) ∧ s'.memory = s.memory

instance : IsPreorder Linked Talks where
  refl _ := ⟨⟨[], [], .of_eq rfl rfl⟩, rfl⟩
  trans _ _ _ := fun ⟨⟨_, _, h⟩, m⟩ ⟨⟨_, _, h'⟩, m'⟩ => ⟨⟨_, _, h.trans h'⟩, m'.trans m⟩

theorem Hears.talks {s s' : Linked} (h : Hears s s') : Talks s s' :=
  h.1.elim fun x read => ⟨⟨x, [], read⟩, h.2⟩

theorem writeControl_talks {byte : UInt8} {s s' : Linked}
    (h : (writeControl byte).run s = (.ok (), s')) : Talks s s' := by
  obtain ⟨⟨echo, sent⟩, link⟩ := writeControl_ok h
  exact ⟨⟨echo, [byte], sent⟩, by rw [memory, memory, link]⟩

theorem refuse_talks {s s' : Linked} (h : refuse.run s = (.ok (), s')) : Talks s s' := by
  obtain ⟨_, t, turned, h⟩ := Step.run_bind_ok.1 h
  rw [Step.run_get_bind] at h
  refine trans_of Talks (turnAround_idles.of_run turned).hears.talks ?_
  split at h
  · exact writeControl_talks h
  · obtain rfl := (Prod.mk.inj h).2
    exact refl_of Talks _

theorem Pass.talks {s s' : Linked} (h : Pass s s') : Talks s s' := by
  cases h with
  | refused tried refused =>
    exact trans_of Talks ((receivePacket_hears false).of_run tried).talks (refuse_talks refused)
  | @again t _ _ tried known acknowledged =>
    have answered : Talks (repeated t) s' := writeControl_talks acknowledged
    exact trans_of Talks ((receivePacket_hears false).of_run tried).talks answered

theorem Passes.talks {s s' : Linked} (h : Passes s s') : Talks s s' := by
  induction h with
  | refl => exact refl_of Talks s
  | tail _ pass ih => exact trans_of Talks ih pass.talks

theorem known_of_standing {last : Option (Bool × UInt16)} {toggle : Bool} {crc : UInt16}
    (h : standing last toggle crc = .duplicate) : last = some (toggle, crc) := by
  unfold standing at h
  split at h
  · cases h
  · split at h
    · cases h
    · split at h
      · simp_all
      · cases h

/-- What one try came to that did not fail. -/
inductive Tried (a : Assembly) (lost : Bool) (again : Option (Bool → Step Linked Accepted)) (s : Linked) :
    Accepted → Linked → Prop
  /-- Of a response that is spoiled any packet will do. -/
  | anyway {p : Packet} {crc : UInt16} {s' : Linked} (spoiled : a.spoiled = true)
      (read : (receivePacket true).run s = (.ok (p, crc), s')) : Tried a lost again s (some (p, crc, a)) s'
  | new {p : Packet} {crc : UInt16} {s' : Linked} (sound : a.spoiled = false)
      (read : (receivePacket false).run s = (.ok (p, crc), s'))
      (new : standing s'.link.lastReceived p.control.toggle crc = .new) : Tried a lost again s (some (p, crc, a)) s'
  /-- The response is spoiled by this packet. -/
  | misplaced {p : Packet} {crc : UInt16} {t s' : Linked} (read : (receivePacket false).run s = (.ok (p, crc), t))
      (noted : (do
        changeLink Link.forget
        count fun n => { n with sequenceErrors := n.sequenceErrors + 1 }).run t = (.ok (), s')) :
      Tried a lost again s (some (p, crc, { a with spoiled := true })) s'
  /-- The toggle bit that is due is turned back. -/
  | lost {t : Linked} {e : Fault} (isLost : lost = true) (failed : (receivePacket a.spoiled).run s = (.error e, t)) :
      Tried a lost again s none { t with link.nextToggle := !t.link.nextToggle }
  | ended {s' : Linked} {e : Fault} (failed : (receivePacket a.spoiled).run s = (.error e, s')) :
      Tried a lost again s none s'
  | duplicate {p : Packet} {crc : UInt16} {t u s' : Linked} {next : Bool → Step Linked Accepted} {r : Accepted}
      (sound : a.spoiled = false) (read : (receivePacket false).run s = (.ok (p, crc), t))
      (known : t.link.lastReceived = some (p.control.toggle, crc))
      (acknowledged : (writeControl ackByte).run (repeated t) = (.ok (), u)) (left : again = some next)
      (rest : (next (!p.control.isMulti)).run u = (.ok r, s')) : Tried a lost again s r s'
  | refused {t u s' : Linked} {e : Fault} {next : Bool → Step Linked Accepted} {r : Accepted}
      (notLost : lost = false) (failed : (receivePacket a.spoiled).run s = (.error e, t))
      (refused : refuse.run t = (.ok (), u)) (left : again = some next)
      (rest : (next lost).run u = (.ok r, s')) : Tried a lost again s r s'

theorem tryPacket_tried {a : Assembly} {lost : Bool} {again : Option (Bool → Step Linked Accepted)} {s s' : Linked}
    {r : Accepted} (h : (tryPacket a lost again).run s = (.ok r, s')) : Tried a lost again s r s' := by
  unfold tryPacket at h
  rw [Step.run_outcome_bind] at h
  rcases tried : (receivePacket a.spoiled).run s with ⟨read, t⟩
  rw [tried] at h
  cases read with
  | ok read =>
    obtain ⟨p, crc⟩ := read
    dsimp only at h
    by_cases spoiled : a.spoiled
    · rw [if_pos spoiled] at h
      obtain ⟨hr, rfl⟩ := Prod.mk.inj h
      obtain rfl := Except.ok.inj hr
      exact .anyway spoiled (spoiled ▸ tried)
    rw [if_neg spoiled, Step.run_get_bind] at h
    replace spoiled : a.spoiled = false := Bool.eq_false_iff.2 spoiled
    rw [spoiled] at tried
    cases hs : standing t.link.lastReceived p.control.toggle crc with
    | new =>
      rw [hs] at h
      obtain ⟨hr, rfl⟩ := Prod.mk.inj h
      obtain rfl := Except.ok.inj hr
      exact .new spoiled tried hs
    | duplicate =>
      rw [hs] at h
      obtain ⟨_, t1, counted, h⟩ := Step.run_bind_ok.1 h
      obtain rfl := (Prod.mk.inj counted).2
      obtain ⟨_, t2, acknowledged, h⟩ := Step.run_bind_ok.1 h
      cases again with
      | none => exact absurd h Step.run_throw_ne_ok
      | some next => exact .duplicate spoiled tried (known_of_standing hs) acknowledged rfl h
    | misplaced =>
      rw [hs] at h
      obtain ⟨_, t1, forgot, h⟩ := Step.run_bind_ok.1 h
      obtain ⟨_, t2, counted, h⟩ := Step.run_bind_ok.1 h
      obtain ⟨hr, rfl⟩ := Prod.mk.inj h
      obtain rfl := Except.ok.inj hr
      exact .misplaced tried (Step.run_bind_ok.2 ⟨_, t1, forgot, counted⟩)
  | error e =>
    dsimp only at h
    rw [Step.run_get_bind] at h
    by_cases cut : t.channel.deadlineHit
    · rw [if_pos cut] at h
      exact absurd h Step.run_throw_ne_ok
    rw [if_neg cut] at h
    by_cases hlost : lost
    · rw [if_pos hlost] at h
      obtain ⟨_, t1, turned, h⟩ := Step.run_bind_ok.1 h
      obtain rfl := (Prod.mk.inj turned).2
      obtain ⟨hr, rfl⟩ := Prod.mk.inj h
      obtain rfl := Except.ok.inj hr
      exact .lost hlost tried
    rw [if_neg hlost] at h
    by_cases last : again.isNone && a.spoiled
    · rw [if_pos last] at h
      obtain ⟨hr, rfl⟩ := Prod.mk.inj h
      obtain rfl := Except.ok.inj hr
      exact .ended tried
    rw [if_neg last] at h
    by_cases final : !e.allowsPacketAgain
    · rw [if_pos final] at h
      exact absurd h Step.run_throw_ne_ok
    rw [if_neg final] at h
    obtain ⟨_, v, refused, h⟩ := Step.run_bind_ok.1 h
    cases again with
    | none => exact absurd h Step.run_throw_ne_ok
    | some next => exact .refused (Bool.eq_false_iff.2 hlost) tried refused rfl h

/-- What one try comes to when it leads to a packet of a response that is not spoiled: the packet is
new, or the try passed and the packet came of what followed. -/
theorem tryPacket_ok {a a' : Assembly} {lost : Bool} {again : Option (Bool → Step Linked Accepted)}
    {s s' : Linked} {p : Packet} {crc : UInt16}
    (h : (tryPacket a lost again).run s = (.ok (some (p, crc, a')), s')) (sound : a'.spoiled = false) :
    (a' = a ∧ (receivePacket false).run s = (.ok (p, crc), s') ∧
        standing s'.link.lastReceived p.control.toggle crc = .new) ∨
      ∃ next lost' t, again = some next ∧ (a.spoiled = false → Pass s t) ∧
        (next lost').run t = (.ok (some (p, crc, a')), s') := by
  cases tryPacket_tried h with
  | anyway spoiled => exact absurd (spoiled.symm.trans sound) (by simp)
  | new _ read new => exact .inl ⟨rfl, read, new⟩
  | misplaced => exact absurd sound (by simp)
  | duplicate _ read known acknowledged left rest =>
    exact .inr ⟨_, _, _, left, fun _ => .again read known acknowledged, rest⟩
  | refused _ failed refused left rest =>
    exact .inr ⟨_, _, _, left, fun spoiled => .refused (spoiled ▸ failed) refused, rest⟩

/-- **A packet that was waited for** in a response that is not spoiled was read new, after tries that
passed. -/
theorem awaitPacket_ok {a a' : Assembly} {retries : Nat} {lost : Bool} {s s' : Linked} {p : Packet}
    {crc : UInt16} (h : (awaitPacket a retries lost).run s = (.ok (some (p, crc, a')), s'))
    (sound : a'.spoiled = false) :
    a' = a ∧ ∃ t, Passes s t ∧ (receivePacket false).run t = (.ok (p, crc), s') ∧
      standing s'.link.lastReceived p.control.toggle crc = .new := by
  induction retries generalizing s lost with
  | zero =>
    obtain ⟨rfl, read, new⟩ | ⟨next, _, _, none, -, -⟩ := tryPacket_ok h sound
    · exact ⟨rfl, s, .refl, read, new⟩
    · cases none
  | succ retries ih =>
    obtain ⟨rfl, read, new⟩ | ⟨next, lost', t, again, pass, h⟩ := tryPacket_ok h sound
    · exact ⟨rfl, s, .refl, read, new⟩
    · obtain rfl := Option.some.inj again
      obtain ⟨rfl, u, passes, read, new⟩ := ih h
      exact ⟨rfl, u, .head (pass sound) passes, read, new⟩

end Linked

end Metering
