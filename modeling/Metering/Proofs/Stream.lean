import Metering.Proofs.Grammar
import Metering.Proofs.Queue

set_option autoImplicit false

/-! # APDUs on a stream

Reading from a stream and taking apart agree on what an APDU is. The next frame of a stream is read whatever stands
in front of it without a start tag and however the line cuts the bytes, and what is behind it stays; and whatever is
read has a start tag and a length with which it can be taken apart (`Channel.readApdu_framed`). -/

namespace Metering

open Timed

/-! ## Frames and what passes for one -/

namespace Acse

/-- A frame is what passes the checks of the start tag and of the length. -/
theorem isFrame_iff {bytes : Bytes} : IsFrame bytes ↔ ∃ left, Reader.parse Incoming.takeFront bytes = .ok left := by
  constructor
  · rintro ⟨first, octets, elements, rfl, length⟩
    have run := Incoming.takeFront_run ⟨first, octets, rfl, length⟩ 0
    exact ⟨elements.length, congrArg Prod.fst run⟩
  · rintro ⟨left, h⟩
    have run : Incoming.takeFront.run (Reader.ofBytes bytes) = (.ok left, _) := Step.run_eq_of_fst h
    obtain ⟨-, first, octets, whole, length⟩ := Incoming.takeFront_ok run
    exact ⟨first, octets, _, whole, length⟩

/-- An APDU that was built is a frame if it is not too long. -/
theorem isFrame_of_build {o : Outgoing} {p : Parameters} {secured : Option Seal} {bytes : Bytes}
    (h : o.build p secured = .ok bytes) : IsFrame bytes ↔ bytes.length ≤ Outgoing.longestRead := by
  obtain ⟨_, _, _, elements, -, -, -, -, rfl⟩ := Outgoing.build_parts h
  show IsFrame (Outgoing.apduOf elements) ↔ (Outgoing.apduOf elements).length ≤ _
  rw [isFrame_apduOf_iff, Outgoing.length_apduOf, Outgoing.elementLength_le_longestRead_iff]

end Acse

namespace Channel

variable {c c' : Channel} {timeout : Duration} {deadline : Moment} {closing : Option Moment} {bytes : Bytes}

/-! ## What is read is a frame -/

theorem readLengthOctets_lengthOf {first : UInt8} {octets : Bytes} {n : Nat}
    (h : (readLengthOctets first deadline).run c = (.ok (octets, n), c')) : Ber.LengthOf first octets n := by
  unfold readLengthOctets at h
  split at h
  next small =>
    obtain ⟨result, -⟩ := Prod.mk.inj h
    obtain ⟨rfl, rfl⟩ := Prod.mk.inj (Except.ok.inj result)
    exact .short small
  next large =>
    dsimp only at h
    split at h
    · exact absurd h Step.run_throw_ne_ok
    next counted =>
      rw [← bind_assoc] at h
      obtain ⟨bytes, c1, read, h⟩ := Step.run_bind_ok.1 h
      obtain ⟨result, -⟩ := Prod.mk.inj h
      obtain ⟨rfl, rfl⟩ := Prod.mk.inj (Except.ok.inj result)
      have count := (readRemainder_ok read).1
      rw [not_or, Nat.not_lt, ← count] at counted
      exact .long large bytes count (fun none => counted.1 (none ▸ rfl)) counted.2

/-- **What is read is a frame.** -/
theorem isFrame_of_readApdu (h : (readApdu timeout).run c = (.ok bytes, c')) : Acse.IsFrame bytes := by
  unfold readApdu at h
  rw [Step.run_get_bind] at h
  obtain ⟨_, c1, -, h⟩ := Step.run_bind_ok.1 h
  rw [← bind_assoc] at h
  obtain ⟨head, c2, -, h⟩ := Step.run_bind_ok.1 h
  dsimp only at h
  obtain ⟨⟨octets, n⟩, c3, read3, h⟩ := Step.run_bind_ok.1 h
  have length := readLengthOctets_lengthOf read3
  dsimp only at h
  split at h
  next some =>
    rw [← bind_assoc] at h
    obtain ⟨elements, c4, read4, h⟩ := Step.run_bind_ok.1 h
    obtain ⟨result, -⟩ := Prod.mk.inj h
    obtain rfl := Except.ok.inj result
    obtain ⟨rfl, -⟩ := readRemainder_ok read4
    exact ⟨_, octets, elements, by simp, length⟩
  next none =>
    obtain ⟨result, -⟩ := Prod.mk.inj h
    obtain rfl := Except.ok.inj result
    obtain rfl : n = 0 := Nat.eq_zero_of_not_pos none
    exact ⟨_, octets, [], by simp, length⟩

/-! ## A frame is read -/

/-- The next frame is read from whatever is on its way, and what is behind it stays. -/
theorem readApdu_mirrors {garbage apdu suffix : Bytes} (h : c.Mirrors closing ⟨garbage ++ (apdu ++ suffix), true⟩)
    (clean : Acse.apduTag ∉ garbage) (frame : Acse.IsFrame apdu)
    (timely : ∀ x ∈ c.due.take (garbage ++ apdu).length, x.1 ≤ max c.now (c.limit (c.now + timeout))) :
    ∃ c', (readApdu timeout).run c = (.ok apdu, c') ∧ c'.Mirrors closing ⟨suffix, true⟩ := by
  -- the bytes with their moments fall into the same parts
  obtain ⟨front, behind, hdue, rfl, hbehind⟩ := List.map_eq_append_iff.1 h.bytes
  obtain ⟨bytes, more, rfl, rfl, rfl⟩ := List.map_eq_append_iff.1 hbehind
  let d : Delivery := ⟨front, bytes, fun x hx tag => clean (tag ▸ List.mem_map_of_mem hx)⟩
  have due : c.due = since c.now (d.all ++ more) := by
    rw [← due_since, hdue, ← List.append_assoc]
    rfl
  have size : (front.map (·.2) ++ bytes.map (·.2)).length = d.all.length := by
    simp [d, Delivery.all]
  have taken : c.due.take d.all.length = d.all := by
    rw [hdue, ← List.append_assoc]
    exact List.take_left' rfl
  rw [size, taken] at timely
  have started : ∀ x ∈ d.garbage ++ d.frame.take 1, x.1 ≤ max c.now (c.limit (c.now + timeout)) := fun x hx =>
    timely x (Delivery.mem_all_of_mem_parts List.mem_cons_self hx)
  have rest : InParts c.limit (c.now + timeout) (latest c.now (d.garbage ++ d.frame.take 1)) d.parts.tail := by
    refine inParts_of_le (c.limit_le _) fun part hpart x hx => ?_
    have passed := le_latest c.now (d.garbage ++ d.frame.take 1)
    have early := timely x (Delivery.mem_all_of_mem_parts (List.mem_of_mem_tail hpart) hx)
    omega
  obtain ⟨c', read, later, -⟩ := readApdu_run_started (h.unhindered rfl) due frame started rest
  refine ⟨c', read, ?_⟩
  have left := h.later rfl later
  have behind : (front.map (·.2) ++ (bytes.map (·.2) ++ more.map (·.2))).drop d.all.length = more.map (·.2) := by
    rw [← List.append_assoc, List.drop_left' size]
  rwa [behind] at left

/-- **Reading and taking apart agree** on what an APDU is.

* Whatever stands in front of a frame without a start tag, whatever is behind it, and however the line cuts the bytes:
  a read of an APDU gives just the frame, if it comes in time, and leaves what is behind it.
* An APDU that was built is a frame if its length has no more than four bytes.
* Whatever is read passes the checks of the start tag and of the length, and is taken apart from there on. -/
theorem readApdu_framed :
    (∀ (c : Channel) (closing : Option Moment) (timeout : Duration) (garbage apdu suffix : Bytes),
      c.Mirrors closing ⟨garbage ++ (apdu ++ suffix), true⟩ → Acse.apduTag ∉ garbage → Acse.IsFrame apdu →
      (∀ x ∈ c.due.take (garbage ++ apdu).length, x.1 ≤ max c.now (c.limit (c.now + timeout))) →
      ∃ c', (readApdu timeout).run c = (.ok apdu, c') ∧ c'.Mirrors closing ⟨suffix, true⟩) ∧
    (∀ (o : Acse.Outgoing) (p : Acse.Parameters) (secured : Option Acse.Seal) (apdu : Bytes),
      o.build p secured = .ok apdu → (Acse.IsFrame apdu ↔ apdu.length ≤ Acse.Outgoing.longestRead)) ∧
    ∀ (c c' : Channel) (timeout : Duration) (apdu : Bytes), (readApdu timeout).run c = (.ok apdu, c') →
      ∃ r, Acse.Incoming.takeFront.run (Reader.ofBytes apdu) = (.ok r.rest.length, r) ∧
        ∀ max, Acse.Incoming.parse apdu max =
          ((Acse.Incoming.takeElements max r.rest.length r.rest.length {}).run r).1 := by
  refine ⟨fun _ _ _ _ _ _ => readApdu_mirrors, fun _ _ _ _ => Acse.isFrame_of_build, fun _ _ _ apdu h => ?_⟩
  obtain ⟨left, front⟩ := Acse.isFrame_iff.1 (isFrame_of_readApdu h)
  have run : Acse.Incoming.takeFront.run (Reader.ofBytes apdu) = (.ok left, _) := Step.run_eq_of_fst front
  obtain ⟨rfl, -⟩ := Acse.Incoming.takeFront_ok run
  refine ⟨_, run, fun max => ?_⟩
  rw [Acse.Incoming.parse, Reader.parse, Acse.Incoming.takeApdu_eq, Step.run_bind_of_ok run]

/-- A channel on which a frame comes in three pieces, a byte of garbage in front of it and the start of another frame
behind it. -/
def framedPiecemeal : Channel where
  line := { arrivals := [(5, .data [0x11, 0x60]), (7, .data [0x03, 0xA8]), (9, .data [0x01, 0x05, 0x60])] }
  connected := true

theorem readApdu_framed_piecemeal :
    ∃ c', (readApdu 10).run framedPiecemeal = (.ok [0x60, 0x03, 0xA8, 0x01, 0x05], c') ∧
      c'.Mirrors none ⟨[0x60], true⟩ := by
  have arrivals : framedPiecemeal.line.arrivals =
      Line.cut [(5, [0x11, 0x60]), (7, [0x03, 0xA8]), (9, [0x01, 0x05, 0x60])] none := rfl
  have mirrors := mirrors_of_cut (c := framedPiecemeal) rfl rfl rfl (by decide) arrivals
  have empty : framedPiecemeal.input.toList = [] := by decide +kernel
  rw [empty] at mirrors
  have frame : Acse.IsFrame [0x60, 0x03, 0xA8, 0x01, 0x05] :=
    ⟨0x03, [], [0xA8, 0x01, 0x05], rfl, .short (by decide)⟩
  exact readApdu_framed.1 framedPiecemeal none 10 [0x11] [0x60, 0x03, 0xA8, 0x01, 0x05] [0x60] mirrors (by decide) frame
    (by decide +kernel)

end Channel

end Metering
