import Metering.Link.Send
import Metering.Proofs.Checksum

set_option autoImplicit false

/-! # Frames that were read as packets

A frame carries its checksum in its last two bytes. Running the register through the whole frame and
comparing these bytes with the checksum of those in front of them are two checks of one thing
(`Crc.validate_iff`), because no other trailer than the checksum leaves the register good. So a frame
whose length and checksum were checked while it was read decodes to the packet that was read. -/

namespace Metering

theorem Bytes.littleEndian_ofLittleEndian (a b : UInt8) :
    Bytes.littleEndian 2 (Bytes.ofLittleEndian [a, b]) = [a, b] := by
  have ha := a.toNat_lt
  have hb := b.toNat_lt
  simp only [Bytes.littleEndian, Bytes.ofLittleEndian, List.foldr_cons, List.foldr_nil]
  rw [show (0 * 256 + b.toNat) * 256 + a.toNat = a.toNat + 256 * b.toNat by omega,
    show (a.toNat + 256 * b.toNat) / 256 = b.toNat by omega, UInt8.ofNat_toNat]
  congr 1
  apply UInt8.toNat_inj.1
  rw [UInt8.toNat_ofNat']
  omega

namespace Crc

theorem ofLittleEndian_value (c : UInt16) :
    UInt16.ofNat (Bytes.ofLittleEndian (Bytes.littleEndian 2 c.toNat)) = c := by
  have small := c.toNat_lt
  have whole : Bytes.ofLittleEndian (Bytes.littleEndian 2 c.toNat) = c.toNat := by
    simp only [Bytes.littleEndian, Bytes.ofLittleEndian, List.foldr_cons, List.foldr_nil, UInt8.toNat_ofNat']
    omega
  rw [whole, UInt16.ofNat_toNat]

/-- The number in the trailer is the checksum exactly if its bytes are those of the checksum. -/
theorem ofLittleEndian_eq_iff (c : UInt16) (x y : UInt8) :
    UInt16.ofNat (Bytes.ofLittleEndian [x, y]) = c ↔ [x, y] = Bytes.littleEndian 2 c.toNat := by
  constructor
  · rintro rfl
    have small : Bytes.ofLittleEndian [x, y] < 2 ^ 16 := by
      have hx := x.toNat_lt
      have hy := y.toNat_lt
      simp only [Bytes.ofLittleEndian, List.foldr_cons, List.foldr_nil]
      omega
    rw [UInt16.toNat_ofNat', Nat.mod_eq_of_lt small, Bytes.littleEndian_ofLittleEndian]
  · intro same
    rw [same, ofLittleEndian_value]

theorem validate_eq_ok_iff (c : Crc) : c.validate = .ok () ↔ c.register = good := by
  unfold validate
  split
  next reached => exact iff_of_true rfl reached
  next missed => exact iff_of_false nofun missed

theorem validate_cases (c : Crc) : c.validate = .ok () ∨ ∃ cause, c.validate = .error (.frameInvalid cause) := by
  unfold validate
  split
  · exact .inl rfl
  · exact .inr ⟨_, rfl⟩

/-- **The two checks of a frame agree**: the register is good behind the trailer exactly if the number
in the trailer is the checksum of the bytes in front of it. -/
theorem validate_iff (body : Bytes) (x y : UInt8) :
    (start.update (body ++ [x, y])).validate = .ok () ↔ UInt16.ofNat (Bytes.ofLittleEndian [x, y]) = ofBytes body := by
  rw [validate_eq_ok_iff, update_append, register_eq_good_iff _ (by rfl), ofLittleEndian_eq_iff]
  rfl

end Crc

namespace Packet

/-- The frame that reading a packet takes from the line. -/
def frameOf (header rest : Bytes) : Bytes := [startByte] ++ header ++ rest

theorem drop_frameOf {header rest : Bytes} (h : header.length = packetHeaderLength - 1) (n : Nat) :
    (frameOf header rest).drop (n + packetHeaderLength) = rest.drop n := by
  have skipped : ([startByte] ++ header).length = packetHeaderLength := by
    rw [List.length_append, h]
    rfl
  rw [frameOf, ← skipped, Nat.add_comm, ← List.drop_drop, List.drop_left]

/-- The fields of a header: identity, control byte, sequence number and the two bytes of the length. -/
theorem exists_fields {header : Bytes} (h : header.length = packetHeaderLength - 1) :
    ∃ identity control sequence high low, header = [identity, control, sequence, high, low] := by
  match header, h with
  | [identity, control, sequence, high, low], _ => exact ⟨identity, control, sequence, high, low, rfl⟩

theorem length_frameOf {header : Bytes} (rest : Bytes) (h : header.length = packetHeaderLength - 1) :
    (frameOf header rest).length = rest.length + packetHeaderLength := by
  simp only [frameOf, List.length_append, List.length_singleton, h, packetHeaderLength]
  omega

/-- The length that a header announces stands in the fifth and sixth byte of the frame. -/
theorem announced_frameOf {header : Bytes} (rest : Bytes) (h : header.length = packetHeaderLength - 1) :
    Bytes.ofBigEndian (((frameOf header rest).drop 4).take 2) = Linked.announcedLength header := by
  obtain ⟨identity, control, sequence, high, low, rfl⟩ := exists_fields h
  rfl

/-- The packet in a header and the bytes behind it. -/
def read (header data : Bytes) : Packet where
  identity := header.getD 0 0
  control := ⟨header.getD 1 0⟩
  sequence := header.getD 2 0
  data

/-- The header and what is left of a frame have the sizes that reading it asks for. -/
structure Parts (header rest : Bytes) : Prop where
  length_header : header.length = packetHeaderLength - 1
  length_rest : rest.length = Linked.announcedLength header + 2

namespace Parts

variable {header rest : Bytes} (parts : Parts header rest)

include parts

theorem length_take : (rest.take (Linked.announcedLength header)).length = Linked.announcedLength header := by
  rw [List.length_take, parts.length_rest]
  omega

/-- Two bytes follow the data. -/
theorem exists_trailer : ∃ x y, rest.drop (Linked.announcedLength header) = [x, y] ∧
    frameOf header rest = frameOf header (rest.take (Linked.announcedLength header)) ++ [x, y] := by
  have size : (rest.drop (Linked.announcedLength header)).length = 2 := by
    rw [List.length_drop, parts.length_rest]
    omega
  obtain ⟨x, y, trailer⟩ : ∃ x y, rest.drop (Linked.announcedLength header) = [x, y] := by
    match rest.drop (Linked.announcedLength header), size with
    | [x, y], _ => exact ⟨x, y, rfl⟩
  refine ⟨x, y, trailer, ?_⟩
  rw [frameOf, frameOf, ← trailer, List.append_assoc ([startByte] ++ header), List.take_append_drop]

end Parts

/-- The bytes of a frame whose parts have the right sizes decode if the register is good behind them. -/
theorem decode_of_parts {header rest : Bytes} (parts : Parts header rest) :
    decode (frameOf header rest) =
      (Crc.start.update (frameOf header rest)).validate.map
        fun _ => read header (rest.take (Linked.announcedLength header)) := by
  obtain ⟨hheader, hrest⟩ := parts
  have length := length_frameOf rest hheader
  have announced := announced_frameOf rest hheader
  obtain ⟨identity, control, sequence, high, low, rfl⟩ := exists_fields hheader
  generalize Linked.announcedLength [identity, control, sequence, high, low] = n at hrest announced ⊢
  simp only [packetHeaderLength] at length
  unfold decode
  rw [if_neg (by simp only [packetOverhead]; omega), if_neg (by simp [frameOf]), announced,
    if_neg (by simp only [packetOverhead]; omega)]
  cases (Crc.start.update (frameOf [identity, control, sequence, high, low] rest)).validate <;> rfl

/-- The register is good behind a frame exactly if the number behind the data is the checksum of what is in
front of it. -/
theorem validate_frameOf {header rest : Bytes} (parts : Parts header rest) :
    (Crc.start.update (frameOf header rest)).validate = .ok () ↔
      UInt16.ofNat (Bytes.ofLittleEndian (rest.drop (Linked.announcedLength header))) =
        Crc.ofBytes (frameOf header (rest.take (Linked.announcedLength header))) := by
  obtain ⟨x, y, trailer, whole⟩ := parts.exists_trailer
  rw [whole, Crc.validate_iff, trailer]

/-- **A frame with the announced length and the right checksum** decodes to the packet in it. -/
theorem decode_frameOf {header rest : Bytes} (hheader : header.length = 5)
    (hrest : rest.length = Linked.announcedLength header + 2)
    (hcrc : UInt16.ofNat (Bytes.ofLittleEndian (rest.drop (Linked.announcedLength header))) =
      Crc.ofBytes (frameOf header (rest.take (Linked.announcedLength header)))) :
    decode (frameOf header rest) =
      .ok (read header (rest.take (Linked.announcedLength header))) := by
  have parts : Parts header rest := ⟨hheader, hrest⟩
  rw [decode_of_parts parts, (validate_frameOf parts).2 hcrc]
  rfl

end Packet

end Metering
