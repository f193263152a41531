import Metering.Proofs.Completeness

set_option autoImplicit false

/-! # The format of messages that are cut

A message is cut into packets that carry it in order and are full but for the last one, and each of them says where
it stands among the others (`Packet.CutInOrder`). A cut fails only where 256 packets do not hold the message. The data
format is the one thing that is told by a packet of its own and by none of several: it gets lost as soon as it is not
zero and the message does not fit one packet (`Packet.split_formatted_iff`). -/

namespace Metering

namespace Bytes

variable {size fuel : Nat} {bytes piece : Bytes} {front rest : List Bytes}

/-- A run that others follow is full. -/
theorem length_chunk_go (cut : chunks.go size fuel bytes = front ++ piece :: rest) (more : rest ≠ []) :
    piece.length = size := by
  induction fuel generalizing bytes front with
  | zero => simp [chunks.go] at cut
  | succ fuel ih =>
    cases bytes with
    | nil => simp [chunks.go] at cut
    | cons b bytes =>
      rw [chunks.go] at cut
      cases front with
      | nil =>
        obtain ⟨rfl, later⟩ := List.cons.inj cut
        rw [List.length_take]
        have some : (b :: bytes).drop size ≠ [] := by
          intro none
          rw [none] at later
          cases fuel <;> exact more later.symm
        have := List.length_pos_iff.2 some
        rw [List.length_drop] at this
        omega
      | cons f front => exact ih (List.cons.inj cut).2

/-- Runs of a size hold no more than that size each. -/
theorem length_flatten_le {pieces : List Bytes} (short : ∀ piece ∈ pieces, piece.length ≤ size) :
    pieces.flatten.length ≤ size * pieces.length := by
  induction pieces with
  | nil => exact Nat.zero_le _
  | cons piece pieces ih =>
    have first := short piece List.mem_cons_self
    have later := ih fun p hp => short p (List.mem_cons_of_mem _ hp)
    rw [List.flatten_cons, List.length_append, List.length_cons, Nat.mul_succ]
    omega

end Bytes

namespace Packet

variable {identity dataFormat : UInt8} {message : Bytes} {size : Nat} {packets : List Packet}

/-! ## How many packets, and how full -/

theorem mem_pieces_length (wide : packetOverhead < size) : ∀ piece ∈ pieces message size,
    piece.length ≤ size - packetOverhead :=
  fun _ h => (mem_pieces wide h).1

/-- As many packets as are needed: no more than `n` exactly if `n` of them hold the message. -/
theorem length_pieces_le_iff {n : Nat} (wide : packetOverhead < size) (pos : 1 ≤ n) :
    (pieces message size).length ≤ n ↔ message.length ≤ (size - packetOverhead) * n := by
  refine ⟨fun few => ?_, length_pieces_le pos⟩
  calc message.length = (pieces message size).flatten.length := by rw [flatten_pieces wide]
    _ ≤ (size - packetOverhead) * (pieces message size).length := Bytes.length_flatten_le (mem_pieces_length wide)
    _ ≤ (size - packetOverhead) * n := Nat.mul_le_mul_left _ few

/-- A piece that others follow fills its packet. -/
theorem length_piece {front rest : List Bytes} {piece : Bytes} (cut : pieces message size = front ++ piece :: rest)
    (more : rest ≠ []) : piece.length = size - packetOverhead := by
  unfold pieces at cut
  split at cut
  · have := congrArg List.length cut
    have := List.length_pos_iff.2 more
    simp at *
    omega
  · exact Bytes.length_chunk_go cut more

/-- The packets of a cut are the pieces of the message, in order. -/
theorem split_eq_ok (wide : packetOverhead < size) : split identity dataFormat message size = .ok packets ↔
    message.length ≤ (size - packetOverhead) * 256 ∧ packets = carrying identity dataFormat (pieces message size) := by
  rw [split_eq, if_neg (Nat.not_le_of_lt wide), ← length_pieces_le_iff wide (by decide)]
  split
  next many => simp [Nat.not_le_of_lt many]
  next few => simp [Nat.le_of_not_lt few, eq_comm]

/-- A cut fails where the message does not fit the packets that can be counted. -/
theorem split_eq_error (wide : packetOverhead < size) : (∃ e, split identity dataFormat message size = .error e) ↔
    (size - packetOverhead) * 256 < message.length := by
  rw [← Nat.not_le, ← length_pieces_le_iff wide (by decide), split_eq, if_neg (Nat.not_le_of_lt wide)]
  split
  next many => simp [Nat.not_le_of_lt many]
  next few => simp [Nat.le_of_not_lt few]

/-! ## What each packet says -/

/-- The packets of a message, whatever their data format: they carry it in order and fill what they may but for the
last one, and each says how many follow it and whether it is one of several and the first of them. -/
structure CutInOrder (identity : UInt8) (message : Bytes) (size : Nat) (packets : List Packet) : Prop where
  message_eq : packets.flatMap (·.data) = message
  sizes : ∀ front p rest, packets = front ++ p :: rest →
    ∃ bytes, p.encode = .ok bytes ∧ bytes.length ≤ size ∧ (rest ≠ [] → bytes.length = size)
  numbered : ∀ front p rest, packets = front ++ p :: rest → p.sequence.toNat = rest.length
  multi : ∀ p ∈ packets, p.control.isMulti = decide (1 < packets.length)
  first : ∀ front p rest, packets = front ++ p :: rest →
    p.control.isFirst = (decide (1 < packets.length) && front.isEmpty)
  identified : ∀ p ∈ packets, p.identity = identity

theorem isFirst_single (dataFormat : UInt8) : (⟨dataFormat &&& 0x03⟩ : Control).isFirst = false := by
  have bits : ∀ b : BitVec 8, Control.isFirst ⟨⟨b⟩ &&& 0x03⟩ = false := by decide
  exact bits dataFormat.toBitVec

theorem length_encode {p : Packet} (short : p.data.length ≤ 0xFFFF) :
    ∃ bytes, p.encode = .ok bytes ∧ bytes.length = p.data.length + packetOverhead := by
  refine ⟨_, if_neg (Nat.not_lt_of_le short), ?_⟩
  simp [body, packetOverhead]
  omega

theorem cutInOrder (small : size ≤ 0xFFFF) (cut : split identity dataFormat message size = .ok packets) :
    CutInOrder identity message size packets := by
  have h := split_ok cut
  obtain ⟨-, rfl⟩ := (split_eq_ok h.wide).1 cut
  have wide := h.wide
  refine ⟨h.message_eq, ?_, ?_, ?_, ?_, ?_⟩
  · intro front p rest eq
    have fits : p.data.length ≤ size - packetOverhead := h.sizes p (by rw [eq]; simp)
    obtain ⟨bytes, encoded, length⟩ := length_encode (p := p) (by omega)
    refine ⟨bytes, encoded, by omega, fun more => ?_⟩
    have pieces_eq : pieces message size = front.map (·.data) ++ p.data :: rest.map (·.data) := by
      rw [← map_data_carrying identity dataFormat (pieces message size), eq, List.map_append, List.map_cons]
    rw [length, length_piece pieces_eq (by simpa using more)]
    omega
  · intro front p rest eq
    obtain ⟨-, -, sequence⟩ := h.numbered front p rest eq
    have few := h.few
    rw [eq, List.length_append, List.length_cons] at few
    rw [sequence, UInt8.toNat_ofNat', Nat.mod_eq_of_lt (by omega)]
  · intro p mem
    obtain ⟨front, rest, eq⟩ := List.append_of_mem mem
    rw [(h.numbered front p rest eq).2.1, isMulti_controlOf]
  · intro front p rest eq
    rw [(h.numbered front p rest eq).2.1]
    by_cases several : 1 < (carrying identity dataFormat (pieces message size)).length
    · rw [isFirst_controlOf several, decide_eq_true several]
      cases front <;> rfl
    · rw [controlOf, if_pos (Nat.le_of_not_lt several), isFirst_single, decide_eq_false several, Bool.false_and]
  · intro p mem
    obtain ⟨front, rest, eq⟩ := List.append_of_mem mem
    exact (h.numbered front p rest eq).1

/-! ## The data format -/

theorem dataFormat_single (valid : dataFormat ≤ 3) : (⟨dataFormat &&& 0x03⟩ : Control).dataFormat = dataFormat := by
  have bits : ∀ b : BitVec 8, b ≤ 3 → Control.dataFormat ⟨⟨b⟩ &&& 0x03⟩ = ⟨b⟩ := by decide
  exact bits dataFormat.toBitVec valid

theorem dataFormat_several {count : Nat} (several : 1 < count) (index : Nat) :
    (controlOf dataFormat count index).dataFormat = 0 := by
  rw [controlOf, if_neg (Nat.not_le_of_lt several)]
  split <;> rfl

/-- **Packets of a message.** For every identity, data format, message and packet size,

* the cut fails exactly if 256 packets do not hold the message;
* the packets of a cut carry the message in order, fill what they may and say where they stand;
* they tell the data format exactly if it is zero, or if the message fits one packet. -/
theorem split_formatted_iff (identity : UInt8) (valid : dataFormat ≤ 3) (message : Bytes) (wide : 9 ≤ size)
    (small : size ≤ 0xFFFF) :
    ((∃ e, split identity dataFormat message size = .error e) ↔ 256 * (size - 8) < message.length) ∧
      ∀ packets, split identity dataFormat message size = .ok packets →
        CutInOrder identity message size packets ∧
          ((∀ p ∈ packets, p.control.dataFormat = dataFormat) ↔ dataFormat = 0 ∨ message.length ≤ size - 8) := by
  refine ⟨Nat.mul_comm 256 _ ▸ split_eq_error wide, fun packets cut => ⟨cutInOrder small cut, ?_⟩⟩
  have h := split_ok cut
  obtain ⟨-, rfl⟩ := (split_eq_ok h.wide).1 cut
  have one : (carrying identity dataFormat (pieces message size)).length ≤ 1 ↔ message.length ≤ size - 8 := by
    rw [← List.length_map (·.data), map_data_carrying, length_pieces_le_iff h.wide (Nat.le_refl 1), Nat.mul_one]
    rfl
  constructor
  · intro told
    refine or_iff_not_imp_right.2 fun long => ?_
    obtain ⟨p, rest, eq⟩ := List.exists_cons_of_ne_nil h.some
    rw [← told p (eq ▸ List.mem_cons_self), (h.numbered [] p rest eq).2.1]
    exact dataFormat_several (Nat.lt_of_not_le (long ∘ one.1)) _
  · intro kept p mem
    obtain ⟨front, rest, eq⟩ := List.append_of_mem mem
    rw [(h.numbered front p rest eq).2.1]
    by_cases several : 1 < (carrying identity dataFormat (pieces message size)).length
    · rw [dataFormat_several several]
      exact (kept.resolve_right fun short => absurd (one.2 short) (Nat.not_le_of_lt several)).symm
    · rw [controlOf, if_pos (Nat.le_of_not_lt several), dataFormat_single valid]

/-- Three bytes in two packets, of which the second one is not full: their data format is not told. -/
theorem split_formatted_two : (1 : UInt8) ≤ 3 ∧ 9 ≤ 10 ∧ 10 ≤ 0xFFFF ∧
    ((∃ e, split 7 1 [0x52, 0x53, 0x54] 10 = .error e) ↔ 256 * (10 - 8) < 3) ∧
      ∀ packets, split 7 1 [0x52, 0x53, 0x54] 10 = .ok packets → CutInOrder 7 [0x52, 0x53, 0x54] 10 packets ∧
        ((∀ p ∈ packets, p.control.dataFormat = 1) ↔ (1 : UInt8) = 0 ∨ 3 ≤ 10 - 8) :=
  ⟨by decide, by decide, by decide,
    split_formatted_iff 7 (by decide) [0x52, 0x53, 0x54] (by decide) (by decide)⟩

/-- **Two packets do not tell the data format** that one of them would have told. -/
theorem split_unformatted : ∃ packets, split 7 1 [0x52, 0x53] 9 = .ok packets ∧
    ¬ ∀ p ∈ packets, p.control.dataFormat = 1 :=
  ⟨_, rfl, by decide⟩

end Packet

end Metering
