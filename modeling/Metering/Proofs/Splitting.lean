import Metering.Packet
import Metering.Step

set_option autoImplicit false

/-! # Messages cut into packets

A message is cut into runs of data that fill their packets but for the last one, so a message that fits a
number of packets is cut into no more than that (`Packet.split_of_fits`). The packets carry the message in
order, are numbered down to zero, and only the first one of several says that it is the first
(`Packet.split_ok`). -/

namespace Metering

namespace Bytes

variable {size fuel n : Nat} {bytes piece : Bytes}

theorem flatten_chunks_go (pos : 0 < size) (enough : bytes.length ≤ fuel) :
    (chunks.go size fuel bytes).flatten = bytes := by
  induction fuel generalizing bytes with
  | zero =>
    rw [List.length_eq_zero_iff.1 (Nat.le_zero.1 enough)]
    rfl
  | succ fuel ih =>
    cases bytes with
    | nil => rfl
    | cons b rest =>
      have left : ((b :: rest).drop size).length ≤ fuel := by
        simp only [List.length_drop, List.length_cons] at enough ⊢
        omega
      rw [chunks.go, List.flatten_cons, ih left, List.take_append_drop]

theorem flatten_chunks (pos : 0 < size) (bytes : Bytes) : (chunks size bytes).flatten = bytes :=
  flatten_chunks_go pos (Nat.le_refl _)

theorem mem_chunks_go (pos : 0 < size) (h : piece ∈ chunks.go size fuel bytes) :
    piece ≠ [] ∧ piece.length ≤ size := by
  induction fuel generalizing bytes with
  | zero => simp [chunks.go] at h
  | succ fuel ih =>
    cases bytes with
    | nil => simp [chunks.go] at h
    | cons b rest =>
      rw [chunks.go, List.mem_cons] at h
      rcases h with rfl | later
      · constructor
        · intro none
          have := congrArg List.length none
          simp at this
          omega
        · exact List.length_take_le _ _
      · exact ih later

theorem mem_chunks (pos : 0 < size) (h : piece ∈ chunks size bytes) : piece ≠ [] ∧ piece.length ≤ size :=
  mem_chunks_go pos h

/-- What fits `n` pieces is cut into no more. -/
theorem length_chunks_go_le (fits : bytes.length ≤ size * n) : (chunks.go size fuel bytes).length ≤ n := by
  induction fuel generalizing bytes n with
  | zero => exact Nat.zero_le _
  | succ fuel ih =>
    cases bytes with
    | nil => exact Nat.zero_le _
    | cons b rest =>
      cases n with
      | zero => simp at fits
      | succ n =>
        have left : ((b :: rest).drop size).length ≤ size * n := by
          rw [List.length_drop]
          rw [Nat.mul_succ] at fits
          omega
        rw [chunks.go, List.length_cons]
        exact Nat.succ_le_succ (ih left)

theorem length_chunks_le (fits : bytes.length ≤ size * n) : (chunks size bytes).length ≤ n :=
  length_chunks_go_le fits

theorem chunks_ne_nil (some : bytes ≠ []) : chunks size bytes ≠ [] := by
  cases bytes with
  | nil => exact absurd rfl some
  | cons b rest => simp [chunks, chunks.go]

end Bytes

namespace Packet

variable {identity dataFormat : UInt8} {message : Bytes} {size : Nat} {packets : List Packet}

/-- The runs of data that a message is cut into. -/
def pieces (message : Bytes) (size : Nat) : List Bytes :=
  if message.isEmpty then [message] else Bytes.chunks (size - packetOverhead) message

theorem pieces_ne_nil (message : Bytes) (size : Nat) : pieces message size ≠ [] := by
  unfold pieces
  split
  · simp
  next some => exact Bytes.chunks_ne_nil (by simpa using some)

theorem flatten_pieces (wide : packetOverhead < size) (message : Bytes) : (pieces message size).flatten = message := by
  unfold pieces
  split
  · simp
  · exact Bytes.flatten_chunks (Nat.sub_pos_of_lt wide) message

theorem mem_pieces (wide : packetOverhead < size) {piece : Bytes} (h : piece ∈ pieces message size) :
    piece.length ≤ size - packetOverhead ∧ (message ≠ [] → piece ≠ []) := by
  unfold pieces at h
  split at h
  next none =>
    obtain rfl := List.isEmpty_iff.1 none
    obtain rfl := List.mem_singleton.1 h
    simp
  · obtain ⟨some, short⟩ := Bytes.mem_chunks (Nat.sub_pos_of_lt wide) h
    exact ⟨short, fun _ => some⟩

/-- What fits `n` packets is cut into no more. -/
theorem length_pieces_le {n : Nat} (pos : 1 ≤ n) (fits : message.length ≤ (size - packetOverhead) * n) :
    (pieces message size).length ≤ n := by
  unfold pieces
  split
  · exact pos
  · exact Bytes.length_chunks_le fits

/-- The packets with the pieces of a message. -/
def carrying (identity dataFormat : UInt8) (pieces : List Bytes) : List Packet :=
  pieces.mapIdx fun index data =>
    { identity, control := controlOf dataFormat pieces.length index,
      sequence := UInt8.ofNat (pieces.length - 1 - index), data }

theorem map_data_carrying (identity dataFormat : UInt8) (pieces : List Bytes) :
    (carrying identity dataFormat pieces).map (·.data) = pieces := by
  apply List.ext_getElem?
  intro i
  simp only [carrying, List.getElem?_map, List.getElem?_mapIdx, Option.map_map]
  exact Option.map_id_fun ▸ rfl

theorem split_eq (identity dataFormat : UInt8) (message : Bytes) (size : Nat) :
    split identity dataFormat message size =
      if size ≤ packetOverhead then .error (.numberOutOfRange .packetSize size (packetOverhead + 1) 0xFFFF)
      else if (pieces message size).length > 256 then
        .error (.numberOutOfRange .packetsOfMessage (pieces message size).length 1 256)
      else .ok (carrying identity dataFormat (pieces message size)) := rfl

/-- The packets of a message. -/
structure SplitOf (identity dataFormat : UInt8) (message : Bytes) (size : Nat) (packets : List Packet) : Prop where
  wide : packetOverhead < size
  some : packets ≠ []
  few : packets.length ≤ 256
  /-- They carry the message in order. -/
  message_eq : packets.flatMap (·.data) = message
  sizes : ∀ p ∈ packets, p.data.length ≤ size - packetOverhead
  nonempty : message ≠ [] → ∀ p ∈ packets, p.data ≠ []
  /-- Each packet is numbered by those that follow it. -/
  numbered : ∀ front p rest, packets = front ++ p :: rest →
    p.identity = identity ∧ p.control = controlOf dataFormat packets.length front.length ∧
      p.sequence = UInt8.ofNat rest.length

theorem split_ok (h : split identity dataFormat message size = .ok packets) :
    SplitOf identity dataFormat message size packets := by
  rw [split_eq] at h
  split at h
  · cases h
  next wide =>
    split at h
    · cases h
    next few =>
      obtain rfl := Except.ok.inj h
      replace wide : packetOverhead < size := Nat.lt_of_not_le wide
      have data := map_data_carrying identity dataFormat (pieces message size)
      have mem {p : Packet} (hp : p ∈ carrying identity dataFormat (pieces message size)) :
          p.data ∈ pieces message size := by
        rw [← data]
        exact List.mem_map_of_mem hp
      refine ⟨wide, ?_, ?_, ?_, fun p hp => (mem_pieces wide (mem hp)).1, fun some p hp => (mem_pieces wide (mem hp)).2 some, ?_⟩
      · simpa [carrying] using pieces_ne_nil message size
      · simpa [carrying] using few
      · rw [List.flatMap_def, data, flatten_pieces wide]
      · intro front p rest eq
        have length : (pieces message size).length = front.length + (rest.length + 1) := by
          simpa [carrying] using congrArg List.length eq
        have here : (carrying identity dataFormat (pieces message size))[front.length]? = some p := by
          rw [eq]
          simp
        obtain ⟨data, -, rfl⟩ : ∃ data, (pieces message size)[front.length]? = some data ∧
            { identity, control := controlOf dataFormat (pieces message size).length front.length,
              sequence := UInt8.ofNat ((pieces message size).length - 1 - front.length), data } = p := by
          simpa [carrying, List.getElem?_mapIdx] using here
        refine ⟨rfl, by simp [carrying], ?_⟩
        dsimp only
        rw [show (pieces message size).length - 1 - front.length = rest.length by omega]

/-- **A message that fits** is cut into no more packets than it may take. -/
theorem split_of_fits {n : Nat} (wide : packetOverhead < size) (pos : 1 ≤ n) (few : n ≤ 256)
    (fits : message.length ≤ (size - packetOverhead) * n) :
    ∃ packets, split identity dataFormat message size = .ok packets ∧ packets.length ≤ n := by
  have short := length_pieces_le pos fits
  refine ⟨carrying identity dataFormat (pieces message size), ?_, ?_⟩
  · rw [split_eq, if_neg (Nat.not_le_of_lt wide), if_neg (by omega)]
  · simpa [carrying] using short

end Packet

end Metering
