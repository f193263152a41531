import Metering.Proofs.Codec

set_option autoImplicit false

/-! # Damaged frames

An error is a run as long as the frame, whose set bits are those that are turned. It goes unnoticed only if
it takes an empty register back to an empty one (`Packet.decode_xor`), wherever it strikes: an error in the
start byte or in the length may be refused for another reason, but never passes with a wrong register. So an
odd number of turned bits is noticed, and so is a burst of up to sixteen. -/

namespace Metering

namespace Bytes

theorem xor_clear {bytes : Bytes} : Bytes.xor bytes (List.replicate bytes.length 0) = bytes := by
  induction bytes with
  | nil => rfl
  | cons b bytes ih =>
    have whole : Bytes.xor (b :: bytes) (List.replicate (bytes.length + 1) 0) =
        (b ^^^ 0) :: Bytes.xor bytes (List.replicate bytes.length 0) := rfl
    rw [List.length_cons, whole, ih, UInt8.xor_zero]

/-- A byte in which some bits are turned, as an error. -/
theorem modify_eq_xor {bytes : Bytes} {i : Nat} (e : UInt8) (inside : i < bytes.length) :
    bytes.modify i (· ^^^ e) =
      Bytes.xor bytes (List.replicate i 0 ++ e :: List.replicate (bytes.length - i - 1) 0) := by
  induction bytes generalizing i with
  | nil => simp at inside
  | cons b bytes ih =>
    cases i with
    | zero => exact congrArg (List.cons (b ^^^ e)) xor_clear.symm
    | succ i =>
      have rest := ih (Nat.lt_of_succ_lt_succ inside)
      have left : (b :: bytes).length - (i + 1) - 1 = bytes.length - i - 1 := by simp
      have whole : Bytes.xor (b :: bytes) (List.replicate (i + 1) 0 ++ e :: List.replicate (bytes.length - i - 1) 0) =
          (b ^^^ 0) :: Bytes.xor bytes (List.replicate i 0 ++ e :: List.replicate (bytes.length - i - 1) 0) := rfl
      rw [List.modify_succ_cons, rest, left, whole, UInt8.xor_zero]

theorem count_bits_clear (n : Nat) : (bits (List.replicate n 0)).count true = 0 := by
  induction n with
  | zero => rfl
  | succ n ih =>
    have first : (bitsOf 0).count true = 0 := by decide
    rw [List.replicate_succ, bits_cons, List.count_append, first, ih]

theorem count_bits_single (i n : Nat) (e : UInt8) :
    (bits (List.replicate i 0 ++ e :: List.replicate n 0)).count true = (bitsOf e).count true := by
  rw [bits, List.flatMap_append, List.flatMap_cons, List.count_append, List.count_append]
  have clear := count_bits_clear
  unfold bits at clear
  rw [clear, clear, Nat.zero_add, Nat.add_zero]

theorem count_bitsOf_one : ∀ bit < 8, (bitsOf (1 <<< UInt8.ofNat bit)).count true = 1 := by decide

end Bytes

namespace Packet

variable {p : Packet} {frame error : Bytes}

/-- Without the good register, the bytes are refused. -/
theorem decode_of_register {bytes : Bytes} (wrong : (Crc.start.update bytes).register ≠ Crc.good) :
    ∃ cause, decode bytes = .error (.frameInvalid cause) := by
  obtain ⟨header, rest, -, -, checked, -⟩ | refused := decode_cases bytes
  · exact absurd ((Crc.validate_eq_ok_iff _).1 checked) wrong
  · exact refused

theorem register_of_encode (h : p.encode = .ok frame) : (Crc.start.update frame).register = Crc.good := by
  obtain ⟨header, rest, -, -, checked, -⟩ | ⟨cause, refused⟩ := decode_cases frame
  · exact (Crc.validate_eq_ok_iff _).1 checked
  · cases (decode_of_encode h).symm.trans refused

/-- **An error is noticed** if it does not leave an empty register empty. -/
theorem decode_xor (h : p.encode = .ok frame) (length : error.length = frame.length)
    (noticed : Crc.feeds 0 (Bytes.bits error) ≠ 0) :
    ∃ cause, decode (Bytes.xor frame error) = .error (.frameInvalid cause) := by
  apply decode_of_register
  rw [Crc.update_xor Crc.start length.symm, register_of_encode h]
  intro same
  have cancelled : Crc.feeds 0 (Bytes.bits error) = Crc.good ^^^ Crc.good := by
    rw [← UInt16.xor_left_inj Crc.good, UInt16.xor_comm, same, UInt16.xor_self, UInt16.zero_xor]
  exact noticed (cancelled.trans UInt16.xor_self)

/-- A single bit that is turned is noticed. -/
theorem decode_modify (h : p.encode = .ok frame) {i bit : Nat} (inside : i < frame.length) (hbit : bit < 8) :
    ∃ cause, decode (frame.modify i (· ^^^ 1 <<< UInt8.ofNat bit)) = .error (.frameInvalid cause) := by
  rw [Bytes.modify_eq_xor _ inside]
  refine decode_xor h ?_ (Crc.feeds_ne_zero_of_odd ?_)
  · simp only [List.length_append, List.length_cons, List.length_replicate]
    omega
  · rw [Bytes.count_bits_single, Bytes.count_bitsOf_one bit hbit]

/-- **Damage is noticed.** Whatever packet was encoded: if an odd number of bits of its frame is turned, or some
that lie within sixteen consecutive ones, what comes of it is not decoded. So it is with any single bit. -/
theorem decode_damaged (short : p.data.length ≤ 0xFFFF) :
    ∃ frame, p.encode = .ok frame ∧
      (∀ error : Bytes, error.length = frame.length → true ∈ Bytes.bits error →
        (Bytes.bits error).count true % 2 = 1 ∨ Crc.Within 16 (Bytes.bits error) →
        ∃ cause, decode (Bytes.xor frame error) = .error (.frameInvalid cause)) ∧
      ∀ i < frame.length, ∀ bit < 8,
        ∃ cause, decode (frame.modify i (· ^^^ 1 <<< UInt8.ofNat bit)) = .error (.frameInvalid cause) := by
  have encoded : p.encode = .ok (p.body ++ Bytes.littleEndian 2 (Crc.ofBytes p.body).toNat) :=
    if_neg (Nat.not_lt.2 short)
  refine ⟨_, encoded, fun error length some such => decode_xor encoded length ?_,
    fun i inside bit hbit => decode_modify encoded inside hbit⟩
  rcases such with odd | burst
  · exact Crc.feeds_ne_zero_of_odd odd
  · exact fun none => Crc.feeds_within burst none some

/-- A burst across the last data byte and both bytes of the checksum, three bits far apart, and one bit of the
start byte. -/
theorem decode_damaged_identify :
    (∃ cause, decode [0xEE, 0, 0, 0, 0, 1, 0xA0, 0xEC, 0x6F] = .error (.frameInvalid cause)) ∧
    (∃ cause, decode [0xEF, 0, 0, 0, 0, 1, 0x28, 0x13, 0x11] = .error (.frameInvalid cause)) ∧
    ∃ cause, decode [0x6E, 0, 0, 0, 0, 1, 0x20, 0x13, 0x10] = .error (.frameInvalid cause) := by
  obtain ⟨frame, encoded, damaged, single⟩ := decode_damaged (p := identifyPacket) (by decide)
  obtain rfl := Except.ok.inj (encode_identify.symm.trans encoded)
  have burst : Crc.Within 16 (Bytes.bits [0, 0, 0, 0, 0, 0, 0x80, 0xFF, 0x7F]) := by
    refine ⟨55, fun i set => ?_⟩
    have inside : i < 72 := (List.getElem?_eq_some_iff.1 set).1
    revert set
    revert i
    decide +kernel
  exact ⟨damaged [0, 0, 0, 0, 0, 0, 0x80, 0xFF, 0x7F] rfl (by decide) (.inr burst),
    damaged [0x01, 0, 0, 0, 0, 0, 0x08, 0, 0x01] rfl (by decide) (.inl (by decide)),
    single 0 (by decide) 7 (by decide)⟩

end Packet

end Metering
