import Metering.Proofs.Contents

set_option autoImplicit false

/-! # Table contents there and back

Table contents are built in one place, as a count, the data and their checksum, and taken in another one. What was
built is taken back whole, whatever stands behind it; a byte of the data or of the checksum that was changed leaves
the length as it is and the checksum wrong; and contents that are cut short are refused, with the count and the number
of data bytes that are there (`TableData.take_tableContents`). -/

namespace Metering

/-! ## A byte that is changed -/

namespace Bytes

variable {bytes : Bytes} {i : Nat} {b : UInt8}

theorem total_set (b : UInt8) (inside : i < bytes.length) :
    Bytes.total (bytes.set i b) + bytes[i].toNat = bytes.total + b.toNat := by
  induction bytes generalizing i with
  | nil => exact absurd inside (Nat.not_lt_zero i)
  | cons first rest ih =>
    cases i with
    | zero =>
      simp only [total, List.set_cons_zero, List.foldr_cons, List.getElem_cons_zero]
      omega
    | succ i =>
      have later := ih (Nat.lt_of_succ_lt_succ inside)
      simp only [total, List.set_cons_succ, List.foldr_cons, List.getElem_cons_succ] at later ⊢
      omega

/-- One byte that is changed does not leave the sum at zero. -/
theorem total_set_ne_zero (inside : i < bytes.length) (other : bytes[i] ≠ b) (zero : bytes.total % 256 = 0) :
    Bytes.total (bytes.set i b) % 256 ≠ 0 := by
  have moved := total_set b inside
  have differ : bytes[i].toNat ≠ b.toNat := fun same => other (UInt8.toNat_inj.1 same)
  have old := bytes[i].toNat_lt
  have new := b.toNat_lt
  omega

end Bytes

namespace TableData

variable (number : UInt16) (offset : Option UInt32)

/-! ## Taking contents -/

variable {count : Nat} (short : count ≤ 0xFFFF) (position : Nat)

include short

theorem run_number_counted (rest : Bytes) :
    (Reader.number 2).run ⟨position, Bytes.bigEndian 2 count ++ rest⟩ = (.ok count, ⟨position + 2, rest⟩) :=
  Reader.takes_number (Nat.lt_of_le_of_lt short (by decide)) position rest

/-- Behind a count, one byte more than it says has to be there. -/
theorem run_take_short {rest : Bytes} (few : rest.length < count + 1) :
    (take number offset).run ⟨position, Bytes.bigEndian 2 count ++ rest⟩ =
      (.error (.partialData count (min rest.length count)), ⟨position + 2, rest⟩) := by
  unfold take
  rw [Step.run_bind_of_ok (run_number_counted short position rest), Step.run_bind_of_ok (Reader.run_remaining _),
    if_pos few]
  rfl

/-- As many bytes as the count says are the data, and one more is the checksum, which may be wrong. -/
theorem run_take_whole {data : Bytes} (length : data.length = count) (checksum : UInt8) (trailing : Bytes) :
    (take number offset).run ⟨position, Bytes.bigEndian 2 count ++ (data ++ checksum :: trailing)⟩ =
      (.ok ⟨number, offset, data, count, checksum = tableChecksum data⟩, ⟨position + (count + 3), trailing⟩) := by
  have enough : ¬ (data ++ checksum :: trailing).length < count + 1 := by simp [length]
  have taken := Reader.takes_take data (position + 2) (checksum :: trailing)
  rw [length] at taken
  have behind : position + 2 + count + 1 = position + (count + 3) := by omega
  unfold take
  rw [Step.run_bind_of_ok (run_number_counted short position _), Step.run_bind_of_ok (Reader.run_remaining _),
    if_neg enough, Step.run_bind_of_ok taken, Step.run_bind_of_ok (Reader.run_byte _ _ _), behind]
  rfl

/-- What stands behind the count is data with their checksum exactly if it sums up to zero. -/
theorem run_take_body {body : Bytes} (length : body.length = count + 1) (trailing : Bytes) :
    (take number offset).run ⟨position, Bytes.bigEndian 2 count ++ (body ++ trailing)⟩ =
      (.ok ⟨number, offset, body.take count, count, body.total % 256 = 0⟩,
        ⟨position + (count + 3), trailing⟩) := by
  obtain rfl | ⟨data, checksum, rfl⟩ := List.eq_nil_or_concat' body
  · cases length
  · have size : data.length = count := by simpa using length
    have whole := run_take_whole number offset short position size checksum trailing
    rw [List.append_assoc, List.singleton_append, whole, List.take_left' size]
    simp only [eq_tableChecksum_iff]

omit short

/-- Without a whole count nothing is taken. -/
theorem run_take_uncounted {front : Bytes} (few : front.length < 2) :
    (take number offset).run ⟨position, front⟩ =
      (.error (.partialData (position + 2) (position + front.length)), ⟨position, front⟩) := by
  have none := Reader.run_take 2 ⟨position, front⟩
  rw [if_pos few] at none
  have uncounted : (Reader.number 2).run ⟨position, front⟩ =
      (.error (Reader.short ⟨position, front⟩ 2), ⟨position, front⟩) :=
    Step.run_bind_of_error none
  exact Step.run_bind_of_error uncounted

/-- **Table contents there and back.** Data that fit their count are built into contents, and

* contents that are built give the data back, complete and with a checksum that is right, and leave what stands
  behind them;
* one byte of the data or of the checksum that was changed leaves the length and makes the checksum wrong;
* contents that are cut short are refused: by how many bytes there are as long as the count is not whole, and then
  with the count and the number of data bytes that are there. -/
theorem take_tableContents {data : Bytes} (fits : data.length ≤ 0xFFFF) :
    ∃ contents, Request.tableContents data = .ok contents ∧ contents.length = data.length + 3 ∧
      (∀ position trailing, (take number offset).run ⟨position, contents ++ trailing⟩ =
        (.ok ⟨number, offset, data, data.length, true⟩, ⟨position + contents.length, trailing⟩)) ∧
      (∀ i b, 2 ≤ i → ∀ inside : i < contents.length, contents[i] ≠ b → ∀ position trailing, ∃ damaged,
        damaged.length = data.length ∧ (take number offset).run ⟨position, contents.set i b ++ trailing⟩ =
          (.ok ⟨number, offset, damaged, data.length, false⟩, ⟨position + contents.length, trailing⟩)) ∧
      ∀ front, front <+: contents → front ≠ contents → ∀ position,
        ((take number offset).run ⟨position, front⟩).1 = .error (
          if front.length < 2 then .partialData (position + 2) (position + front.length)
          else .partialData data.length ((front.drop 2).take data.length).length) := by
  have built : Request.tableContents data =
      .ok (Bytes.bigEndian 2 data.length ++ (data ++ [tableChecksum data])) := by
    rw [Request.tableContents, if_neg (Nat.not_lt_of_le fits), List.append_assoc]
  have counted := Bytes.length_bigEndian 2 data.length
  have size : (Bytes.bigEndian 2 data.length ++ (data ++ [tableChecksum data])).length = data.length + 3 := by
    simp only [List.length_append, counted, List.length_singleton]
    omega
  refine ⟨_, built, size, ?_, ?_, ?_⟩
  · intro position trailing
    have whole := run_take_whole number offset fits position rfl (tableChecksum data) trailing
    rw [decide_eq_true rfl] at whole
    rw [size, List.append_assoc, List.append_assoc, List.singleton_append, whole]
  · intro i b behind inside other position trailing
    -- behind the count stands a body that summed up to zero
    have place : i - 2 < (data ++ [tableChecksum data]).length := by
      rw [size] at inside
      rw [List.length_append, List.length_singleton]
      omega
    have old : (data ++ [tableChecksum data])[i - 2] ≠ b := by
      rw [List.getElem_append_right (by omega)] at other
      simpa only [counted] using other
    have zero : Bytes.total (data ++ [tableChecksum data]) % 256 = 0 := eq_tableChecksum_iff.1 rfl
    have wrong := decide_eq_false (Bytes.total_set_ne_zero place old zero)
    have length : ((data ++ [tableChecksum data]).set (i - 2) b).length = data.length + 1 := by simp
    have taken := run_take_body number offset fits position length trailing
    rw [wrong] at taken
    refine ⟨((data ++ [tableChecksum data]).set (i - 2) b).take data.length, by simp, ?_⟩
    rw [List.set_append_right _ _ (by omega), counted, List.append_assoc, taken, size]
  · intro front part short position
    have fewer : front.length < data.length + 3 := by
      rw [← size]
      exact Nat.lt_of_le_of_ne part.length_le fun same => short (part.eq_of_length same)
    by_cases uncounted : front.length < 2
    · rw [if_pos uncounted, run_take_uncounted number offset position uncounted]
    · have whole : Bytes.bigEndian 2 data.length <+: front :=
        List.prefix_of_prefix_length_le (List.prefix_append _ _) part (by rw [counted]; exact Nat.le_of_not_lt uncounted)
      obtain ⟨rest, rfl⟩ := whole
      rw [if_neg uncounted, List.drop_left' counted]
      rw [List.length_append, counted] at fewer
      rw [run_take_short number offset fits position (by omega), List.length_take, Nat.min_comm]

/-- Two bytes of data with a byte behind them: whole, with a wrong byte and with a wrong checksum, and cut short in the
count, in the data and in front of the checksum. -/
theorem take_tableContents_pair :
    Request.tableContents [0x10, 0x20] = .ok [0, 2, 0x10, 0x20, 0xD0] ∧
      (take 3 none).run ⟨1, [0, 2, 0x10, 0x20, 0xD0, 6]⟩ = (.ok ⟨3, none, [0x10, 0x20], 2, true⟩, ⟨6, [6]⟩) ∧
      (∃ damaged : Bytes, damaged.length = 2 ∧
        (take 3 none).run ⟨1, [0, 2, 0x10, 0x21, 0xD0, 6]⟩ = (.ok ⟨3, none, damaged, 2, false⟩, ⟨6, [6]⟩)) ∧
      (∃ damaged : Bytes, damaged.length = 2 ∧
        (take 3 none).run ⟨1, [0, 2, 0x10, 0x20, 0xD1, 6]⟩ = (.ok ⟨3, none, damaged, 2, false⟩, ⟨6, [6]⟩)) ∧
      ((take 3 none).run ⟨1, [0]⟩).1 = .error (.partialData 3 2) ∧
      ((take 3 none).run ⟨1, [0, 2, 0x10]⟩).1 = .error (.partialData 2 1) ∧
      ((take 3 none).run ⟨1, [0, 2, 0x10, 0x20]⟩).1 = .error (.partialData 2 2) := by
  have fits : ([0x10, 0x20] : Bytes).length ≤ 0xFFFF := by decide
  obtain ⟨contents, built, -, whole, damaged, short⟩ := take_tableContents 3 none fits
  have contents_eq : Request.tableContents [0x10, 0x20] = .ok [0, 2, 0x10, 0x20, 0xD0] := by decide
  obtain rfl := Except.ok.inj (contents_eq.symm.trans built)
  exact ⟨contents_eq, whole 1 [6], damaged 3 0x21 (by decide) (by decide) (by decide) 1 [6],
    damaged 4 0xD1 (by decide) (by decide) (by decide) 1 [6], short [0] (by decide) (by decide) 1,
    short [0, 2, 0x10] (by decide) (by decide) 1, short [0, 2, 0x10, 0x20] (by decide) (by decide) 1⟩

end TableData

end Metering
