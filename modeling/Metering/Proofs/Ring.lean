import Mathlib.Tactic.SplitIfs
import Metering.Buffer.Ring

set_option autoImplicit false

/-! # A ring as a list

Whatever the place of its first byte, a ring is the list of the bytes it holds: adding puts bytes
behind the list, dropping takes them from its front, and growing does not show. Each operation is
compared place by place (`Ring.getElem?_toList`), the places counted around the ring. -/

namespace Metering

theorem Bytes.getElem?_overwrite (run : Bytes) {place : Nat} (bytes : Bytes) (j : Nat)
    (h : place + bytes.length ≤ run.length) :
    (run.overwrite place bytes)[j]? =
      if place ≤ j ∧ j < place + bytes.length then bytes[j - place]? else run[j]? := by
  have front : (run.take place).length = place := by simp; omega
  unfold Bytes.overwrite
  by_cases before : j < place
  · rw [List.append_assoc, List.getElem?_append_left (by omega), if_neg (by omega),
      List.getElem?_take_of_lt before]
  by_cases within : j < place + bytes.length
  · rw [if_pos ⟨by omega, within⟩, List.getElem?_append_left (by simp; omega),
      List.getElem?_append_right (by omega), front]
  · rw [if_neg (by omega), List.getElem?_append_right (by simp; omega), List.getElem?_drop]
    congr 1
    simp
    omega

namespace Ring

variable (r : Ring) (data : Bytes)

theorem getElem?_toList (i : Nat) :
    r.toList[i]? = if i < r.length then r.storage[(r.head + i) % r.capacity]? else none := by
  have hlt := r.head_lt
  have hle := r.length_le
  by_cases hi : i < r.length
  · rw [if_pos hi]
    unfold toList slices capacity
    by_cases flat : r.head + r.length ≤ r.storage.length
    · rw [if_pos flat, List.append_nil, List.getElem?_take_of_lt hi, List.getElem?_drop,
        Nat.mod_eq_of_lt (by omega)]
    rw [if_neg flat]
    by_cases first : i < r.storage.length - r.head
    · rw [List.getElem?_append_left (by simpa using first), List.getElem?_drop,
        Nat.mod_eq_of_lt (by omega)]
    · have wrapped : (r.head + i) % r.storage.length = r.head + i - r.storage.length := by
        rw [Nat.mod_eq_sub_mod (by omega), Nat.mod_eq_of_lt (by omega)]
      rw [List.getElem?_append_right (by simpa using first), List.length_drop,
        List.getElem?_take_of_lt (by omega), wrapped]
      congr 1
      omega
  · rw [if_neg hi, List.getElem?_eq_none (by simpa using hi)]

@[simp] theorem toList_clear : r.clear.toList = [] := List.eq_nil_of_length_eq_zero (by simp [clear])

@[simp] theorem toList_discard (n : Nat) : (r.discard n).toList = r.toList.drop n := by
  apply List.ext_getElem?
  intro i
  have hle := r.length_le
  rw [List.getElem?_drop, getElem?_toList, getElem?_toList]
  unfold discard discarded
  dsimp only
  split
  next none => rw [if_neg (by dsimp only; omega), if_neg (by omega)]
  next some =>
    have least : min n r.length = n := by omega
    by_cases hi : n + i < r.length
    · rw [if_pos (by dsimp only; omega), if_pos hi]
      dsimp only [capacity]
      rw [least, Nat.mod_add_mod, Nat.add_assoc]
    · rw [if_neg (by dsimp only; omega), if_neg hi]

@[simp] theorem storage_discard (n : Nat) : (r.discard n).storage = r.storage := by
  unfold discard
  dsimp only
  split <;> rfl

@[simp] theorem length_discard (n : Nat) : (r.discard n).length = r.length - n := by
  rw [← length_toList, toList_discard, List.length_drop, length_toList]

theorem head_discard (n : Nat) :
    (r.discard n).head = if r.length ≤ n then 0 else (r.head + n) % r.storage.length := by
  unfold discard discarded
  dsimp only
  split
  next none => rw [if_pos (by omega)]
  next some =>
    have least : min n r.length = n := by omega
    rw [if_neg (by omega)]
    exact congrArg (fun k => (r.head + k) % r.storage.length) least

/-- More than there is cannot be dropped. -/
theorem discard_discarded (n : Nat) : r.discard (r.discarded n) = r.discard n := by
  unfold discarded
  refine Ring.ext (by simp) ?_ (by simp; omega)
  rw [head_discard, head_discard]
  by_cases emptied : r.length ≤ n
  · rw [if_pos (by omega), if_pos emptied]
  · rw [if_neg (by omega), if_neg emptied, Nat.min_eq_left (by omega)]

theorem discard_zero : r.discard 0 = r := by
  refine Ring.ext (r.storage_discard 0) ?_ (r.length_discard 0)
  rw [head_discard]
  split
  next none => exact (r.head_of_empty (Nat.le_zero.1 none)).symm
  next => exact Nat.mod_eq_of_lt r.head_lt

theorem discard_discard (a b : Nat) : (r.discard a).discard b = r.discard (a + b) := by
  refine Ring.ext (by simp) ?_ (by simp [Nat.sub_sub])
  rw [head_discard, head_discard, head_discard, length_discard, storage_discard]
  by_cases emptied : r.length ≤ a + b
  · rw [if_pos (by omega), if_pos emptied]
  · rw [if_neg (by omega), if_neg (by omega), if_neg emptied, Nat.mod_add_mod, Nat.add_assoc]

theorem toList_of_flat (h : r.head + r.length ≤ r.capacity) :
    r.toList = (r.storage.drop r.head).take r.length := by
  rw [toList, slices, if_pos h, List.append_nil]

@[simp] theorem toList_reserve (extra : Nat) : (r.reserve extra).toList = r.toList := by
  by_cases fits : extra ≤ r.capacity - r.length
  · rw [reserve, if_pos fits]
  · rw [toList_of_flat _ (by rw [reserve, if_neg fits]; simp [capacity]), reserve, if_neg fits]
    dsimp only
    rw [List.drop_zero, List.take_append_of_le_length (by simp), List.take_of_length_le (by simp)]

theorem capacity_le_reserve (extra : Nat) : r.capacity ≤ (r.reserve extra).capacity := by
  unfold reserve
  split
  next => exact Nat.le_refl _
  next =>
    have := r.capacity_le_grownCapacity extra
    have := r.length_add_le_grownCapacity extra
    simp only [capacity, List.length_append, length_toList, List.length_replicate] at *
    omega

/-- What a run around the ring holds after `data` was written into it. -/
theorem getElem?_fill (storage : Bytes) {start : Nat} (j : Nat) (hs : start < storage.length)
    (hd : data.length ≤ storage.length) :
    (fill storage start data)[j]? =
      if j + storage.length < start + data.length then data[j + storage.length - start]?
      else if start ≤ j ∧ j < start + data.length ∧ j < storage.length then data[j - start]?
      else storage[j]? := by
  have first : (data.take (min data.length (storage.length - start))).length =
      min data.length (storage.length - start) := by simp
  have kept : (storage.overwrite start (data.take (min data.length (storage.length - start)))).length =
      storage.length := Bytes.length_overwrite _ _ _ (by omega)
  unfold fill
  dsimp only
  rw [Bytes.getElem?_overwrite _ _ _ (by rw [kept]; simp; omega),
    Bytes.getElem?_overwrite _ _ _ (by omega), first]
  simp only [List.length_drop, Nat.zero_add, Nat.zero_le, true_and, Nat.sub_zero]
  by_cases wrapped : j + storage.length < start + data.length
  · rw [if_pos (by omega), if_pos wrapped, List.getElem?_drop]
    congr 1
    omega
  rw [if_neg (by omega), if_neg wrapped]
  by_cases written : start ≤ j ∧ j < start + data.length ∧ j < storage.length
  · rw [if_pos (by omega), if_pos written, List.getElem?_take_of_lt (by omega)]
  · rw [if_neg (by omega), if_neg written]

/-- A place less than two turns around the ring. -/
theorem mod_of_lt_two_mul {x n : Nat} (h : x < n + n) : x % n = if x < n then x else x - n := by
  split
  next small => exact Nat.mod_eq_of_lt small
  next large => rw [Nat.mod_eq_sub_mod (by omega), Nat.mod_eq_of_lt (by omega)]

/-- Bytes written behind those in use: the ones in use stay, and the new ones follow. -/
theorem getElem?_fill_behind (storage : Bytes) {head length i : Nat} (hh : head < storage.length)
    (fits : length + data.length ≤ storage.length) (hi : i < length + data.length) :
    (fill storage ((head + length) % storage.length) data)[(head + i) % storage.length]? =
      if i < length then storage[(head + i) % storage.length]? else data[i - length]? := by
  rw [getElem?_fill _ _ _ (Nat.mod_lt _ (by omega)) (by omega), mod_of_lt_two_mul (by omega),
    mod_of_lt_two_mul (by omega)]
  by_cases old : i < length
  · rw [if_pos old, if_neg (by split_ifs <;> omega), if_neg (by split_ifs <;> omega)]
  · rw [if_neg old]
    split_ifs <;> first | omega | (congr 1; omega)

theorem capacity_put : (r.put data).capacity = (r.reserve data.length).capacity :=
  length_fill _ _ _
    (Nat.le_of_lt (Nat.mod_lt _ (Nat.lt_of_le_of_lt (Nat.zero_le _) (r.reserve data.length).head_lt)))
    (Nat.le_trans (Nat.le_add_left _ _) (r.length_add_le_capacity_reserve data.length))

@[simp] theorem toList_put : (r.put data).toList = r.toList ++ data := by
  rw [← r.toList_reserve data.length]
  have fits := r.length_add_le_capacity_reserve data.length
  have hlt := (r.reserve data.length).head_lt
  have kept : (r.put data).capacity = (r.reserve data.length).storage.length := r.capacity_put data
  apply List.ext_getElem?
  intro i
  have length : (r.put data).length = (r.reserve data.length).length + data.length := rfl
  rw [getElem?_toList, kept]
  by_cases hi : i < (r.put data).length
  · rw [length] at hi
    rw [if_pos (by rw [length]; exact hi)]
    refine (getElem?_fill_behind data _ hlt fits hi).trans ?_
    split
    next old =>
      rw [List.getElem?_append_left (by rwa [length_toList]), getElem?_toList, if_pos old]
      rfl
    next new =>
      rw [List.getElem?_append_right (by rw [length_toList]; omega), length_toList]
  · rw [if_neg hi, List.getElem?_eq_none]
    rw [List.length_append, length_toList]
    omega

/-- What the storage holds some places behind the first that was written around it. -/
theorem getElem?_writeAround (storage : Bytes) {start j : Nat} (fits : data.length ≤ storage.length)
    (hj : j < storage.length) :
    (writeAround storage start data)[(start + j) % storage.length]? =
      if j < data.length then data[j]? else storage[(start + j) % storage.length]? := by
  induction data generalizing storage start j with
  | nil => rfl
  | cons byte more ih =>
    have positive : 0 < storage.length := Nat.lt_of_le_of_lt (Nat.zero_le _) hj
    have place : start % storage.length < storage.length := Nat.mod_lt _ positive
    have fitting : more.length + 1 ≤ storage.length := fits
    rw [writeAround]
    cases j with
    | zero =>
      -- the first place is the last one seen from the place behind it, which is not written any more
      have around : start + 0 + storage.length = start + 1 + (storage.length - 1) := by omega
      have last := @ih (storage.set (start % storage.length) byte) (start + 1) (storage.length - 1)
        (by rw [List.length_set]; omega) (by rw [List.length_set]; omega)
      rw [List.length_set, ← around, Nat.add_mod_right, if_neg (by omega)] at last
      rw [last, Nat.add_zero, List.getElem?_set_self place]
      rfl
    | succ j =>
      have next := @ih (storage.set (start % storage.length) byte) (start + 1) j
        (by rw [List.length_set]; omega) (by rw [List.length_set]; omega)
      rw [List.length_set, Nat.add_right_comm, Nat.add_assoc] at next
      have other : start % storage.length ≠ (start + (j + 1)) % storage.length := by
        intro same
        have apart := Nat.sub_mod_eq_zero_of_mod_eq same.symm
        rw [Nat.add_sub_cancel_left, Nat.mod_eq_of_lt hj] at apart
        exact Nat.succ_ne_zero j apart
      rw [next, List.getElem?_set_ne other, List.length_cons, List.getElem?_cons_succ]
      simp only [Nat.add_lt_add_iff_right]

/-- A place counted from some places before `head`. -/
theorem mod_before {head n i size : Nat} (hn : n ≤ i) (hi : i < size) :
    ((head + size - n % size) % size + i) % size = (head + (i - n)) % size := by
  have around : head + size - n + i = head + (i - n) + size := by omega
  rw [Nat.mod_eq_of_lt (Nat.lt_of_le_of_lt hn hi), Nat.mod_add_mod, around, Nat.add_mod_right]

theorem capacity_unget : (r.unget data).capacity = (r.reserve data.length).capacity :=
  length_writeAround _ _ _

@[simp] theorem toList_unget : (r.unget data).toList = data ++ r.toList := by
  rw [← r.toList_reserve data.length]
  have fits := r.length_add_le_capacity_reserve data.length
  have room : (r.reserve data.length).length + data.length ≤ (r.reserve data.length).storage.length := fits
  have kept : (r.unget data).capacity = (r.reserve data.length).storage.length := r.capacity_unget data
  have length : (r.unget data).length = (r.reserve data.length).length + data.length := rfl
  apply List.ext_getElem?
  intro i
  rw [getElem?_toList, kept]
  by_cases hi : i < (r.unget data).length
  · rw [if_pos hi]
    rw [length] at hi
    refine (getElem?_writeAround data (r.reserve data.length).storage (by omega) (by omega)).trans ?_
    by_cases new : i < data.length
    · rw [if_pos new, List.getElem?_append_left new]
    · -- behind the new bytes stand the old ones
      rw [if_neg new, List.getElem?_append_right (by omega), getElem?_toList, if_pos (by omega)]
      exact congrArg _ (mod_before (by omega) (by omega))
  · rw [if_neg hi, List.getElem?_eq_none]
    rw [List.length_append, length_toList]
    omega

/-! ## Looking at and taking the bytes -/

/-- The first byte, looked at. -/
theorem peekByte?_zero : r.peekByte? 0 = r.toList[0]? := by
  rw [getElem?_toList]
  rfl

/-- Two runs written over the front of a buffer, one behind the other. -/
theorem overwrite_overwrite (buffer first second : Bytes) :
    (buffer.overwrite 0 first).overwrite first.length second =
      first ++ second ++ buffer.drop (first.length + second.length) := by
  simp [Bytes.overwrite, List.drop_append]

theorem peekInto_eq (buffer : Bytes) :
    r.peekInto buffer = (min buffer.length r.length, r.toList.take buffer.length ++ buffer.drop r.length) := by
  have held : r.slices.1.length + r.slices.2.length = r.length := by
    rw [← List.length_append]
    exact r.length_toList
  unfold peekInto
  dsimp only
  generalize hn : min buffer.length r.length = n
  have first : (r.slices.1.take (min n r.slices.1.length)).length = min n r.slices.1.length := by
    rw [List.length_take]
    omega
  have copied := overwrite_overwrite buffer (r.slices.1.take (min n r.slices.1.length))
    (r.slices.2.take (n - min n r.slices.1.length))
  rw [first] at copied
  have front : r.slices.1.take (min n r.slices.1.length) = r.slices.1.take buffer.length := by
    rw [List.take_eq_take_iff]
    omega
  have back : r.slices.2.take (n - min n r.slices.1.length) =
      r.slices.2.take (buffer.length - r.slices.1.length) := by
    rw [List.take_eq_take_iff]
    omega
  have rest : buffer.drop (min n r.slices.1.length + (r.slices.2.take (n - min n r.slices.1.length)).length) =
      buffer.drop r.length := by
    rw [List.drop_eq_drop_iff, List.length_take]
    omega
  rw [copied, rest, front, back, toList, List.take_append]

theorem peek_eq (count : Nat) : r.peek count = r.toList.take count := by
  rw [peek, peekInto_eq, List.length_replicate, List.drop_eq_nil_of_le (by rw [List.length_replicate]; omega),
    List.append_nil]
  rw [List.take_eq_take_iff, length_toList]
  omega

theorem get_eq (count : Nat) : r.get count = (r.toList.take count, r.discard count) := by
  have taken : (r.peekInto (List.replicate (min count r.length) 0)).1 = r.discarded count := by
    rw [peekInto_eq, List.length_replicate]
    exact Nat.min_eq_left (Nat.min_le_right _ _)
  refine Prod.ext (r.peek_eq count) ?_
  rw [← discard_discarded, ← taken]
  rfl

/-! ## Dropping what is not wanted -/

theorem dropUntil_eq (wanted : Bytes) (dropped : Nat) {bound : Nat} (h : r.length ≤ bound) :
    dropUntil wanted bound dropped r =
      ((dropped + (r.toList.takeWhile fun b => !wanted.contains b).length,
          decide ((r.toList.takeWhile fun b => !wanted.contains b).length < r.length)),
        r.discard (r.toList.takeWhile fun b => !wanted.contains b).length) := by
  induction bound generalizing r dropped with
  | zero =>
    have none : r.toList = [] := List.eq_nil_of_length_eq_zero (by rw [length_toList]; omega)
    rw [dropUntil, none, List.takeWhile_nil, List.length_nil, discard_zero]
    simp only [Nat.add_zero, Nat.le_zero.1 h, Nat.lt_irrefl, decide_false]
  | succ bound ih =>
    rw [dropUntil, peekByte?_zero]
    cases held : r.toList with
    | nil =>
      have none : r.length = 0 := by rw [← length_toList, held, List.length_nil]
      rw [List.takeWhile_nil, List.length_nil, discard_zero]
      simp only [List.getElem?_nil, Nat.add_zero, none, Nat.lt_irrefl, decide_false]
    | cons byte more =>
      have some : r.length = more.length + 1 := by rw [← length_toList, held, List.length_cons]
      have rest : (r.discard 1).toList = more := by rw [toList_discard, held, List.drop_succ_cons, List.drop_zero]
      rw [List.getElem?_cons_zero]
      dsimp only
      by_cases found : wanted.contains byte
      · rw [if_pos found, List.takeWhile_cons_of_neg (by simpa using found), List.length_nil, discard_zero]
        simp only [Nat.add_zero, some, Nat.zero_lt_succ, decide_true]
      · rw [if_neg found, ih (r.discard 1) (dropped + 1) (by rw [length_discard]; omega), rest,
          List.takeWhile_cons_of_pos (by simpa using found), List.length_cons, length_discard, discard_discard,
          some, Nat.add_sub_cancel, Nat.add_assoc, Nat.add_comm 1]
        simp only [Nat.add_lt_add_iff_right]

/-- What is dropped is the front without a wanted byte. -/
theorem discardUntil_eq (wanted : Bytes) :
    r.discardUntil wanted =
      (((r.toList.takeWhile fun b => !wanted.contains b).length,
          decide ((r.toList.takeWhile fun b => !wanted.contains b).length < r.length)),
        r.discard (r.toList.takeWhile fun b => !wanted.contains b).length) := by
  rw [discardUntil, dropUntil_eq r wanted 0 (Nat.le_refl _), Nat.zero_add]

theorem toList_discardUntil (wanted : Bytes) :
    (r.discardUntil wanted).2.toList = r.toList.dropWhile fun b => !wanted.contains b := by
  rw [discardUntil_eq, toList_discard]
  exact (congrArg (List.drop _) List.takeWhile_append_dropWhile.symm).trans (List.drop_left' rfl)

end Ring

end Metering
