import Metering.Proofs.Ring
import Metering.Proofs.Traps

set_option autoImplicit false

/-! # The ring does not trap

What is done with a ring is carried out as on a machine: places are counted around the storage, the contents are
cut out of it as two runs, and bytes are copied from one run into another, which must have just the room. The
storage is in memory (`Ring.Fits`), and so must be the larger one that a ring grows into. -/

namespace Metering

namespace Checked

variable {σ : Type} {m : Machine}

/-- A remainder; a machine traps on a division by zero. -/
def rem (a b : Nat) : Checked σ Nat := if b = 0 then trap else pure (a % b)

/-- Zeros in memory. No run is longer than half of what can be counted. -/
def zeros (m : Machine) (n : Nat) : Checked σ Bytes := if 2 * n ≤ m.largest then pure (List.replicate n 0) else trap

theorem rem_eq {a b : Nat} (h : 0 < b) : rem a b = (pure (a % b) : Checked σ Nat) := if_neg (Nat.ne_of_gt h)

theorem zeros_eq {n : Nat} (h : 2 * n ≤ m.largest) : zeros m n = (pure (List.replicate n 0) : Checked σ Bytes) :=
  if_pos h

theorem overwrite_eq {target source : Bytes} {start stop : Nat} (whole : start + source.length = stop)
    (room : stop ≤ target.length) :
    overwrite target start stop source = (pure (target.overwrite start source) : Checked σ Bytes) := by
  subst whole
  exact if_pos ⟨Nat.le_add_right _ _, room, (Nat.add_sub_cancel_left _ _).symm⟩

end Checked

namespace Ring

open Checked

variable {σ : Type} (m : Machine) (r : Ring)

/-! ## Operations -/

/-- A ring of its parts. It counts as a trap if they are not those of a ring. -/
def checkedOf (storage : Bytes) (head length : Nat) : Checked σ Ring :=
  if h : head < storage.length ∧ length ≤ storage.length ∧ (length = 0 → head = 0) then
    pure ⟨storage, head, length, h.1, h.2.1, h.2.2⟩
  else trap

/-- The place in the storage of a position counted from the front. -/
def checkedPlace (position : Nat) : Checked σ Nat := do rem (← add m.largest r.head position) r.storage.length

/-- The contents as at most two runs of the storage. -/
def checkedSlices : Checked σ (Bytes × Bytes) := do
  let capacity := r.storage.length
  let stop ← add m.largest r.head r.length
  if stop ≤ capacity then return (← slice r.storage r.head stop, [])
  let tail ← sub capacity r.head
  return (← slice r.storage r.head capacity, ← slice r.storage 0 (← sub r.length tail))

/-- The capacity that a ring grows to by the size of an addition, or to twice its own. -/
def checkedGrown (extra : Nat) : Checked σ Nat :=
  if r.storage.length < extra then add m.largest r.storage.length extra else mul m.largest r.storage.length 2

/-- Makes room for `extra` more bytes. -/
def checkedReserve (extra : Nat) : Checked σ Ring := do
  let free ← sub r.storage.length r.length
  if extra ≤ free then return r
  let grown ← r.checkedGrown m extra
  let storage ← zeros m (max grown (← add m.largest r.length extra))
  let (first, second) ← r.checkedSlices m
  let storage ← overwrite storage 0 first.length first
  let storage ← overwrite storage first.length (← add m.largest first.length second.length) second
  checkedOf storage 0 r.length

/-- Writes `data` into the storage from a place on, going on at the front. -/
def checkedFill (storage : Bytes) (start : Nat) (data : Bytes) : Checked σ Bytes := do
  let first := min data.length (← sub storage.length start)
  let storage ← overwrite storage start (← add m.largest start first) (← slice data 0 first)
  overwrite storage 0 (← sub data.length first) (← slice data first data.length)

/-- Adds bytes at the back. -/
def checkedPut (data : Bytes) : Checked σ Ring := do
  let s ← r.checkedReserve m data.length
  let storage ← checkedFill m s.storage (← s.checkedPlace m s.length) data
  checkedOf storage s.head (← add m.largest s.length data.length)

/-- Copies bytes from the front over the front of `buffer`: how many, and the buffer after it. -/
def checkedPeekInto (buffer : Bytes) : Checked σ (Nat × Bytes) := do
  let n := min buffer.length r.length
  let (first, second) ← r.checkedSlices m
  let fromFirst := min n first.length
  let buffer ← overwrite buffer 0 fromFirst (← slice first 0 fromFirst)
  let buffer ← overwrite buffer fromFirst n (← slice second 0 (← sub n fromFirst))
  return (n, buffer)

/-- The byte at a place counted from the front. -/
def checkedPeekByte (position : Nat) : Checked σ (Option UInt8) := do
  if position < r.length then return some (← index r.storage (← r.checkedPlace m position)) else return none

/-- Drops up to `count` bytes from the front. -/
def checkedDiscard (count : Nat) : Checked σ Ring := do
  let n := min count r.length
  let head ← r.checkedPlace m n
  let length ← sub r.length n
  checkedOf r.storage (if length = 0 then 0 else head) length

/-- Takes up to `count` bytes from the front. -/
def checkedGet (count : Nat) : Checked σ (Bytes × Ring) := do
  let buffer ← zeros m (min count r.length)
  let (n, bytes) ← r.checkedPeekInto m buffer
  return (bytes, ← r.checkedDiscard m n)

/-- Goes on dropping bytes until a wanted one is first. -/
def checkedDropUntil (wanted : Bytes) : (bound dropped : Nat) → Ring → Checked σ ((Nat × Bool) × Ring)
  | 0, _, _ => trap
  | bound + 1, dropped, r => do
    match ← r.checkedPeekByte m 0 with
    | none => return ((dropped, false), r)
    | some byte =>
      if wanted.contains byte then return ((dropped, true), r)
      let r ← r.checkedDiscard m 1
      let dropped ← add m.largest dropped 1
      checkedDropUntil wanted bound dropped r

/-- Drops bytes until a wanted one is first. -/
def checkedDiscardUntil (wanted : Bytes) : Checked σ ((Nat × Bool) × Ring) :=
  checkedDropUntil m wanted (r.length + 1) 0 r

/-! ## They agree -/

/-- The storage is in memory. -/
def Fits : Prop := 2 * r.capacity ≤ m.largest

variable {m r}

theorem checkedOf_eq (s : Ring) : checkedOf s.storage s.head s.length = (pure s : Checked σ Ring) :=
  dif_pos ⟨s.head_lt, s.length_le, s.head_of_empty⟩

theorem capacity_pos (r : Ring) : 0 < r.capacity := Nat.lt_of_le_of_lt (Nat.zero_le _) r.head_lt

theorem Fits.add_head {position : Nat} (fits : r.Fits m) (inside : position ≤ r.capacity) :
    r.head + position ≤ m.largest := by
  have head := r.head_lt
  unfold Fits capacity at *
  omega

theorem checkedPlace_eq {position : Nat} (fits : r.Fits m) (inside : position ≤ r.capacity) :
    r.checkedPlace m position = (pure ((r.head + position) % r.capacity) : Checked σ Nat) := by
  rw [checkedPlace, add_eq (fits.add_head inside), pure_bind]
  exact rem_eq r.capacity_pos

theorem checkedSlices_eq (fits : r.Fits m) : r.checkedSlices m = (pure r.slices : Checked σ (Bytes × Bytes)) := by
  have head := r.head_lt
  have length := r.length_le
  rw [checkedSlices, add_eq (fits.add_head length), pure_bind, slices, capacity]
  split
  next flat =>
    rw [slice_eq (Nat.le_add_right _ _) flat, pure_bind, Nat.add_sub_cancel_left]
  next around =>
    rw [sub_eq (Nat.le_of_lt head), pure_bind, slice_behind (Nat.le_of_lt head), pure_bind, sub_eq (by omega), pure_bind,
      slice_front (by omega)]
    rfl

theorem capacity_reserve (extra : Nat) : (r.reserve extra).capacity = r.grownCapacity extra := by
  have larger := r.length_add_le_grownCapacity extra
  unfold reserve
  split
  next enough => exact (if_pos enough).symm
  next =>
    simp only [capacity, List.length_append, length_toList, List.length_replicate] at *
    omega

/-- A ring that has to grow gets no larger than twice what it is to hold. -/
theorem grownCapacity_le (r : Ring) (extra : Nat) : r.grownCapacity extra ≤ max r.capacity (2 * (r.length + extra)) := by
  have length : r.length ≤ r.capacity := r.length_le
  unfold grownCapacity
  split
  · exact Nat.le_max_left _ _
  · split <;> omega

theorem Fits.reserve {extra : Nat} (fits : r.Fits m) (room : 4 * (r.length + extra) ≤ m.largest) :
    (r.reserve extra).Fits m := by
  have grown := r.grownCapacity_le extra
  unfold Fits at *
  rw [capacity_reserve]
  omega

theorem length_slices (r : Ring) : r.slices.1.length + r.slices.2.length = r.length := by
  rw [← List.length_append]
  exact r.length_toList

theorem checkedGrown_eq {extra : Nat} (fits : r.Fits m) (room : 4 * (r.length + extra) ≤ m.largest) :
    r.checkedGrown m extra =
      (pure (if r.capacity < extra then r.capacity + extra else r.capacity * 2) : Checked σ Nat) := by
  unfold Fits capacity at *
  unfold checkedGrown
  split
  · exact add_eq (by omega)
  · exact mul_eq (by omega)

theorem checkedReserve_eq {extra : Nat} (fits : r.Fits m) (room : 4 * (r.length + extra) ≤ m.largest) :
    r.checkedReserve m extra = (pure (r.reserve extra) : Checked σ Ring) := by
  rw [checkedReserve, sub_eq r.length_le, pure_bind]
  by_cases enough : extra ≤ r.capacity - r.length
  · rw [reserve, if_pos enough]
    exact if_pos enough
  have held := r.length_slices
  have larger := r.length_add_le_grownCapacity extra
  have inMemory := fits.reserve room
  rw [Fits, capacity_reserve] at inMemory
  have grown : max (if r.capacity < extra then r.capacity + extra else r.capacity * 2) (r.length + extra) =
      r.grownCapacity extra := (if_neg enough).symm
  have whole : (List.replicate (r.grownCapacity extra) (0 : UInt8)).length = r.grownCapacity extra := List.length_replicate
  have front := Bytes.length_overwrite (List.replicate (r.grownCapacity extra) 0) 0 r.slices.1 (by omega)
  -- the two runs go one behind the other, and the rest stays zero
  have copied : Bytes.overwrite (Bytes.overwrite (List.replicate (r.grownCapacity extra) 0) 0 r.slices.1)
      r.slices.1.length r.slices.2 = r.toList ++ List.replicate (r.grownCapacity extra - r.length) 0 := by
    rw [overwrite_overwrite, held, List.drop_replicate]
    rfl
  rw [if_neg (show ¬ extra ≤ r.storage.length - r.length from enough), checkedGrown_eq fits room, pure_bind,
    add_eq (by omega), pure_bind, grown, zeros_eq inMemory, pure_bind, checkedSlices_eq fits, pure_bind]
  dsimp only
  rw [overwrite_eq (Nat.zero_add _) (by omega), pure_bind, add_eq (by omega), pure_bind, overwrite_eq rfl (by omega),
    pure_bind, copied, reserve, if_neg enough]
  exact checkedOf_eq ⟨_, _, _, _, _, _⟩

theorem checkedFill_eq {storage data : Bytes} {start : Nat} (inMemory : 2 * storage.length ≤ m.largest)
    (inside : start ≤ storage.length) (room : data.length ≤ storage.length) :
    checkedFill m storage start data = (pure (fill storage start data) : Checked σ Bytes) := by
  have first : (data.take (min data.length (storage.length - start))).length =
      min data.length (storage.length - start) := by
    rw [List.length_take]
    omega
  have rest : (data.drop (min data.length (storage.length - start))).length =
      data.length - min data.length (storage.length - start) := List.length_drop
  have front := Bytes.length_overwrite storage start (data.take (min data.length (storage.length - start))) (by omega)
  rw [checkedFill, sub_eq inside, pure_bind]
  dsimp only
  rw [add_eq (by omega), pure_bind, slice_front (Nat.min_le_left _ _), pure_bind, overwrite_eq (by omega) (by omega),
    pure_bind, sub_eq (Nat.min_le_left _ _), pure_bind, slice_behind (Nat.min_le_left _ _), pure_bind,
    overwrite_eq (by omega) (by omega)]
  rfl

theorem checkedPut_eq {data : Bytes} (fits : r.Fits m) (room : 4 * (r.length + data.length) ≤ m.largest) :
    r.checkedPut m data = (pure (r.put data) : Checked σ Ring) := by
  have fits' := fits.reserve room
  have roomy := r.length_add_le_capacity_reserve data.length
  have start := Nat.mod_lt ((r.reserve data.length).head + (r.reserve data.length).length) (r.reserve data.length).capacity_pos
  rw [checkedPut, checkedReserve_eq fits room, pure_bind, checkedPlace_eq fits' (Nat.le_of_add_right_le roomy), pure_bind,
    checkedFill_eq fits' (Nat.le_of_lt start) (Nat.le_of_add_left_le roomy), pure_bind,
    add_eq (by rw [length_reserve]; omega), pure_bind]
  exact checkedOf_eq (r.put data)

theorem checkedPeekInto_eq (fits : r.Fits m) (buffer : Bytes) :
    r.checkedPeekInto m buffer = (pure (r.peekInto buffer) : Checked σ (Nat × Bytes)) := by
  have held := r.length_slices
  rw [checkedPeekInto, checkedSlices_eq fits, pure_bind]
  unfold peekInto
  generalize r.slices = runs at *
  obtain ⟨first, second⟩ := runs
  dsimp only at held ⊢
  have count : (first.take (min (min buffer.length r.length) first.length)).length =
      min (min buffer.length r.length) first.length := by
    rw [List.length_take]
    omega
  have rest : (second.take (min buffer.length r.length - min (min buffer.length r.length) first.length)).length =
      min buffer.length r.length - min (min buffer.length r.length) first.length := by
    rw [List.length_take]
    omega
  have front := Bytes.length_overwrite buffer 0 (first.take (min (min buffer.length r.length) first.length)) (by omega)
  rw [slice_front (Nat.min_le_right _ _), pure_bind, overwrite_eq (by omega) (by omega), pure_bind,
    sub_eq (Nat.min_le_left _ _), pure_bind, slice_front (by omega), pure_bind, overwrite_eq (by omega) (by omega),
    pure_bind]

theorem checkedPeekByte_eq (fits : r.Fits m) (position : Nat) :
    r.checkedPeekByte m position = (pure (r.peekByte? position) : Checked σ (Option UInt8)) := by
  unfold checkedPeekByte peekByte?
  split
  next inside =>
    have place := Nat.mod_lt (r.head + position) r.capacity_pos
    have found : r.storage[(r.head + position) % r.capacity]? = some _ := List.getElem?_eq_getElem place
    rw [checkedPlace_eq fits (Nat.le_trans (Nat.le_of_lt inside) r.length_le), pure_bind, index_eq found, found]
    rfl
  next => rfl

theorem checkedDiscard_eq (fits : r.Fits m) (count : Nat) :
    r.checkedDiscard m count = (pure (r.discard count) : Checked σ Ring) := by
  have least : min count r.length ≤ r.length := Nat.min_le_right _ _
  rw [checkedDiscard, checkedPlace_eq fits (Nat.le_trans least r.length_le), pure_bind, sub_eq least, pure_bind]
  have ring := checkedOf_eq (σ := σ) (r.discard count)
  unfold discard discarded at *
  dsimp only at *
  split <;> rename_i none
  · rw [dif_pos none] at ring
    exact ring
  · rw [dif_neg none] at ring
    exact ring

theorem checkedGet_eq (fits : r.Fits m) (count : Nat) :
    r.checkedGet m count = (pure (r.get count) : Checked σ (Bytes × Ring)) := by
  have small : 2 * min count r.length ≤ m.largest :=
    Nat.le_trans (Nat.mul_le_mul_left 2 (Nat.le_trans (Nat.min_le_right _ _) r.length_le)) fits
  rw [checkedGet, zeros_eq small, pure_bind, checkedPeekInto_eq fits, pure_bind]
  dsimp only
  rw [checkedDiscard_eq fits, pure_bind]
  rfl

theorem Fits.discard (fits : r.Fits m) (count : Nat) : (r.discard count).Fits m := by
  rwa [Fits, capacity, storage_discard]

theorem checkedDropUntil_eq {wanted : Bytes} {limit bound dropped : Nat} (fits : r.Fits m) (enough : r.length < limit)
    (covered : r.length ≤ bound) (small : dropped + r.length ≤ m.largest) :
    checkedDropUntil m wanted limit dropped r =
      (pure (dropUntil wanted bound dropped r) : Checked σ ((Nat × Bool) × Ring)) := by
  induction limit generalizing r bound dropped with
  | zero => omega
  | succ limit ih =>
    rw [checkedDropUntil, checkedPeekByte_eq fits, pure_bind]
    rcases first : r.peekByte? 0 with _ | byte
    · cases bound with
      | zero => rfl
      | succ bound => rw [dropUntil, first]
    · have some : 0 < r.length := by
        by_contra none
        rw [peekByte?, if_neg none] at first
        cases first
      obtain ⟨bound, rfl⟩ : ∃ n, bound = n + 1 := ⟨bound - 1, by omega⟩
      have one := r.length_discard 1
      rw [dropUntil, first]
      dsimp only
      split
      · rfl
      · rw [checkedDiscard_eq fits, pure_bind, add_eq (by omega), pure_bind]
        exact ih (fits.discard 1) (by omega) (by omega) (by omega)

theorem checkedDiscardUntil_eq (fits : r.Fits m) (wanted : Bytes) :
    r.checkedDiscardUntil m wanted = (pure (r.discardUntil wanted) : Checked σ ((Nat × Bool) × Ring)) := by
  have length := r.length_le
  unfold Fits capacity at fits
  exact checkedDropUntil_eq fits (Nat.lt_succ_self _) (Nat.le_refl _) (by omega)

end Ring

end Metering
