import Metering.Bytes
set_option autoImplicit false

/-! # The ring of received bytes

Received bytes wait in a ring until they are read. They can be looked at without being taken,
dropped from the front, and pushed back to the front. The ring grows when bytes do not fit: to
twice its capacity, or by the size of the addition when that is larger.

The contents are at most two runs of the storage, `Ring.slices`, and `Ring.toList` is what they
hold together. -/

namespace Metering

/-- `bytes` written over a run from `place` on. -/
def Bytes.overwrite (run : Bytes) (place : Nat) (bytes : Bytes) : Bytes :=
  run.take place ++ bytes ++ run.drop (place + bytes.length)

theorem Bytes.length_overwrite (run : Bytes) (place : Nat) (bytes : Bytes)
    (h : place + bytes.length ≤ run.length) : (run.overwrite place bytes).length = run.length := by
  simp [Bytes.overwrite]
  omega

/-- A ring of bytes. An empty one starts at the front of its storage. -/
@[ext] structure Ring where
  storage : Bytes
  /-- The place of the first byte. -/
  head : Nat
  /-- The number of bytes held. -/
  length : Nat
  head_lt : head < storage.length
  length_le : length ≤ storage.length
  head_of_empty : length = 0 → head = 0

namespace Ring

/-- The number of bytes that fit. -/
def capacity (r : Ring) : Nat := r.storage.length

/-- The capacity of a ring for which none was asked. -/
def defaultCapacity : Nat := 256

/-- An empty ring with room for at least two bytes. -/
def withCapacity (capacity : Nat) : Ring where
  storage := List.replicate (max capacity 2) 0
  head := 0
  length := 0
  head_lt := by rw [List.length_replicate]; omega
  length_le := Nat.zero_le _
  head_of_empty _ := rfl

/-- An empty ring. -/
def empty : Ring := withCapacity defaultCapacity

/-- Nothing is held. -/
def isEmpty (r : Ring) : Bool := r.length = 0

/-- Drops everything and keeps the capacity. -/
def clear (r : Ring) : Ring :=
  { r with head := 0, length := 0, head_lt := Nat.lt_of_le_of_lt (Nat.zero_le _) r.head_lt,
           length_le := Nat.zero_le _, head_of_empty := fun _ => rfl }

/-- The contents as at most two runs of the storage, oldest first. -/
def slices (r : Ring) : Bytes × Bytes :=
  if r.head + r.length ≤ r.capacity then ((r.storage.drop r.head).take r.length, [])
  else (r.storage.drop r.head, r.storage.take (r.length - (r.capacity - r.head)))

/-- The bytes held, oldest first. -/
def toList (r : Ring) : Bytes := r.slices.1 ++ r.slices.2

@[simp] theorem length_toList (r : Ring) : r.toList.length = r.length := by
  have := r.head_lt
  have := r.length_le
  unfold toList slices capacity
  split <;> simp <;> omega

/-! ## Growing -/

/-- The capacity after making room for `extra` more bytes. -/
def grownCapacity (r : Ring) (extra : Nat) : Nat :=
  if extra ≤ r.capacity - r.length then r.capacity
  else max (if r.capacity < extra then r.capacity + extra else r.capacity * 2) (r.length + extra)

theorem length_add_le_grownCapacity (r : Ring) (extra : Nat) :
    r.length + extra ≤ r.grownCapacity extra := by
  have := r.length_le
  unfold grownCapacity capacity
  split
  · omega
  · exact Nat.le_max_right _ _

theorem capacity_le_grownCapacity (r : Ring) (extra : Nat) : r.capacity ≤ r.grownCapacity extra := by
  unfold grownCapacity
  split
  · exact Nat.le_refl _
  · apply Nat.le_trans _ (Nat.le_max_left _ _)
    split <;> omega

/-- Makes room for `extra` more bytes; contents that move go to the start of the storage. -/
def reserve (r : Ring) (extra : Nat) : Ring :=
  if extra ≤ r.capacity - r.length then r
  else {
    storage := r.toList ++ List.replicate (r.grownCapacity extra - r.length) 0
    head := 0
    length := r.length
    head_lt := by
      have := r.head_lt
      have := r.capacity_le_grownCapacity extra
      have := r.length_add_le_grownCapacity extra
      simp only [List.length_append, length_toList, List.length_replicate, capacity] at *
      omega
    length_le := by simp
    head_of_empty := fun _ => rfl }

theorem length_reserve (r : Ring) (extra : Nat) : (r.reserve extra).length = r.length := by
  unfold reserve
  split <;> rfl

theorem length_add_le_capacity_reserve (r : Ring) (extra : Nat) :
    (r.reserve extra).length + extra ≤ (r.reserve extra).capacity := by
  have := r.length_le
  unfold reserve
  split
  · simp only [capacity] at *
    omega
  · have := r.length_add_le_grownCapacity extra
    simp only [capacity, List.length_append, length_toList, List.length_replicate] at *
    omega

/-! ## Adding bytes -/

/-- Writes `data` into the ring from place `start` on, going on at the front of the storage. -/
def fill (storage : Bytes) (start : Nat) (data : Bytes) : Bytes :=
  let first := min data.length (storage.length - start)
  (storage.overwrite start (data.take first)).overwrite 0 (data.drop first)

theorem length_fill (storage : Bytes) (start : Nat) (data : Bytes) (hs : start ≤ storage.length)
    (hd : data.length ≤ storage.length) : (fill storage start data).length = storage.length := by
  unfold fill
  have h1 : (storage.overwrite start (data.take (min data.length (storage.length - start)))).length
      = storage.length := by
    apply Bytes.length_overwrite
    simp
    omega
  rw [Bytes.length_overwrite _ _ _ (by rw [h1]; simp; omega), h1]

/-- Adds bytes at the back. -/
def put (r : Ring) (data : Bytes) : Ring :=
  let s := r.reserve data.length
  have fits := r.length_add_le_capacity_reserve data.length
  have kept : (fill s.storage ((s.head + s.length) % s.capacity) data).length = s.storage.length :=
    length_fill _ _ _
      (Nat.le_of_lt (Nat.mod_lt _ (Nat.lt_of_le_of_lt (Nat.zero_le _) s.head_lt)))
      (Nat.le_trans (Nat.le_add_left _ _) fits)
  { storage := fill s.storage ((s.head + s.length) % s.capacity) data
    head := s.head
    length := s.length + data.length
    head_lt := by rw [kept]; exact s.head_lt
    length_le := by rw [kept]; exact fits
    head_of_empty := fun none => s.head_of_empty (Nat.eq_zero_of_add_eq_zero_right none) }

/-- Writes `data` byte by byte around the storage, the first one at place `start`. -/
def writeAround (storage : Bytes) (start : Nat) : Bytes → Bytes
  | [] => storage
  | byte :: more => writeAround (storage.set (start % storage.length) byte) (start + 1) more

@[simp] theorem length_writeAround (storage : Bytes) (start : Nat) (data : Bytes) :
    (writeAround storage start data).length = storage.length := by
  induction data generalizing storage start with
  | nil => rfl
  | cons byte more ih => rw [writeAround, ih, List.length_set]

/-- Pushes bytes back to the front; they are read before anything else. -/
def unget (r : Ring) (data : Bytes) : Ring :=
  let s := r.reserve data.length
  have fits := r.length_add_le_capacity_reserve data.length
  have positive : 0 < s.capacity := Nat.lt_of_le_of_lt (Nat.zero_le _) s.head_lt
  let head := (s.head + s.capacity - data.length % s.capacity) % s.capacity
  { storage := writeAround s.storage head data
    head := head
    length := s.length + data.length
    head_lt := by rw [length_writeAround]; exact Nat.mod_lt _ positive
    length_le := by rw [length_writeAround]; exact fits
    head_of_empty := by
      intro none
      dsimp only [head]
      rw [s.head_of_empty (by omega), Nat.eq_zero_of_add_eq_zero_left none, Nat.zero_mod, Nat.sub_zero,
        Nat.zero_add, Nat.mod_self] }

/-! ## Taking bytes -/

/-- Copies bytes from the front over the front of `buffer`, as many as there are and as fit into it: how
many they were, and the buffer after it. -/
def peekInto (r : Ring) (buffer : Bytes) : Nat × Bytes :=
  let n := min buffer.length r.length
  let (first, second) := r.slices
  let fromFirst := min n first.length
  (n, (buffer.overwrite 0 (first.take fromFirst)).overwrite fromFirst (second.take (n - fromFirst)))

/-- Up to `count` bytes from the front, not taken. -/
def peek (r : Ring) (count : Nat) : Bytes := (r.peekInto (List.replicate (min count r.length) 0)).2

/-- The byte at a place counted from the front. -/
def peekByte? (r : Ring) (place : Nat) : Option UInt8 :=
  if place < r.length then r.storage[(r.head + place) % r.capacity]? else none

/-- How many bytes go when up to `count` are dropped. -/
def discarded (r : Ring) (count : Nat) : Nat := min count r.length

/-- Drops up to `count` bytes from the front. An emptied ring starts over. -/
def discard (r : Ring) (count : Nat) : Ring :=
  let n := r.discarded count
  have positive : 0 < r.storage.length := Nat.lt_of_le_of_lt (Nat.zero_le _) r.head_lt
  have le : r.length - n ≤ r.storage.length := Nat.le_trans (Nat.sub_le _ _) r.length_le
  if none : r.length - n = 0 then
    { r with head := 0, length := r.length - n, head_lt := positive, length_le := le,
             head_of_empty := fun _ => rfl }
  else
    { r with head := (r.head + n) % r.capacity, length := r.length - n,
             head_lt := Nat.mod_lt _ positive, length_le := le,
             head_of_empty := fun empty => absurd empty none }

/-- Takes bytes from the front into `buffer`, as many as there are and as fit into it. -/
def getInto (r : Ring) (buffer : Bytes) : (Nat × Bytes) × Ring :=
  let (n, filled) := r.peekInto buffer
  ((n, filled), r.discard n)

/-- Takes up to `count` bytes from the front. -/
def get (r : Ring) (count : Nat) : Bytes × Ring :=
  let ((_, bytes), rest) := r.getInto (List.replicate (min count r.length) 0)
  (bytes, rest)

/-- Goes on dropping bytes until a wanted one is first, when `dropped` were before, for `bound` bytes at
most. -/
def dropUntil (wanted : Bytes) : Nat → Nat → Ring → (Nat × Bool) × Ring
  | 0, dropped, r => ((dropped, false), r)
  | bound + 1, dropped, r =>
    match r.peekByte? 0 with
    | none => ((dropped, false), r)
    | some byte =>
      if wanted.contains byte then ((dropped, true), r)
      else dropUntil wanted bound (dropped + 1) (r.discard 1)

/-- Drops bytes until a wanted one is first: how many were dropped, whether one was found, and
what is left. -/
def discardUntil (r : Ring) (wanted : Bytes) : (Nat × Bool) × Ring := dropUntil wanted r.length 0 r

end Ring

end Metering
