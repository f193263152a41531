import Metering.Ber.Length
import Metering.Buffer.Frame

set_option autoImplicit false

/-! # Header and body of a frame buffer

A frame buffer is determined by its header and its body: the operations put bytes in front of the
one, behind the other, or in the place of the body, and where the storage has to grow in front
nothing else changes. -/

namespace Metering.FrameBuffer

variable (b : FrameBuffer) (data : Bytes)

/-- The storage is the free room, the header and the body. -/
theorem drop_start : b.storage.drop b.start = b.header ++ b.body := by
  have le := b.start_le
  have parts := List.take_append_drop (b.bodyStart - b.start) (b.storage.drop b.start)
  rw [List.drop_drop, Nat.add_sub_cancel' le] at parts
  rw [header, body, List.drop_take]
  exact parts.symm

theorem toList_eq : b.toList = b.header ++ b.body := b.drop_start

theorem length_eq : b.length = b.header.length + b.body.length := by
  have := congrArg List.length b.drop_start
  rwa [List.length_drop, List.length_append] at this

@[simp] theorem header_withReserve (n : Nat) : (withReserve n).header = [] := by
  simp [withReserve, header]

@[simp] theorem body_withReserve (n : Nat) : (withReserve n).body = [] := by
  simp [withReserve, body]

@[simp] theorem header_append : (b.append data).header = b.header := by
  simp [append, header, List.take_append_of_le_length b.bodyStart_le]

@[simp] theorem body_append : (b.append data).body = b.body ++ data := by
  simp [append, body, List.drop_append_of_le_length b.bodyStart_le]

@[simp] theorem header_setBody : (b.setBody data).header = b.header := by
  have := b.le_length_take_bodyStart
  simp only [setBody, header]
  rw [List.take_append_of_le_length this, List.take_take, Nat.min_self]

@[simp] theorem body_setBody : (b.setBody data).body = data := by
  have := b.bodyStart_le
  simp only [setBody, body]
  rw [List.drop_append, List.drop_of_length_le (List.length_take_le _ _), List.length_take,
    Nat.min_eq_left this, Nat.sub_self]
  rfl

theorem header_makeRoom (count : Nat) : (b.makeRoom count).header = b.header := by
  unfold makeRoom
  split
  · rfl
  · simp [header, List.take_append, Nat.add_comm b.bodyStart, Nat.add_comm b.start, List.drop_append]

theorem body_makeRoom (count : Nat) : (b.makeRoom count).body = b.body := by
  unfold makeRoom
  split
  · rfl
  · simp [body, Nat.add_comm b.bodyStart, List.drop_append]

/-- What is written over the free room, seen from the first byte written. -/
theorem drop_overwrite (run : Bytes) {place : Nat} (h : place ≤ run.length) :
    (run.overwrite place data).drop place = data ++ run.drop (place + data.length) := by
  unfold Bytes.overwrite
  rw [List.append_assoc, List.drop_append, List.drop_of_length_le (List.length_take_le _ _),
    List.length_take, Nat.min_eq_left h, Nat.sub_self]
  rfl

theorem drop_start_prepend :
    (b.prepend data).header ++ (b.prepend data).body = data ++ (b.header ++ b.body) := by
  have room := b.le_start_makeRoom data.length
  have le := (b.makeRoom data.length).start_le
  have le' := (b.makeRoom data.length).bodyStart_le
  rw [← drop_start, ← b.header_makeRoom data.length, ← b.body_makeRoom data.length, ← drop_start]
  simp only [prepend]
  rw [drop_overwrite _ _ (by omega), Nat.sub_add_cancel room]

@[simp] theorem body_prepend : (b.prepend data).body = b.body := by
  have room := b.le_start_makeRoom data.length
  have le := (b.makeRoom data.length).start_le
  have le' := (b.makeRoom data.length).bodyStart_le
  have parts : (b.prepend data).body =
      ((b.prepend data).storage.drop (b.prepend data).start).drop
        ((b.prepend data).bodyStart - (b.prepend data).start) := by
    rw [List.drop_drop, Nat.add_sub_cancel' (b.prepend data).start_le]
    rfl
  rw [parts, ← b.body_makeRoom data.length]
  simp only [prepend]
  rw [drop_overwrite _ _ (by omega), Nat.sub_add_cancel room, List.drop_append,
    List.drop_of_length_le (by omega), List.nil_append, List.drop_drop, body]
  congr 1
  omega

@[simp] theorem header_prepend : (b.prepend data).header = data ++ b.header := by
  have parts := b.drop_start_prepend data
  rw [body_prepend, ← List.append_assoc] at parts
  exact List.append_cancel_right parts

/-- A length is put in front as it is encoded. -/
theorem prependLength_eq (n : Nat) : b.prependLength n = b.prepend (Ber.lengthBytes n) := by
  unfold prependLength Ber.lengthBytes
  repeat' split
  all_goals rfl

@[simp] theorem header_prependLength (n : Nat) :
    (b.prependLength n).header = Ber.lengthBytes n ++ b.header := by
  rw [prependLength_eq, header_prepend]

@[simp] theorem body_prependLength (n : Nat) : (b.prependLength n).body = b.body := by
  rw [prependLength_eq, body_prepend]

end Metering.FrameBuffer
