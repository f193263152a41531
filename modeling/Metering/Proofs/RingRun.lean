import Mathlib.Data.List.TakeWhile
import Metering.Proofs.Ring

set_option autoImplicit false

/-! # Runs of a ring

What can be done with a ring can be done with a plain list of bytes: bytes are added behind it or in front
of it, looked at and taken at its front. `Ring.Call.onRing` does it with the storage that wraps around and
grows, `Ring.Call.onList` with the list.

One call answers the same on a ring and on the list of what the ring holds, and leaves the one as the list
of the other (`Ring.Call.onList_toList`). So does a run of calls, and no call takes storage away. -/

namespace Metering.Ring

/-- Something done with a ring. -/
inductive Call where
  | put (data : Bytes)
  | unget (data : Bytes)
  /-- Takes bytes into a buffer. -/
  | get (buffer : Bytes)
  | peek (count : Nat)
  /-- Copies bytes into a buffer. -/
  | peekInto (buffer : Bytes)
  | peekByte (place : Nat)
  | discard (count : Nat)
  | discardUntil (wanted : Bytes)
  | clear
  | length

/-- What the caller is told. -/
inductive Answer where
  | nothing
  | count (n : Nat)
  | bytes (data : Bytes)
  | byte (b : Option UInt8)
  /-- How many bytes were copied, and the caller's buffer with them. -/
  | copied (n : Nat) (buffer : Bytes)
  /-- How many bytes were passed over, and whether a wanted one follows. -/
  | passed (n : Nat) (found : Bool)

/-- A call on a ring. -/
def Call.onRing (r : Ring) : Call → Answer × Ring
  | .put data => (.nothing, r.put data)
  | .unget data => (.nothing, r.unget data)
  | .get buffer =>
    let ((n, filled), rest) := r.getInto buffer
    (.copied n filled, rest)
  | .peek count => (.bytes (r.peek count), r)
  | .peekInto buffer =>
    let (n, filled) := r.peekInto buffer
    (.copied n filled, r)
  | .peekByte place => (.byte (r.peekByte? place), r)
  | .discard count => (.count (r.discarded count), r.discard count)
  | .discardUntil wanted =>
    let ((n, found), rest) := r.discardUntil wanted
    (.passed n found, rest)
  | .clear => (.nothing, r.clear)
  | .length => (.count r.length, r)

/-- The front of a list copied over the front of a buffer. -/
def copied (held buffer : Bytes) : Answer :=
  .copied (min buffer.length held.length) (held.take buffer.length ++ buffer.drop held.length)

/-- The same call on a list. -/
def Call.onList (held : Bytes) : Call → Answer × Bytes
  | .put data => (.nothing, held ++ data)
  | .unget data => (.nothing, data ++ held)
  | .get buffer => (copied held buffer, held.drop buffer.length)
  | .peek count => (.bytes (held.take count), held)
  | .peekInto buffer => (copied held buffer, held)
  | .peekByte place => (.byte held[place]?, held)
  | .discard count => (.count (min count held.length), held.drop count)
  | .discardUntil wanted =>
    (.passed (held.takeWhile fun b => !wanted.contains b).length (held.any wanted.contains),
      held.dropWhile fun b => !wanted.contains b)
  | .clear => (.nothing, [])
  | .length => (.count held.length, held)

/-- Calls one after the other, with all answers. -/
def Call.run {σ : Type} (step : σ → Call → Answer × σ) : List Call → σ → List Answer × σ
  | [], s => ([], s)
  | call :: more, s =>
    let (answer, s) := step s call
    let (answers, s) := run step more s
    (answer :: answers, s)

/-- `gone` is the longest front of `held` without a wanted byte. -/
structure LongestFree (wanted held gone : Bytes) : Prop where
  front : gone <+: held
  free : ∀ b ∈ gone, b ∉ wanted
  longest : ∀ other, other <+: held → (∀ b ∈ other, b ∉ wanted) → other <+: gone

/-! ## One call -/

variable (r : Ring)

/-- There is something behind the front without a wanted byte just if there is a wanted byte. -/
theorem length_takeWhile_lt_iff (held wanted : Bytes) :
    (held.takeWhile fun b => !wanted.contains b).length < held.length ↔ held.any wanted.contains = true := by
  induction held with
  | nil => simp
  | cons b more ih =>
    by_cases hb : wanted.contains b = true
    · rw [List.takeWhile_cons_of_neg (by simpa using hb), List.any_cons, hb]
      simp
    · rw [List.takeWhile_cons_of_pos (by simpa using hb), List.length_cons, List.length_cons,
        Nat.add_lt_add_iff_right, ih, List.any_cons, Bool.eq_false_iff.2 hb, Bool.false_or]

/-- **One call** answers the same on the ring and on the list of what it holds, and leaves the ring with
what it leaves of the list. -/
theorem Call.onList_toList (call : Call) :
    call.onList r.toList = ((call.onRing r).1, (call.onRing r).2.toList) := by
  have length := r.length_toList
  cases call with
  | put data => exact congrArg (Prod.mk _) (r.toList_put data).symm
  | unget data => exact congrArg (Prod.mk _) (r.toList_unget data).symm
  | get buffer =>
    have taken : r.toList.drop (min buffer.length r.length) = r.toList.drop buffer.length := by
      rw [List.drop_eq_drop_iff, length]
      omega
    dsimp only [onList, onRing, getInto]
    rw [peekInto_eq, copied, length]
    dsimp only
    rw [toList_discard, taken]
  | peek count => exact congrArg (fun b => (Answer.bytes b, r.toList)) (r.peek_eq count).symm
  | peekInto buffer =>
    dsimp only [onList, onRing]
    rw [peekInto_eq, copied, length]
  | peekByte place => exact congrArg (fun b => (Answer.byte b, r.toList)) (r.getElem?_toList place)
  | discard count =>
    dsimp only [onList, onRing, discarded]
    rw [toList_discard, length]
  | discardUntil wanted =>
    have found : decide ((r.toList.takeWhile fun b => !wanted.contains b).length < r.length) =
        r.toList.any wanted.contains := by
      rw [← length]
      exact Bool.eq_iff_iff.2 (decide_eq_true_iff.trans (length_takeWhile_lt_iff r.toList wanted))
    dsimp only [onList, onRing]
    rw [← toList_discardUntil, discardUntil_eq, found]
  | clear => exact congrArg (Prod.mk _) r.toList_clear.symm
  | length => exact congrArg (fun n => (Answer.count n, r.toList)) length

/-- No call makes the storage smaller. -/
theorem Call.capacity_le (call : Call) : r.capacity ≤ (call.onRing r).2.capacity := by
  have discarded (n : Nat) : r.capacity = (r.discard n).capacity :=
    congrArg List.length (r.storage_discard n).symm
  cases call with
  | put data => exact Nat.le_trans (r.capacity_le_reserve _) (Nat.le_of_eq (r.capacity_put data).symm)
  | unget data => exact Nat.le_trans (r.capacity_le_reserve _) (Nat.le_of_eq (r.capacity_unget data).symm)
  | get buffer => exact Nat.le_of_eq (discarded _)
  | discard count => exact Nat.le_of_eq (discarded count)
  | discardUntil wanted =>
    dsimp only [onRing]
    rw [discardUntil_eq]
    exact Nat.le_of_eq (discarded _)
  | peek count | peekInto buffer | peekByte place | clear | length => exact Nat.le_refl r.capacity

/-! ## A run of calls -/

/-- **A run** answers the same on the ring and on the list of what it holds, and leaves the ring with what
it leaves of the list. -/
theorem Call.run_onList (calls : List Call) :
    run onList calls r.toList =
      ((run onRing calls r).1, (run onRing calls r).2.toList) := by
  induction calls generalizing r with
  | nil => rfl
  | cons call more ih =>
    have first := call.onList_toList r
    have rest := ih (call.onRing r).2
    unfold run
    dsimp only
    rw [first]
    dsimp only
    rw [rest]

theorem Call.run_capacity_le (calls : List Call) :
    r.capacity ≤ (run onRing calls r).2.capacity := by
  induction calls generalizing r with
  | nil => exact Nat.le_refl _
  | cons call more ih => exact Nat.le_trans (call.capacity_le r) (ih _)

theorem Call.run_append {σ : Type} (step : σ → Call → Answer × σ) (before after : List Call) (s : σ) :
    (run step (before ++ after) s).2 = (run step after (run step before s).2).2 := by
  induction before generalizing s with
  | nil => rfl
  | cons call more ih => exact ih _

/-! ## What is passed over -/

theorem longestFree_takeWhile (held wanted : Bytes) :
    LongestFree wanted held (held.takeWhile fun b => !wanted.contains b) := by
  refine ⟨List.takeWhile_prefix _, ?_, ?_⟩
  · intro b hb
    simpa using List.mem_takeWhile_imp hb
  · intro other front free
    obtain ⟨rest, rfl⟩ := front
    rw [List.takeWhile_append_of_pos (by simpa using free)]
    exact List.prefix_append _ _

/-- **Passing over what is not wanted** drops the longest front without a wanted byte, and says how long it
was and whether anything is left. -/
theorem discardUntil_longest (wanted : Bytes) :
    ∃ gone, LongestFree wanted r.toList gone ∧ (r.discardUntil wanted).1 = (gone.length, decide (gone.length < r.length)) ∧
      gone ++ (r.discardUntil wanted).2.toList = r.toList := by
  refine ⟨_, longestFree_takeWhile r.toList wanted, ?_, ?_⟩
  · rw [discardUntil_eq]
  · rw [toList_discardUntil, List.takeWhile_append_dropWhile]

/-- **A ring is a list.** Whatever is done with a new ring, every answer is the one a plain list gives, the
two runs of the storage are the list, no call took storage away, what is held fits into it, and what would be
passed over next is the longest front without a wanted byte. -/
theorem ring_as_list (capacity : Nat) (calls : List Call) :
    ∃ answers r held,
      Call.run Call.onRing calls (withCapacity capacity) = (answers, r) ∧
      Call.run Call.onList calls [] = (answers, held) ∧
      r.slices.1 ++ r.slices.2 = held ∧ held.length ≤ r.capacity ∧
      (∀ before, before <+: calls →
        (Call.run Call.onRing before (withCapacity capacity)).2.capacity ≤ r.capacity) ∧
      ∀ wanted, ∃ gone, LongestFree wanted held gone ∧
        (r.discardUntil wanted).1 = (gone.length, decide (gone.length < held.length)) ∧
        gone ++ (r.discardUntil wanted).2.toList = held := by
  have both := Call.run_onList (withCapacity capacity) calls
  have new : (withCapacity capacity).toList = [] := List.eq_nil_of_length_eq_zero (length_toList _)
  rw [new] at both
  generalize hr : (Call.run Call.onRing calls (withCapacity capacity)).2 = r at both
  refine ⟨_, r, r.toList, Prod.ext rfl hr, both, rfl, ?_, ?_, ?_⟩
  · rw [length_toList]
    exact r.length_le
  · rintro before ⟨after, rfl⟩
    rw [← hr, Call.run_append]
    exact Call.run_capacity_le _ after
  · intro wanted
    rw [length_toList]
    exact r.discardUntil_longest wanted

end Metering.Ring
