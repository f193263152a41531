import Metering.Bytes
import Mathlib.Data.List.Induction

set_option autoImplicit false

/-! # Bytes as numbers and as bits

A field of bytes and the number in it determine each other (`Bytes.bigEndian_ofBigEndian`), and so do a
run of bytes and its bits in the order in which they are sent, the lowest of every byte first
(`Bytes.bits_inj`). Bytes that are added are added bit by bit (`Bytes.bits_xor`). -/

namespace Metering.Bytes

/-! ## Numbers -/

theorem ofBigEndian_lt (bytes : Bytes) : ofBigEndian bytes < fieldSize bytes.length := by
  induction bytes using List.reverseRecOn with
  | nil => decide
  | append_singleton bytes b ih =>
    rw [ofBigEndian_append_singleton, List.length_append, List.length_singleton, fieldSize]
    have := b.toNat_lt
    omega

theorem bigEndian_ofBigEndian (bytes : Bytes) : bigEndian bytes.length (ofBigEndian bytes) = bytes := by
  induction bytes using List.reverseRecOn with
  | nil => rfl
  | append_singleton bytes b ih =>
    have := b.toNat_lt
    have before : (ofBigEndian bytes * 256 + b.toNat) / 256 = ofBigEndian bytes := by omega
    have last : UInt8.ofNat (ofBigEndian bytes * 256 + b.toNat) = b := by
      apply UInt8.toNat_inj.1
      rw [UInt8.toNat_ofNat']
      omega
    rw [ofBigEndian_append_singleton, List.length_append, List.length_singleton, bigEndian, before, last, ih]

/-! ## Bits -/

/-- The bits of a byte, lowest first. -/
def bitsOf (b : UInt8) : List Bool := (List.range 8).map b.toBitVec.getLsbD

/-- The bits of a run in the order in which they are sent. -/
def bits (bytes : Bytes) : List Bool := bytes.flatMap bitsOf

theorem length_bitsOf (b : UInt8) : (bitsOf b).length = 8 := by simp [bitsOf]

theorem getD_bitsOf (b : UInt8) (i : Nat) : (bitsOf b).getD i false = b.toBitVec.getLsbD i := by
  by_cases inside : i < 8
  · simp [bitsOf, inside]
  · have above : b.toBitVec.getLsbD i = false := BitVec.getLsbD_of_ge _ _ (by omega)
    simp [bitsOf, inside, above]

theorem bits_cons (b : UInt8) (bytes : Bytes) : bits (b :: bytes) = bitsOf b ++ bits bytes := List.flatMap_cons

theorem length_bits (bytes : Bytes) : (bits bytes).length = 8 * bytes.length := by
  induction bytes with
  | nil => rfl
  | cons b bytes ih =>
    rw [bits_cons, List.length_append, ih, length_bitsOf, List.length_cons]
    omega

theorem bitsOf_xor (a b : UInt8) : bitsOf (a ^^^ b) = List.zipWith (· ^^ ·) (bitsOf a) (bitsOf b) := by
  simp [bitsOf]

theorem bits_xor {a b : Bytes} (h : a.length = b.length) :
    bits (Bytes.xor a b) = List.zipWith (· ^^ ·) (bits a) (bits b) := by
  induction a generalizing b with
  | nil =>
    obtain rfl := List.eq_nil_of_length_eq_zero h.symm
    rfl
  | cons x a ih =>
    cases b with
    | nil => simp at h
    | cons y b =>
      have rest := ih (Nat.succ.inj h)
      have first : (bitsOf x).length = (bitsOf y).length := by rw [length_bitsOf, length_bitsOf]
      have whole : Bytes.xor (x :: a) (y :: b) = (x ^^^ y) :: Bytes.xor a b := rfl
      rw [whole, bits_cons, bits_cons, bits_cons, List.zipWith_append first, bitsOf_xor, rest]

theorem bitsOf_inj {a b : UInt8} (h : bitsOf a = bitsOf b) : a = b := by
  apply UInt8.toBitVec_inj.1
  apply BitVec.eq_of_getLsbD_eq
  intro i _
  rw [← getD_bitsOf, h, getD_bitsOf]

theorem bits_inj {a b : Bytes} (length : a.length = b.length) (h : bits a = bits b) : a = b := by
  induction a generalizing b with
  | nil => exact (List.eq_nil_of_length_eq_zero length.symm).symm
  | cons x a ih =>
    cases b with
    | nil => simp at length
    | cons y b =>
      rw [bits_cons, bits_cons] at h
      have width : (bitsOf x).length = (bitsOf y).length := by rw [length_bitsOf, length_bitsOf]
      obtain ⟨first, rest⟩ := List.append_inj h width
      rw [bitsOf_inj first, ih (Nat.succ.inj length) rest]

end Metering.Bytes
