import Metering.Crc
import Metering.Proofs.Bits

set_option autoImplicit false

/-! # The checksum, bit by bit

Looking up the table comes to moving the register bit by bit (`Crc.ofBytes_eq`), because moving it
respects differences (`Crc.shifts_xor`). So the register takes the bits of a run one at a time in the
order in which they are sent (`Crc.update_register`), and a damaged run leaves what the run itself
leaves, plus what the damage alone would leave in an empty register (`Crc.update_xor`). Damage goes
unnoticed exactly when it leaves an empty register empty, and two facts rule that out. Moving the
register keeps its parity (`Crc.odd_shift`), since the polynomial has an even number of terms; and up to
sixteen bits are taken like one number, of which nothing is lost (`Crc.feeds_eq_zero`). The second fact
also says which trailers leave the register as a frame with its own checksum does
(`Crc.register_eq_good_iff`).

Turned around, the register is that of CRC-16/X-25 as it is catalogued (`Crc.ofBytes_x25`). -/

namespace Metering.Crc

/-! ## Moving the register -/

theorem xor_and (x y z : UInt16) : (x ^^^ y) &&& z = (x &&& z) ^^^ (y &&& z) := by
  apply UInt16.toBitVec_inj.1
  apply BitVec.eq_of_getLsbD_eq
  intro i _
  simp [Bool.and_xor_distrib_right]

theorem and_one (x : UInt16) : x &&& 1 = 0 ∨ x &&& 1 = 1 := by
  have bit := Nat.mod_two_eq_zero_or_one x.toNat
  rw [← Nat.and_one_is_mod] at bit
  rcases bit with zero | one
  · exact .inl (UInt16.toNat_inj.1 zero)
  · exact .inr (UInt16.toNat_inj.1 one)

/-- Moving the register respects differences. -/
theorem shift_xor (x y : UInt16) : shift (x ^^^ y) = shift x ^^^ shift y := by
  unfold shift
  rw [xor_and, UInt16.shiftRight_xor]
  rcases and_one x with hx | hx <;> rcases and_one y with hy | hy
  · simp [hx, hy]
  · simp [hx, hy, UInt16.xor_assoc]
  · have swap : x >>> 1 ^^^ polynomial ^^^ y >>> 1 = x >>> 1 ^^^ y >>> 1 ^^^ polynomial := by
      rw [UInt16.xor_assoc, UInt16.xor_comm polynomial, ← UInt16.xor_assoc]
    simp [hx, hy, swap]
  · have cancel : (x >>> 1 ^^^ polynomial) ^^^ (y >>> 1 ^^^ polynomial) = x >>> 1 ^^^ y >>> 1 := by
      rw [UInt16.xor_comm (y >>> 1), UInt16.xor_assoc, ← UInt16.xor_assoc polynomial, UInt16.xor_self, UInt16.zero_xor]
    simp [hx, hy, cancel]

theorem shifts_xor (n : Nat) (x y : UInt16) : shifts n (x ^^^ y) = shifts n x ^^^ shifts n y := by
  induction n generalizing x y with
  | zero => rfl
  | succ n ih => rw [shifts, shift_xor, ih]; rfl

/-! ## The table -/

theorem table_getD {i : Nat} (h : i < 256) : table.getD i 0 = shifts 8 (UInt16.ofNat i) := by
  simp [table, h]

theorem shifts_high (x : UInt16) : shifts 8 (x &&& 0xFF00) = x >>> 8 := by
  have bytes : ∀ b : BitVec 8, shifts 8 ((UInt8.ofBitVec b).toUInt16 <<< 8) = (UInt8.ofBitVec b).toUInt16 := by
    decide +kernel
  have high : x >>> 8 = (x >>> 8).toUInt8.toUInt16 := by
    apply UInt16.toNat_inj.1
    have := x.toNat_lt
    simp [Nat.shiftRight_eq_div_pow]
    omega
  have moved : x &&& (0xFF00 : UInt16) = x >>> 8 <<< 8 := by
    have ones : ∀ i < 16, (UInt16.toBitVec 0xFF00).getLsbD i = !decide (i < 8) := by decide
    apply UInt16.toBitVec_inj.1
    apply BitVec.eq_of_getLsbD_eq
    intro i hi
    simp only [UInt16.toBitVec_and, BitVec.getLsbD_and, ones i hi, UInt16.toBitVec_shiftLeft, UInt16.toBitVec_shiftRight]
    by_cases low : i < 8
    · simp [low]
    · have back : 8 + (i - 8) = i := by omega
      simp [low, hi, back]
  rw [moved, high]
  exact bytes (x >>> 8).toUInt8.toBitVec

/-- **The table agrees with the bits.** -/
theorem stepByTable_eq (c : Crc) (b : UInt8) : c.stepByTable b = c.step b := by
  generalize hx : c.register ^^^ b.toUInt16 = x
  have index : (x &&& 0xFF).toNat < 256 := by
    rw [UInt16.toNat_and]
    exact Nat.and_lt_two_pow _ (show 0xFF < 2 ^ 8 by decide)
  have parts : (x &&& 0xFF) ^^^ (x &&& 0xFF00) = x := by
    rw [UInt16.and_comm x, UInt16.and_comm x, ← xor_and, UInt16.and_comm]
    exact UInt16.and_neg_one
  have same : x >>> 8 = c.register >>> 8 := by
    have low : b.toUInt16 >>> 8 = 0 := by
      apply UInt16.toNat_inj.1
      have := b.toNat_lt
      simp [Nat.shiftRight_eq_div_pow]
      omega
    rw [← hx, UInt16.shiftRight_xor, low, UInt16.xor_zero]
  rw [stepByTable, step, hx, table_getD index, UInt16.ofNat_toNat]
  congr 1
  calc c.register >>> 8 ^^^ shifts 8 (x &&& 0xFF)
    _ = shifts 8 (x &&& 0xFF) ^^^ shifts 8 (x &&& 0xFF00) := by rw [shifts_high, same, UInt16.xor_comm]
    _ = shifts 8 x := by rw [← shifts_xor, parts]

theorem ofBytes_eq (bytes : Bytes) : ofBytes bytes = bitwise bytes := by
  have same : stepByTable = step := funext fun c => funext fun b => c.stepByTable_eq b
  rw [ofBytes, update, same]
  rfl

theorem update_append (c : Crc) (xs ys : Bytes) : c.update (xs ++ ys) = (c.update xs).update ys :=
  List.foldl_append

/-! ## Bits into the register -/

/-- Takes one bit. -/
def feed (r : UInt16) (bit : Bool) : UInt16 := shift (r ^^^ bit.toUInt16)

/-- Takes a run of bits. -/
def feeds (r : UInt16) (bits : List Bool) : UInt16 := bits.foldl feed r

/-- The first sixteen bits as a number, the first one lowest. -/
def word : List Bool → UInt16
  | [] => 0
  | bit :: rest => (word rest <<< 1) ^^^ bit.toUInt16

theorem feeds_append (r : UInt16) (xs ys : List Bool) : feeds r (xs ++ ys) = feeds (feeds r xs) ys :=
  List.foldl_append

theorem getLsbD_toUInt16 (bit : Bool) : ∀ i < 16, bit.toUInt16.toBitVec.getLsbD i = (decide (i = 0) && bit) := by
  cases bit <;> decide

theorem getLsbD_word (bits : List Bool) : ∀ i < 16, (word bits).toBitVec.getLsbD i = bits.getD i false := by
  induction bits with
  | nil =>
    intro i _
    simp [word]
  | cons bit rest ih =>
    intro i hi
    rw [word, UInt16.toBitVec_xor, BitVec.getLsbD_xor, getLsbD_toUInt16 bit i hi, UInt16.toBitVec_shiftLeft]
    cases i with
    | zero => simp
    | succ i =>
      have before : i < 16 := by omega
      simpa [hi, before] using ih i before

/-- What was moved up without losing a bit is moved down again. -/
theorem shift_shiftLeft {x : UInt16} (top : x.toBitVec.getLsbD 15 = false) : shift (x <<< 1) = x := by
  have even : (x <<< 1) &&& 1 ≠ 1 := by
    intro odd
    have := congrArg UInt16.toNat odd
    simp [Nat.shiftLeft_eq] at this
  rw [shift, if_neg even]
  apply UInt16.toBitVec_inj.1
  apply BitVec.eq_of_getLsbD_eq
  intro i hi
  by_cases last : i = 15
  · subst last
    simpa using top.symm
  · have below : 1 + i < 16 := by omega
    simp [below, hi]

/-- **Up to sixteen bits are taken like one number.** -/
theorem feeds_eq (r : UInt16) {bits : List Bool} (short : bits.length ≤ 16) :
    feeds r bits = shifts bits.length (r ^^^ word bits) := by
  induction bits generalizing r with
  | nil => simp [feeds, word, shifts]
  | cons bit rest ih =>
    have shorter : rest.length ≤ 15 := Nat.le_of_succ_le_succ short
    have top : (word rest).toBitVec.getLsbD 15 = false := by
      rw [getLsbD_word rest 15 (by decide), List.getD_eq_getElem?_getD, List.getElem?_eq_none shorter,
        Option.getD_none]
    have parts : r ^^^ word (bit :: rest) = (r ^^^ bit.toUInt16) ^^^ word rest <<< 1 := by
      rw [word, UInt16.xor_comm (word rest <<< 1), UInt16.xor_assoc]
    calc feeds r (bit :: rest)
      _ = shifts rest.length (feed r bit ^^^ word rest) := ih (feed r bit) (by omega)
      _ = shifts rest.length (shift (r ^^^ word (bit :: rest))) := by
        rw [parts, shift_xor, shift_shiftLeft top, feed]

theorem word_bitsOf (b : UInt8) : word (Bytes.bitsOf b) = b.toUInt16 := by
  apply UInt16.toBitVec_inj.1
  apply BitVec.eq_of_getLsbD_eq
  intro i hi
  rw [getLsbD_word _ i hi, Bytes.getD_bitsOf]
  simp [hi]

theorem step_register (c : Crc) (b : UInt8) : (c.step b).register = feeds c.register (Bytes.bitsOf b) := by
  rw [feeds_eq _ (by rw [Bytes.length_bitsOf]; decide), Bytes.length_bitsOf, word_bitsOf]
  rfl

/-- **A run of bytes is taken bit by bit.** -/
theorem update_register (c : Crc) (bytes : Bytes) : (c.update bytes).register = feeds c.register (Bytes.bits bytes) := by
  induction bytes generalizing c with
  | nil => rfl
  | cons b bytes ih =>
    calc (c.update (b :: bytes)).register
      _ = ((c.stepByTable b).update bytes).register := rfl
      _ = feeds (c.step b).register (Bytes.bits bytes) := by rw [ih, stepByTable_eq]
      _ = feeds c.register (Bytes.bits (b :: bytes)) := by rw [step_register, Bytes.bits_cons, feeds_append]

/-! ## Differences -/

theorem toUInt16_xor (x y : Bool) : (x ^^ y).toUInt16 = x.toUInt16 ^^^ y.toUInt16 := by
  cases x <;> cases y <;> decide

theorem feed_xor (r s : UInt16) (x y : Bool) : feed (r ^^^ s) (x ^^ y) = feed r x ^^^ feed s y := by
  rw [feed, feed, feed, ← shift_xor, toUInt16_xor]
  congr 1
  ac_rfl

/-- **The register respects differences** of what it held and of what it takes. -/
theorem feeds_xor (r s : UInt16) {xs ys : List Bool} (length : xs.length = ys.length) :
    feeds (r ^^^ s) (List.zipWith (· ^^ ·) xs ys) = feeds r xs ^^^ feeds s ys := by
  induction xs generalizing r s ys with
  | nil =>
    obtain rfl := List.eq_nil_of_length_eq_zero length.symm
    rfl
  | cons x xs ih =>
    cases ys with
    | nil => simp at length
    | cons y ys =>
      have rest := ih (feed r x) (feed s y) (Nat.succ.inj length)
      rw [← feed_xor] at rest
      exact rest

/-- What a damaged run leaves is what the run leaves, plus what the damage leaves in an empty register. -/
theorem update_xor (c : Crc) {bytes error : Bytes} (length : bytes.length = error.length) :
    (c.update (Bytes.xor bytes error)).register = (c.update bytes).register ^^^ feeds 0 (Bytes.bits error) := by
  have width : (Bytes.bits bytes).length = (Bytes.bits error).length := by
    rw [Bytes.length_bits, Bytes.length_bits, length]
  rw [update_register, update_register, Bytes.bits_xor length, ← feeds_xor c.register 0 width, UInt16.xor_zero]

/-! ## Nothing is lost -/

/-- Only an empty register is moved to an empty one: the polynomial reaches its top bit, which is clear
after a move down. -/
theorem shift_eq_zero {x : UInt16} (h : shift x = 0) : x = 0 := by
  unfold shift at h
  have small := x.toNat_lt
  split at h
  · have same : x >>> 1 = polynomial := UInt16.xor_eq_zero_iff.1 h
    have := congrArg UInt16.toNat same
    simp [polynomial, Nat.shiftRight_eq_div_pow] at this
    omega
  next even =>
    rcases and_one x with bit | bit
    · have high := congrArg UInt16.toNat h
      have low := congrArg UInt16.toNat bit
      apply UInt16.toNat_inj.1
      simp [Nat.shiftRight_eq_div_pow] at high low ⊢
      omega
    · exact absurd bit even

theorem shifts_eq_zero {n : Nat} {x : UInt16} (h : shifts n x = 0) : x = 0 := by
  induction n generalizing x with
  | zero => exact h
  | succ n ih => exact shift_eq_zero (ih h)

theorem shifts_zero (n : Nat) : shifts n 0 = 0 := by
  induction n with
  | zero => rfl
  | succ n ih => exact ih

/-- Clear bits only move the register. -/
theorem feeds_clear (r : UInt16) {bits : List Bool} (clear : true ∉ bits) : feeds r bits = shifts bits.length r := by
  induction bits generalizing r with
  | nil => rfl
  | cons bit rest ih =>
    obtain ⟨first, others⟩ := not_or.1 (mt List.mem_cons.2 clear)
    obtain rfl : bit = false := Bool.eq_false_iff.2 fun set => first set.symm
    have moved : feed r false = shift r := congrArg shift UInt16.xor_zero
    calc feeds r (false :: rest)
      _ = feeds (shift r) rest := by rw [← moved]; rfl
      _ = shifts rest.length (shift r) := ih _ others

/-- **Sixteen bits fit the register**: one that is set does not leave it empty. -/
theorem feeds_eq_zero {bits : List Bool} (short : bits.length ≤ 16) (h : feeds 0 bits = 0) : true ∉ bits := by
  have none : word bits = 0 := by
    rw [feeds_eq 0 short, UInt16.zero_xor] at h
    exact shifts_eq_zero h
  intro mem
  obtain ⟨i, hi, set⟩ := List.mem_iff_getElem.1 mem
  have same := getLsbD_word bits i (by omega)
  rw [none, List.getD_eq_getElem?_getD, List.getElem?_eq_getElem hi, Option.getD_some, set] at same
  simp at same

/-- Up to sixteen bits can be told from the register they leave. -/
theorem feeds_inj {r : UInt16} {xs ys : List Bool} (length : xs.length = ys.length) (short : xs.length ≤ 16)
    (h : feeds r xs = feeds r ys) : xs = ys := by
  have width : (List.zipWith (· ^^ ·) xs ys).length ≤ 16 := by rw [List.length_zipWith]; omega
  have none := feeds_xor r r length
  rw [h, UInt16.xor_self, UInt16.xor_self] at none
  have same := feeds_eq_zero width none
  apply List.ext_getElem length
  intro i hx hy
  have inside : i < (List.zipWith (· ^^ ·) xs ys).length := by rw [List.length_zipWith]; omega
  have clear : (xs[i] ^^ ys[i]) = false := by
    apply Bool.eq_false_iff.2
    intro set
    exact same (List.mem_iff_getElem.2 ⟨i, inside, by rw [List.getElem_zipWith, set]⟩)
  simpa using clear

/-- The set bits lie within so many consecutive ones. -/
def Within (width : Nat) (bits : List Bool) : Prop :=
  ∃ start, ∀ i, bits[i]? = some true → start ≤ i ∧ i < start + width

/-- **A short burst does not leave an empty register empty**: the bits before it leave it as it is, those
of the burst fit it, and those behind only move it. -/
theorem feeds_within {bits : List Bool} (burst : Within 16 bits) (h : feeds 0 bits = 0) : true ∉ bits := by
  obtain ⟨start, only⟩ := burst
  have parts : bits = bits.take start ++ ((bits.drop start).take 16 ++ bits.drop (start + 16)) := by
    rw [← List.drop_drop, List.take_append_drop, List.take_append_drop]
  have front : true ∉ bits.take start := by
    intro mem
    obtain ⟨i, set⟩ := List.mem_iff_getElem?.1 mem
    obtain ⟨inside, -⟩ := List.getElem?_eq_some_iff.1 set
    rw [List.length_take] at inside
    rw [List.getElem?_take_of_lt (by omega)] at set
    have := (only i set).1
    omega
  have back : true ∉ bits.drop (start + 16) := by
    intro mem
    obtain ⟨i, set⟩ := List.mem_iff_getElem?.1 mem
    rw [List.getElem?_drop] at set
    have := (only _ set).2
    omega
  rw [parts, feeds_append, feeds_append, feeds_clear 0 front, shifts_zero, feeds_clear _ back] at h
  have middle := feeds_eq_zero (List.length_take_le 16 (bits.drop start)) (shifts_eq_zero h)
  rw [parts, List.mem_append, List.mem_append]
  rintro (set | set | set)
  · exact front set
  · exact middle set
  · exact back set

/-! ## Parity -/

/-- An odd number of the lowest `n` bits is set. -/
def oddBelow : (n : Nat) → BitVec 16 → Bool
  | 0, _ => false
  | n + 1, x => oddBelow n x ^^ x.getLsbD n

/-- An odd number of bits is set. -/
def odd (r : UInt16) : Bool := oddBelow 16 r.toBitVec

theorem oddBelow_xor (n : Nat) (x y : BitVec 16) : oddBelow n (x ^^^ y) = (oddBelow n x ^^ oddBelow n y) := by
  induction n with
  | zero => rfl
  | succ n ih => simp only [oddBelow, ih, BitVec.getLsbD_xor, Bool.xor_assoc, Bool.xor_left_comm (oddBelow n y)]

theorem odd_xor (x y : UInt16) : odd (x ^^^ y) = (odd x ^^ odd y) := oddBelow_xor 16 _ _

theorem oddBelow_shiftRight (n : Nat) (x : BitVec 16) : oddBelow n (x >>> 1) = (oddBelow (n + 1) x ^^ x.getLsbD 0) := by
  induction n with
  | zero => simp [oddBelow]
  | succ n ih =>
    have above : (x >>> 1).getLsbD n = x.getLsbD (n + 1) := by rw [BitVec.getLsbD_ushiftRight, Nat.add_comm]
    rw [oddBelow, ih, above, Bool.xor_assoc, Bool.xor_comm (x.getLsbD 0), ← Bool.xor_assoc]
    rfl

theorem and_one_eq_one_iff (x : UInt16) : x &&& 1 = 1 ↔ x.toBitVec.getLsbD 0 = true := by
  rw [← UInt16.toNat_inj]
  simp [BitVec.getLsbD, Nat.testBit]

/-- **Moving the register keeps its parity**: with the bit that leaves, an odd number of others is turned. -/
theorem odd_shift (x : UInt16) : odd (shift x) = odd x := by
  have moved : odd (x >>> 1) = (odd x ^^ x.toBitVec.getLsbD 0) := by
    have top : x.toBitVec.getLsbD 16 = false := BitVec.getLsbD_of_ge _ _ (Nat.le_refl _)
    have whole : oddBelow 17 x.toBitVec = odd x := by rw [oddBelow, top, Bool.xor_false, odd]
    exact whole ▸ oddBelow_shiftRight 16 x.toBitVec
  have turned : odd polynomial = true := by decide
  unfold shift
  split
  next set => rw [odd_xor, moved, turned, (and_one_eq_one_iff x).1 set, Bool.xor_assoc, Bool.xor_self, Bool.xor_false]
  next clear => rw [moved, Bool.eq_false_iff.2 (mt (and_one_eq_one_iff x).2 clear), Bool.xor_false]

/-- **The parity of the register** is that of the bits it has taken. -/
theorem odd_feeds (r : UInt16) (bits : List Bool) :
    odd (feeds r bits) = (odd r ^^ decide (bits.count true % 2 = 1)) := by
  induction bits generalizing r with
  | nil => simp [feeds]
  | cons bit rest ih =>
    have one : odd bit.toUInt16 = bit := by cases bit <;> decide
    have fed : odd (feed r bit) = (odd r ^^ bit) := by rw [feed, odd_shift, odd_xor, one]
    have tail : feeds r (bit :: rest) = feeds (feed r bit) rest := rfl
    rw [tail, ih, fed, Bool.xor_assoc]
    cases bit with
    | false => simp
    | true =>
      rw [List.count_cons_self]
      rcases Nat.mod_two_eq_zero_or_one (rest.count true) with even | odd
      · have next : (rest.count true + 1) % 2 = 1 := by omega
        simp [even, next]
      · have next : (rest.count true + 1) % 2 = 0 := by omega
        simp [odd, next]

theorem feeds_ne_zero_of_odd {bits : List Bool} (h : bits.count true % 2 = 1) : feeds 0 bits ≠ 0 := by
  have empty : odd 0 = false := by decide
  intro none
  have parity := odd_feeds 0 bits
  rw [none, empty, h] at parity
  simp at parity

/-! ## The register of a good frame -/

theorem length_valueBytes (c : Crc) : c.valueBytes.length = 2 := Bytes.length_littleEndian 2 _

theorem word_littleEndian (r : UInt16) : word (Bytes.bits (Bytes.littleEndian 2 r.toNat)) = r := by
  apply UInt16.toBitVec_inj.1
  apply BitVec.eq_of_getLsbD_eq
  intro i hi
  have fields : Bytes.bits (Bytes.littleEndian 2 r.toNat) =
      Bytes.bitsOf (UInt8.ofNat r.toNat) ++ Bytes.bitsOf (UInt8.ofNat (r.toNat / 256)) := by
    simp [Bytes.littleEndian, Bytes.bits]
  rw [getLsbD_word _ i hi, fields]
  have byte (n j : Nat) (hj : j < 8) : (UInt8.ofNat n).toBitVec.getLsbD j = n.testBit j := by
    show (n % 2 ^ 8).testBit j = n.testBit j
    rw [Nat.testBit_mod_two_pow, decide_eq_true hj, Bool.true_and]
  have width := Bytes.length_bitsOf (UInt8.ofNat r.toNat)
  show (_ : List Bool).getD i false = r.toNat.testBit i
  rw [List.getD_eq_getElem?_getD]
  by_cases low : i < 8
  · rw [List.getElem?_append_left (width.symm ▸ low), ← List.getD_eq_getElem?_getD, Bytes.getD_bitsOf, byte _ _ low]
  · have moved : (r.toNat / 256).testBit (i - 8) = r.toNat.testBit i := by
      rw [show 256 = 2 ^ 8 from rfl, Nat.testBit_div_two_pow, Nat.sub_add_cancel (by omega)]
    rw [List.getElem?_append_right (by omega), width, ← List.getD_eq_getElem?_getD, Bytes.getD_bitsOf,
      byte _ _ (by omega), moved]

/-- **The register after a frame with its own checksum** is always the same: the checksum cancels what the
register held, down to the ones that it was inverted with. -/
theorem update_valueBytes (c : Crc) : (c.update c.valueBytes).register = good := by
  have width : (Bytes.bits c.valueBytes).length = 16 := by rw [Bytes.length_bits, length_valueBytes]
  have ones : c.register ^^^ word (Bytes.bits c.valueBytes) = 0xFFFF := by
    rw [valueBytes, word_littleEndian, value, ← UInt16.xor_assoc, UInt16.xor_self, UInt16.zero_xor]
  rw [update_register, feeds_eq _ (Nat.le_of_eq width), width, ones]
  decide +kernel

/-- **No other trailer** than its own checksum takes the register to the good one. -/
theorem register_eq_good_iff (c : Crc) {trailer : Bytes} (two : trailer.length = 2) :
    (c.update trailer).register = good ↔ trailer = c.valueBytes := by
  constructor
  · intro reached
    have length : trailer.length = c.valueBytes.length := by rw [two, length_valueBytes]
    rw [← c.update_valueBytes, update_register, update_register] at reached
    have width (bytes : Bytes) (two : bytes.length = 2) : (Bytes.bits bytes).length = 16 := by
      rw [Bytes.length_bits, two]
    refine Bytes.bits_inj length (feeds_inj ?_ (Nat.le_of_eq (width _ two)) reached)
    rw [width _ two, width _ (length_valueBytes c)]
  · rintro rfl
    exact c.update_valueBytes

/-! ## CRC-16/X-25 -/

/-- Takes one bit into a register whose top bit is the highest power. -/
def x25Feed (r : BitVec 16) (bit : Bool) : BitVec 16 :=
  if r.msb ^^ bit then r <<< 1 ^^^ 0x1021 else r <<< 1

/-- CRC-16/X-25 as it is catalogued: the polynomial `0x1021`, a register that starts with ones and takes
the lowest bit of every byte first, and a result that is turned around and inverted. -/
def x25 (bytes : Bytes) : BitVec 16 := ~~~((Bytes.bits bytes).foldl x25Feed 0xFFFF).reverse

theorem reverse_shiftRight (x : BitVec 16) : (x >>> 1).reverse = x.reverse <<< 1 := by
  apply BitVec.eq_of_getLsbD_eq
  intro i hi
  rw [BitVec.getLsbD_reverse, BitVec.getLsbD_shiftLeft, BitVec.getLsbD_reverse, BitVec.getMsbD, BitVec.getMsbD,
    BitVec.getLsbD_ushiftRight]
  cases i with
  | zero => simp
  | succ i =>
    have place : 1 + (16 - 1 - (i + 1)) = 16 - 1 - i := by omega
    have below : i < 16 := by omega
    rw [place]
    simp [hi, below]

theorem reverse_xor (x y : BitVec 16) : (x ^^^ y).reverse = x.reverse ^^^ y.reverse := by
  apply BitVec.eq_of_getLsbD_eq
  intro i hi
  simp [BitVec.getLsbD_reverse]

/-- One bit does to the register what it does to the catalogued one the other way round. -/
theorem reverse_feed (r : UInt16) (bit : Bool) : (feed r bit).toBitVec.reverse = x25Feed r.toBitVec.reverse bit := by
  have low : (r ^^^ bit.toUInt16).toBitVec.getLsbD 0 = (r.toBitVec.reverse.msb ^^ bit) := by
    rw [UInt16.toBitVec_xor, BitVec.getLsbD_xor, getLsbD_toUInt16 bit 0 (by decide), BitVec.msb, BitVec.getMsbD_reverse]
    rfl
  have moved : ((r ^^^ bit.toUInt16) >>> 1).toBitVec.reverse = r.toBitVec.reverse <<< 1 := by
    have none : bit.toUInt16 >>> 1 = 0 := by cases bit <;> decide
    rw [UInt16.shiftRight_xor, none, UInt16.xor_zero]
    exact reverse_shiftRight r.toBitVec
  have terms : polynomial.toBitVec.reverse = 0x1021 := by decide
  unfold feed shift x25Feed
  rw [← low]
  split
  next set => rw [if_pos ((and_one_eq_one_iff _).1 set), UInt16.toBitVec_xor, reverse_xor, moved, terms]
  next clear => rw [if_neg (mt (and_one_eq_one_iff _).2 clear), moved]

theorem reverse_feeds (r : UInt16) (bits : List Bool) :
    (feeds r bits).toBitVec.reverse = bits.foldl x25Feed r.toBitVec.reverse := by
  induction bits generalizing r with
  | nil => rfl
  | cons bit rest ih =>
    rw [List.foldl_cons, ← reverse_feed]
    exact ih (feed r bit)

theorem getLsbD_ones : ∀ i < 16, (UInt16.toBitVec 0xFFFF).getLsbD i = true := by decide

/-- **The checksum is CRC-16/X-25.** -/
theorem ofBytes_x25 (bytes : Bytes) : (ofBytes bytes).toBitVec = x25 bytes := by
  have ones : (0xFFFF : UInt16).toBitVec.reverse = 0xFFFF := by decide
  have turned := reverse_feeds 0xFFFF (Bytes.bits bytes)
  rw [ones] at turned
  rw [x25, ← turned, BitVec.reverse_reverse_eq, ofBytes, value, update_register, UInt16.toBitVec_xor]
  apply BitVec.eq_of_getLsbD_eq
  intro i hi
  rw [BitVec.getLsbD_xor, getLsbD_ones i hi, BitVec.getLsbD_not]
  simp [hi, start]

/-- The check value of the catalogue, over the digits from 1 to 9. -/
example : x25 [0x31, 0x32, 0x33, 0x34, 0x35, 0x36, 0x37, 0x38, 0x39] = 0x906E := by cbv

end Metering.Crc
