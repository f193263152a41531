set_option autoImplicit false

/-! # Bytes and numbers on the wire

Every frame of the protocol family is a list of bytes. Numbers travel most significant byte
first in a field of fixed width (`bigEndian`), except for the packet checksum, which travels
least significant byte first (`littleEndian`). A field keeps the number modulo `fieldSize width`;
`ofBigEndian` reads a field of any width back.

Diagnostics show bytes as pairs of upper case hexadecimal digits. -/

namespace Metering

/-- A run of bytes, first on the wire first. -/
abbrev Bytes := List UInt8

namespace Bytes

/-! ## Fixed width numbers -/

/-- The low `width` bytes of `n`, most significant first. -/
def bigEndian : (width n : Nat) → Bytes
  | 0, _ => []
  | width + 1, n => bigEndian width (n / 256) ++ [UInt8.ofNat n]

/-- The low `width` bytes of `n`, least significant first. -/
def littleEndian : (width n : Nat) → Bytes
  | 0, _ => []
  | width + 1, n => UInt8.ofNat n :: littleEndian width (n / 256)

/-- How many numbers a field of `width` bytes can hold. -/
def fieldSize : (width : Nat) → Nat
  | 0 => 1
  | width + 1 => 256 * fieldSize width

/-- The number whose digits to base 256 are `bytes`. -/
def ofBigEndian (bytes : Bytes) : Nat :=
  bytes.foldl (fun n b => n * 256 + b.toNat) 0

/-- The number whose digits to base 256, lowest first, are `bytes`. -/
def ofLittleEndian (bytes : Bytes) : Nat :=
  bytes.foldr (fun b n => n * 256 + b.toNat) 0

@[simp] theorem length_bigEndian (width n : Nat) : (bigEndian width n).length = width := by
  induction width generalizing n with
  | zero => rfl
  | succ width ih => simp [bigEndian, ih]

@[simp] theorem length_littleEndian (width n : Nat) : (littleEndian width n).length = width := by
  induction width generalizing n with
  | zero => rfl
  | succ width ih => simp [littleEndian, ih]

theorem ofBigEndian_append_singleton (bytes : Bytes) (b : UInt8) :
    ofBigEndian (bytes ++ [b]) = ofBigEndian bytes * 256 + b.toNat := by
  simp [ofBigEndian]

/-- Reading a field gives the number back, modulo what the field can hold. -/
theorem ofBigEndian_bigEndian (width n : Nat) :
    ofBigEndian (bigEndian width n) = n % fieldSize width := by
  induction width generalizing n with
  | zero => simp [bigEndian, ofBigEndian, fieldSize, Nat.mod_one]
  | succ width ih =>
    rw [fieldSize, Nat.mod_mul, bigEndian, ofBigEndian_append_singleton, ih,
      UInt8.toNat_ofNat']
    omega

/-! ## Hexadecimal text -/

/-- The upper case digit for a number below 16. -/
def hexDigit (n : Nat) : Char :=
  if n < 10 then Char.ofNat (48 + n) else Char.ofNat (55 + n)

/-- `n` in upper case hexadecimal, with at least `width` digits. -/
def hexNumber (width n : Nat) : String :=
  let digits := (Nat.toDigits 16 n).map Char.toUpper
  String.ofList (List.replicate (width - digits.length) '0' ++ digits)

/-- The two upper case digits of a byte. -/
def hexByte (b : UInt8) : String :=
  String.ofList [hexDigit (b.toNat / 16), hexDigit (b.toNat % 16)]

/-- Bytes as upper case pairs of digits with blanks between, such as `EE 00 20`. -/
def dump (bytes : Bytes) : String :=
  String.intercalate " " (bytes.map hexByte)

/-- Exclusive or of two runs, as long as the shorter one. -/
def xor (a b : Bytes) : Bytes :=
  List.zipWith (· ^^^ ·) a b

/-! ## Pieces -/

/-- `bytes` cut into runs of `size`, the last one perhaps shorter. -/
def chunks (size : Nat) (bytes : Bytes) : List Bytes :=
  go bytes.length bytes
where
  /-- The runs of what is left, at most `fuel` of them. -/
  go : Nat → Bytes → List Bytes
    | 0, _ => []
    | _, [] => []
    | fuel + 1, rest@(_ :: _) => rest.take size :: go fuel (rest.drop size)

end Bytes

end Metering
