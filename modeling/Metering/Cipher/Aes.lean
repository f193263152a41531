import Metering.Cipher.Block
set_option autoImplicit false

/-! # The AES block cipher with 128 bit keys

A block is a square of four columns of four bytes, stored column by column. Each of the ten
rounds substitutes every byte, turns the rows, mixes the columns as polynomials over the field
with 256 elements and adds a round key; the last round does not mix. Decryption undoes the
rounds in the opposite order. -/

namespace Metering.Aes

/-! ## The substitution -/

/-- The substitute of every byte. -/
def substitutes : Array UInt8 := #[
  0x63, 0x7c, 0x77, 0x7b, 0xf2, 0x6b, 0x6f, 0xc5, 0x30, 0x01, 0x67, 0x2b, 0xfe, 0xd7, 0xab, 0x76,
  0xca, 0x82, 0xc9, 0x7d, 0xfa, 0x59, 0x47, 0xf0, 0xad, 0xd4, 0xa2, 0xaf, 0x9c, 0xa4, 0x72, 0xc0,
  0xb7, 0xfd, 0x93, 0x26, 0x36, 0x3f, 0xf7, 0xcc, 0x34, 0xa5, 0xe5, 0xf1, 0x71, 0xd8, 0x31, 0x15,
  0x04, 0xc7, 0x23, 0xc3, 0x18, 0x96, 0x05, 0x9a, 0x07, 0x12, 0x80, 0xe2, 0xeb, 0x27, 0xb2, 0x75,
  0x09, 0x83, 0x2c, 0x1a, 0x1b, 0x6e, 0x5a, 0xa0, 0x52, 0x3b, 0xd6, 0xb3, 0x29, 0xe3, 0x2f, 0x84,
  0x53, 0xd1, 0x00, 0xed, 0x20, 0xfc, 0xb1, 0x5b, 0x6a, 0xcb, 0xbe, 0x39, 0x4a, 0x4c, 0x58, 0xcf,
  0xd0, 0xef, 0xaa, 0xfb, 0x43, 0x4d, 0x33, 0x85, 0x45, 0xf9, 0x02, 0x7f, 0x50, 0x3c, 0x9f, 0xa8,
  0x51, 0xa3, 0x40, 0x8f, 0x92, 0x9d, 0x38, 0xf5, 0xbc, 0xb6, 0xda, 0x21, 0x10, 0xff, 0xf3, 0xd2,
  0xcd, 0x0c, 0x13, 0xec, 0x5f, 0x97, 0x44, 0x17, 0xc4, 0xa7, 0x7e, 0x3d, 0x64, 0x5d, 0x19, 0x73,
  0x60, 0x81, 0x4f, 0xdc, 0x22, 0x2a, 0x90, 0x88, 0x46, 0xee, 0xb8, 0x14, 0xde, 0x5e, 0x0b, 0xdb,
  0xe0, 0x32, 0x3a, 0x0a, 0x49, 0x06, 0x24, 0x5c, 0xc2, 0xd3, 0xac, 0x62, 0x91, 0x95, 0xe4, 0x79,
  0xe7, 0xc8, 0x37, 0x6d, 0x8d, 0xd5, 0x4e, 0xa9, 0x6c, 0x56, 0xf4, 0xea, 0x65, 0x7a, 0xae, 0x08,
  0xba, 0x78, 0x25, 0x2e, 0x1c, 0xa6, 0xb4, 0xc6, 0xe8, 0xdd, 0x74, 0x1f, 0x4b, 0xbd, 0x8b, 0x8a,
  0x70, 0x3e, 0xb5, 0x66, 0x48, 0x03, 0xf6, 0x0e, 0x61, 0x35, 0x57, 0xb9, 0x86, 0xc1, 0x1d, 0x9e,
  0xe1, 0xf8, 0x98, 0x11, 0x69, 0xd9, 0x8e, 0x94, 0x9b, 0x1e, 0x87, 0xe9, 0xce, 0x55, 0x28, 0xdf,
  0x8c, 0xa1, 0x89, 0x0d, 0xbf, 0xe6, 0x42, 0x68, 0x41, 0x99, 0x2d, 0x0f, 0xb0, 0x54, 0xbb, 0x16]

/-- The byte that every byte substitutes. -/
def origins : Array UInt8 := #[
  0x52, 0x09, 0x6a, 0xd5, 0x30, 0x36, 0xa5, 0x38, 0xbf, 0x40, 0xa3, 0x9e, 0x81, 0xf3, 0xd7, 0xfb,
  0x7c, 0xe3, 0x39, 0x82, 0x9b, 0x2f, 0xff, 0x87, 0x34, 0x8e, 0x43, 0x44, 0xc4, 0xde, 0xe9, 0xcb,
  0x54, 0x7b, 0x94, 0x32, 0xa6, 0xc2, 0x23, 0x3d, 0xee, 0x4c, 0x95, 0x0b, 0x42, 0xfa, 0xc3, 0x4e,
  0x08, 0x2e, 0xa1, 0x66, 0x28, 0xd9, 0x24, 0xb2, 0x76, 0x5b, 0xa2, 0x49, 0x6d, 0x8b, 0xd1, 0x25,
  0x72, 0xf8, 0xf6, 0x64, 0x86, 0x68, 0x98, 0x16, 0xd4, 0xa4, 0x5c, 0xcc, 0x5d, 0x65, 0xb6, 0x92,
  0x6c, 0x70, 0x48, 0x50, 0xfd, 0xed, 0xb9, 0xda, 0x5e, 0x15, 0x46, 0x57, 0xa7, 0x8d, 0x9d, 0x84,
  0x90, 0xd8, 0xab, 0x00, 0x8c, 0xbc, 0xd3, 0x0a, 0xf7, 0xe4, 0x58, 0x05, 0xb8, 0xb3, 0x45, 0x06,
  0xd0, 0x2c, 0x1e, 0x8f, 0xca, 0x3f, 0x0f, 0x02, 0xc1, 0xaf, 0xbd, 0x03, 0x01, 0x13, 0x8a, 0x6b,
  0x3a, 0x91, 0x11, 0x41, 0x4f, 0x67, 0xdc, 0xea, 0x97, 0xf2, 0xcf, 0xce, 0xf0, 0xb4, 0xe6, 0x73,
  0x96, 0xac, 0x74, 0x22, 0xe7, 0xad, 0x35, 0x85, 0xe2, 0xf9, 0x37, 0xe8, 0x1c, 0x75, 0xdf, 0x6e,
  0x47, 0xf1, 0x1a, 0x71, 0x1d, 0x29, 0xc5, 0x89, 0x6f, 0xb7, 0x62, 0x0e, 0xaa, 0x18, 0xbe, 0x1b,
  0xfc, 0x56, 0x3e, 0x4b, 0xc6, 0xd2, 0x79, 0x20, 0x9a, 0xdb, 0xc0, 0xfe, 0x78, 0xcd, 0x5a, 0xf4,
  0x1f, 0xdd, 0xa8, 0x33, 0x88, 0x07, 0xc7, 0x31, 0xb1, 0x12, 0x10, 0x59, 0x27, 0x80, 0xec, 0x5f,
  0x60, 0x51, 0x7f, 0xa9, 0x19, 0xb5, 0x4a, 0x0d, 0x2d, 0xe5, 0x7a, 0x9f, 0x93, 0xc9, 0x9c, 0xef,
  0xa0, 0xe0, 0x3b, 0x4d, 0xae, 0x2a, 0xf5, 0xb0, 0xc8, 0xeb, 0xbb, 0x3c, 0x83, 0x53, 0x99, 0x61,
  0x17, 0x2b, 0x04, 0x7e, 0xba, 0x77, 0xd6, 0x26, 0xe1, 0x69, 0x14, 0x63, 0x55, 0x21, 0x0c, 0x7d]

/-- The substitute of a byte. -/
def substitute (b : UInt8) : UInt8 := substitutes.getD b.toNat 0

/-- The byte whose substitute is given. -/
def origin (b : UInt8) : UInt8 := origins.getD b.toNat 0

/-! ## The field -/

/-- Multiplication by the polynomial `x`. -/
def double (b : UInt8) : UInt8 := if b &&& 0x80 = 0 then b <<< 1 else (b <<< 1) ^^^ 0x1B

/-- Multiplication by three. -/
def triple (b : UInt8) : UInt8 := double b ^^^ b

/-- Multiplication by the four factors that undo a mixed column: 14, 11, 13 and 9. -/
def unmix (a b c d : UInt8) : UInt8 :=
  let times8 (x : UInt8) := double (double (double x))
  let times4 (x : UInt8) := double (double x)
  (times8 a ^^^ times4 a ^^^ double a) ^^^ (times8 b ^^^ double b ^^^ b)
    ^^^ (times8 c ^^^ times4 c ^^^ c) ^^^ (times8 d ^^^ d)

/-! ## The rounds -/

/-- Row `r` moves `r` places to the left. -/
def shiftRows (s : Block) : Block := Vector.ofFn fun i => s[(i.val + 4 * (i.val % 4)) % 16]

/-- Row `r` moves `r` places to the right. -/
def unshiftRows (s : Block) : Block := Vector.ofFn fun i => s[(i.val + 12 * (i.val % 4)) % 16]

/-- The byte `k` rows below byte `i`, in the same column. -/
def below (s : Block) (i : Fin 16) (k : Nat) : UInt8 :=
  s[4 * (i.val / 4) + (i.val + k) % 4]

/-- Every column as a polynomial, times `3x³ + x² + x + 2`. -/
def mixColumns (s : Block) : Block :=
  Vector.ofFn fun i => double s[i] ^^^ triple (below s i 1) ^^^ below s i 2 ^^^ below s i 3

/-- Undoes `mixColumns`. -/
def unmixColumns (s : Block) : Block :=
  Vector.ofFn fun i => unmix s[i] (below s i 1) (below s i 2) (below s i 3)

/-! ## The keys of the rounds -/

/-- The round key after `k`, for the round constant `c`. -/
def nextKey (c : UInt8) (k : Block) : Block :=
  let turned : Fin 4 → UInt8 := fun i =>
    substitute k[12 + (i.val + 1) % 4] ^^^ (if i.val = 0 then c else 0)
  Vector.ofFn fun i =>
    (List.range (i.val / 4 + 1)).foldl (fun x w => x ^^^ k.getD (4 * w + i.val % 4) 0)
      (turned ⟨i.val % 4, Nat.mod_lt _ (by decide)⟩)

/-- The round constants. -/
def roundConstants : List UInt8 := [0x01, 0x02, 0x04, 0x08, 0x10, 0x20, 0x40, 0x80, 0x1B, 0x36]

/-- The eleven round keys, the key itself first. -/
def roundKeys (key : Block) : List Block :=
  roundConstants.foldl (fun keys c => keys ++ [nextKey c (keys.getLastD key)]) [key]

/-! ## The cipher -/

/-- The rounds after the first key was added; the last one does not mix. -/
def rounds (s : Block) : List Block → Block
  | [] => s
  | [last] => Block.xor (shiftRows (s.map substitute)) last
  | k :: keys => rounds (Block.xor (mixColumns (shiftRows (s.map substitute))) k) keys

/-- Undoes the rounds, given the keys last first. -/
def unrounds (s : Block) : List Block → Block
  | [] => s
  | [first] => Block.xor ((unshiftRows s).map origin) first
  | k :: keys => unrounds (unmixColumns (Block.xor ((unshiftRows s).map origin) k)) keys

/-- Encrypts with round keys. -/
def encryptWith (keys : List Block) (b : Block) : Block :=
  match keys with
  | [] => b
  | k :: keys => rounds (b.xor k) keys

/-- Decrypts with round keys, last first. -/
def decryptWith (keys : List Block) (b : Block) : Block :=
  match keys with
  | [] => b
  | k :: keys => unrounds (b.xor k) keys

/-- The cipher for a key. -/
def cipher (key : Block) : BlockCipher 16 :=
  let keys := roundKeys key
  let reversed := keys.reverse
  { encrypt := encryptWith keys, decrypt := decryptWith reversed }

end Metering.Aes
