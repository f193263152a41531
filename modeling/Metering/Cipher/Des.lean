import Metering.Cipher.Block
set_option autoImplicit false

/-! # The DES block cipher

A block of 64 bits is permuted, sent through sixteen rounds that add a function of one half
and a round key to the other half, and permuted back. Decryption is the same with the round
keys in the opposite order. Bits are counted from the most significant one, starting at 1, as
the tables of the standard do. -/

namespace Metering.Des

/-! ## Tables of the standard -/

/-- The permutation before the first round. -/
def initialTable : List Nat :=
  [58, 50, 42, 34, 26, 18, 10, 2, 60, 52, 44, 36, 28, 20, 12, 4,
   62, 54, 46, 38, 30, 22, 14, 6, 64, 56, 48, 40, 32, 24, 16, 8,
   57, 49, 41, 33, 25, 17, 9, 1, 59, 51, 43, 35, 27, 19, 11, 3,
   61, 53, 45, 37, 29, 21, 13, 5, 63, 55, 47, 39, 31, 23, 15, 7]

/-- The permutation after the last round. -/
def finalTable : List Nat :=
  [40, 8, 48, 16, 56, 24, 64, 32, 39, 7, 47, 15, 55, 23, 63, 31,
   38, 6, 46, 14, 54, 22, 62, 30, 37, 5, 45, 13, 53, 21, 61, 29,
   36, 4, 44, 12, 52, 20, 60, 28, 35, 3, 43, 11, 51, 19, 59, 27,
   34, 2, 42, 10, 50, 18, 58, 26, 33, 1, 41, 9, 49, 17, 57, 25]

/-- The 32 bits of a half spread over 48. -/
def expansionTable : List Nat :=
  [32, 1, 2, 3, 4, 5, 4, 5, 6, 7, 8, 9, 8, 9, 10, 11, 12, 13, 12, 13, 14, 15, 16, 17,
   16, 17, 18, 19, 20, 21, 20, 21, 22, 23, 24, 25, 24, 25, 26, 27, 28, 29, 28, 29, 30, 31, 32, 1]

/-- The permutation after the substitution. -/
def roundTable : List Nat :=
  [16, 7, 20, 21, 29, 12, 28, 17, 1, 15, 23, 26, 5, 18, 31, 10,
   2, 8, 24, 14, 32, 27, 3, 9, 19, 13, 30, 6, 22, 11, 4, 25]

/-- The 56 bits of a key that count. -/
def keyTable : List Nat :=
  [57, 49, 41, 33, 25, 17, 9, 1, 58, 50, 42, 34, 26, 18,
   10, 2, 59, 51, 43, 35, 27, 19, 11, 3, 60, 52, 44, 36,
   63, 55, 47, 39, 31, 23, 15, 7, 62, 54, 46, 38, 30, 22,
   14, 6, 61, 53, 45, 37, 29, 21, 13, 5, 28, 20, 12, 4]

/-- The 48 of the 56 bits that make a round key. -/
def roundKeyTable : List Nat :=
  [14, 17, 11, 24, 1, 5, 3, 28, 15, 6, 21, 10, 23, 19, 12, 4,
   26, 8, 16, 7, 27, 20, 13, 2, 41, 52, 31, 37, 47, 55, 30, 40,
   51, 45, 33, 48, 44, 49, 39, 56, 34, 53, 46, 42, 50, 36, 29, 32]

/-- How far both halves of the key turn before each round. -/
def turns : List Nat := [1, 1, 2, 2, 2, 2, 2, 2, 1, 2, 2, 2, 2, 2, 2, 1]

/-- The eight substitutions of six bits by four, row by row. -/
def substitutions : List (Array Nat) :=
  [#[14, 4, 13, 1, 2, 15, 11, 8, 3, 10, 6, 12, 5, 9, 0, 7,
     0, 15, 7, 4, 14, 2, 13, 1, 10, 6, 12, 11, 9, 5, 3, 8,
     4, 1, 14, 8, 13, 6, 2, 11, 15, 12, 9, 7, 3, 10, 5, 0,
     15, 12, 8, 2, 4, 9, 1, 7, 5, 11, 3, 14, 10, 0, 6, 13],
   #[15, 1, 8, 14, 6, 11, 3, 4, 9, 7, 2, 13, 12, 0, 5, 10,
     3, 13, 4, 7, 15, 2, 8, 14, 12, 0, 1, 10, 6, 9, 11, 5,
     0, 14, 7, 11, 10, 4, 13, 1, 5, 8, 12, 6, 9, 3, 2, 15,
     13, 8, 10, 1, 3, 15, 4, 2, 11, 6, 7, 12, 0, 5, 14, 9],
   #[10, 0, 9, 14, 6, 3, 15, 5, 1, 13, 12, 7, 11, 4, 2, 8,
     13, 7, 0, 9, 3, 4, 6, 10, 2, 8, 5, 14, 12, 11, 15, 1,
     13, 6, 4, 9, 8, 15, 3, 0, 11, 1, 2, 12, 5, 10, 14, 7,
     1, 10, 13, 0, 6, 9, 8, 7, 4, 15, 14, 3, 11, 5, 2, 12],
   #[7, 13, 14, 3, 0, 6, 9, 10, 1, 2, 8, 5, 11, 12, 4, 15,
     13, 8, 11, 5, 6, 15, 0, 3, 4, 7, 2, 12, 1, 10, 14, 9,
     10, 6, 9, 0, 12, 11, 7, 13, 15, 1, 3, 14, 5, 2, 8, 4,
     3, 15, 0, 6, 10, 1, 13, 8, 9, 4, 5, 11, 12, 7, 2, 14],
   #[2, 12, 4, 1, 7, 10, 11, 6, 8, 5, 3, 15, 13, 0, 14, 9,
     14, 11, 2, 12, 4, 7, 13, 1, 5, 0, 15, 10, 3, 9, 8, 6,
     4, 2, 1, 11, 10, 13, 7, 8, 15, 9, 12, 5, 6, 3, 0, 14,
     11, 8, 12, 7, 1, 14, 2, 13, 6, 15, 0, 9, 10, 4, 5, 3],
   #[12, 1, 10, 15, 9, 2, 6, 8, 0, 13, 3, 4, 14, 7, 5, 11,
     10, 15, 4, 2, 7, 12, 9, 5, 6, 1, 13, 14, 0, 11, 3, 8,
     9, 14, 15, 5, 2, 8, 12, 3, 7, 0, 4, 10, 1, 13, 11, 6,
     4, 3, 2, 12, 9, 5, 15, 10, 11, 14, 1, 7, 6, 0, 8, 13],
   #[4, 11, 2, 14, 15, 0, 8, 13, 3, 12, 9, 7, 5, 10, 6, 1,
     13, 0, 11, 7, 4, 9, 1, 10, 14, 3, 5, 12, 2, 15, 8, 6,
     1, 4, 11, 13, 12, 3, 7, 14, 10, 15, 6, 8, 0, 5, 9, 2,
     6, 11, 13, 8, 1, 4, 10, 7, 9, 5, 0, 15, 14, 2, 3, 12],
   #[13, 2, 8, 4, 6, 15, 11, 1, 10, 9, 3, 14, 5, 0, 12, 7,
     1, 15, 13, 8, 10, 3, 7, 4, 12, 5, 6, 11, 0, 14, 9, 2,
     7, 11, 4, 1, 9, 12, 14, 2, 0, 6, 10, 13, 15, 3, 5, 8,
     2, 1, 14, 7, 4, 10, 8, 13, 15, 12, 9, 0, 3, 5, 6, 11]]

/-! ## The rounds -/

/-- The bits of `x`, a number of `width` bits, that a table picks, in the table's order. -/
def pick (width : Nat) (table : List Nat) (x : Nat) : Nat :=
  table.foldl (fun acc place => 2 * acc + (x >>> (width - place)) % 2) 0

/-- A number of 28 bits turned left by `n` places. -/
def turn (n x : Nat) : Nat := (x <<< n) % 0x10000000 + x >>> (28 - n)

/-- The substitution of one group of six bits: the outer bits choose the row. -/
def substitute (table : Array Nat) (six : Nat) : Nat :=
  table.getD (16 * (2 * (six / 32) + six % 2) + (six / 2) % 16) 0

/-- The eight substitutions side by side. -/
def substituteAll (x : Nat) : Nat :=
  (substitutions.zip [42, 36, 30, 24, 18, 12, 6, 0]).foldl
    (fun acc entry => 16 * acc + substitute entry.1 ((x >>> entry.2) % 64)) 0

/-- What a half and a round key add to the other half. -/
def mix (half key : Nat) : Nat :=
  pick 32 roundTable (substituteAll (pick 32 expansionTable half ^^^ key))

/-- The round keys. -/
def roundKeys (key : Nat) : List Nat :=
  let chosen := pick 64 keyTable key
  let start : Nat × Nat × List Nat := (chosen / 0x10000000, chosen % 0x10000000, [])
  (turns.foldl (fun (c, d, keys) n =>
    let c := turn n c
    let d := turn n d
    (c, d, keys ++ [pick 56 roundKeyTable (c * 0x10000000 + d)])) start).2.2

/-- The rounds on a left and a right half. The halves change places after every round but the
last. -/
def rounds (left right : Nat) : List Nat → Nat × Nat
  | [] => (right, left)
  | k :: keys => rounds right (left ^^^ mix right k) keys

/-- The cipher on a number of 64 bits with the round keys in order of use. -/
def crypt (keys : List Nat) (x : Nat) : Nat :=
  let start := pick 64 initialTable x
  let halves := rounds (start / 0x100000000) (start % 0x100000000) keys
  pick 64 finalTable (halves.1 * 0x100000000 + halves.2)

/-- The cipher on blocks of eight bytes. -/
def cryptBlock (keys : List Nat) (b : Vector UInt8 8) : Vector UInt8 8 :=
  let out := Bytes.bigEndian 8 (crypt keys (Bytes.ofBigEndian b.toList))
  Vector.ofFn fun i => out.getD i.val 0

/-- The cipher for a key of eight bytes. -/
def cipher (key : Vector UInt8 8) : BlockCipher 8 :=
  let keys := roundKeys (Bytes.ofBigEndian key.toList)
  let reversed := keys.reverse
  { encrypt := cryptBlock keys, decrypt := cryptBlock reversed }

end Metering.Des
