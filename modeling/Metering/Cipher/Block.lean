import Metering.Bytes
set_option autoImplicit false

/-! # Blocks

Block ciphers work on runs of bytes of a fixed size, here kept in the type. -/

namespace Metering

/-- A block of sixteen bytes. -/
abbrev Block := Vector UInt8 16

/-- A block cipher under one key, for blocks of `size` bytes. -/
structure BlockCipher (size : Nat) where
  encrypt : Vector UInt8 size → Vector UInt8 size
  decrypt : Vector UInt8 size → Vector UInt8 size

namespace Block

/-- The first sixteen bytes of a run, filled up with zeros. -/
def ofBytes (bytes : Bytes) : Block := Vector.ofFn fun i => bytes.getD i.val 0

/-- The bytes of a block. -/
def bytes (b : Block) : Bytes := b.toList

/-- Exclusive or of two blocks. -/
def xor (a b : Block) : Block := Vector.zipWith (· ^^^ ·) a b

/-- The block of zeros. -/
def zero : Block := Vector.replicate 16 0

/-- The number whose big-endian bytes are the block. -/
def toNat (b : Block) : Nat := Bytes.ofBigEndian b.bytes

/-- The block whose bytes are the low sixteen of `n`, most significant first. -/
def ofNat (n : Nat) : Block := ofBytes (Bytes.bigEndian 16 n)

@[simp] theorem length_bytes (b : Block) : b.bytes.length = 16 := by simp [bytes]

end Block

end Metering
