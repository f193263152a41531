import Metering.Bytes
set_option autoImplicit false

/-! # Lengths of the basic encoding rules

A length below 128 is one byte. A longer one is a byte with the top bit set that counts the
bytes of the length, and then the length itself, most significant byte first, in the fewest
bytes. -/

namespace Metering.Ber

/-- The shortest encoding of a length below `2 ^ 32`. -/
def lengthBytes (n : Nat) : Bytes :=
  if n < 0x80 then [UInt8.ofNat n]
  else if n < 0x100 then 0x81 :: Bytes.bigEndian 1 n
  else if n < 0x10000 then 0x82 :: Bytes.bigEndian 2 n
  else if n < 0x1000000 then 0x83 :: Bytes.bigEndian 3 n
  else 0x84 :: Bytes.bigEndian 4 n

/-- The tag of an integer. -/
def integerTag : UInt8 := 0x02

/-- The fewest bytes, and at least one, that hold a number below `2 ^ 32`. -/
def unsignedBytes (n : Nat) : Bytes :=
  if n < 0x100 then Bytes.bigEndian 1 n
  else if n < 0x10000 then Bytes.bigEndian 2 n
  else if n < 0x1000000 then Bytes.bigEndian 3 n
  else Bytes.bigEndian 4 n

/-- An element that holds a number: tag, length, integer tag, length, value. -/
def taggedUnsigned (tag : UInt8) (value : UInt32) : Bytes :=
  let bytes := unsignedBytes value.toNat
  [tag, UInt8.ofNat (bytes.length + 2), integerTag, UInt8.ofNat bytes.length] ++ bytes

end Metering.Ber
