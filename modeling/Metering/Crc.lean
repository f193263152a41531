import Metering.Fault
set_option autoImplicit false

/-! # The packet checksum

Packets end with a cyclic redundancy check of sixteen bits: the polynomial `x¹⁶ + x¹² + x⁵ + 1`
with the bits reversed, a register that starts with ones and a result that is inverted.
`Crc.step` takes one byte bit by bit and is the definition; `Crc.stepByTable` looks the eight
steps up in a table of 256 entries. -/

namespace Metering

/-- The register of a running checksum. -/
structure Crc where
  register : UInt16
  deriving DecidableEq, Repr

namespace Crc

/-- The polynomial, lowest power in the top bit. -/
def polynomial : UInt16 := 0x8408

/-- The register before the first byte. -/
def start : Crc := ⟨0xFFFF⟩

/-- The register after a frame with its own checksum. -/
def good : UInt16 := 0xF0B8

/-- Moves the register by one bit. -/
def shift (r : UInt16) : UInt16 :=
  if r &&& 1 = 1 then (r >>> 1) ^^^ polynomial else r >>> 1

/-- Moves the register by `n` bits. -/
def shifts : Nat → UInt16 → UInt16
  | 0, r => r
  | n + 1, r => shifts n (shift r)

/-- Takes one byte, bit by bit. -/
def step (c : Crc) (b : UInt8) : Crc := ⟨shifts 8 (c.register ^^^ b.toUInt16)⟩

/-- The effect of eight bits on a register below 256. -/
def table : Array UInt16 := (Array.range 256).map fun b => shifts 8 (UInt16.ofNat b)

/-- Takes one byte through the table. -/
def stepByTable (c : Crc) (b : UInt8) : Crc :=
  ⟨(c.register >>> 8) ^^^ table.getD ((c.register ^^^ b.toUInt16) &&& 0xFF).toNat 0⟩

/-- Takes a run of bytes. -/
def update (c : Crc) (bytes : Bytes) : Crc := bytes.foldl stepByTable c

/-- The checksum. -/
def value (c : Crc) : UInt16 := c.register ^^^ 0xFFFF

/-- The checksum as it is sent. -/
def valueBytes (c : Crc) : Bytes := Bytes.littleEndian 2 c.value.toNat

/-- Checks the register after a frame with its own checksum. -/
def validate (c : Crc) : Except Fault Unit :=
  if c.register = good then .ok ()
  else .error (.frameInvalid (.checksumRegister c.register.toNat good.toNat))

/-- The checksum of a run of bytes. -/
def ofBytes (bytes : Bytes) : UInt16 := (start.update bytes).value

/-- The checksum of a run of bytes, bit by bit. -/
def bitwise (bytes : Bytes) : UInt16 := (bytes.foldl step start).value

end Crc

end Metering
