import Metering.Fault
set_option autoImplicit false

/-! # Tables

A meter shows its data as numbered tables of bytes. A `Descriptor` says which table to access
and whether the whole of it or a range; `TableData` is what a read gave. The contents carry a
checksum that makes the sum of all bytes, itself included, zero modulo 256. -/

namespace Metering

/-- The largest table number: two bytes. -/
def maxTableNumber : Nat := 0xFFFF

/-- The largest offset: three bytes. -/
def maxTableOffset : Nat := 0xFFFFFF

/-- The largest count: two bytes. -/
def maxTableCount : Nat := 0xFFFF

/-- Manufacturer tables are numbered from here. -/
def manufacturerBase : Nat := 2048

/-- The whole table, or `count` bytes from `offset`. -/
inductive TableAccess where
  | full
  | range (offset count : UInt32)
  deriving DecidableEq, Repr

/-- Which table to access, and how. -/
structure Descriptor where
  number : UInt32
  access : TableAccess
  /-- The caller reads an indexed table in pieces. -/
  indexed : Bool := false
  /-- The size to expect of a full read; a larger one is split to fit the link. -/
  expectedSize : Option UInt32 := none
  deriving DecidableEq, Repr

namespace Descriptor

/-- The whole of a standard table. -/
def full (number : UInt32) : Descriptor := { number, access := .full }

/-- A range of a table. -/
def range (number offset count : UInt32) : Descriptor := { number, access := .range offset count }

/-- The whole of a manufacturer table. -/
def manufacturer (number : UInt32) : Descriptor :=
  full (UInt32.ofNat manufacturerBase + number)

/-- Only a range is accessed. -/
def isPartial (d : Descriptor) : Bool :=
  match d.access with
  | .full => false
  | .range _ _ => true

/-- Checks that number, offset, count and expected size fit their fields. -/
def validate (d : Descriptor) : Except Fault Unit := do
  if d.number.toNat > maxTableNumber then
    throw (.indexOutOfRange .tableNumber d.number.toNat maxTableNumber)
  if let .range offset count := d.access then
    if offset.toNat > maxTableOffset then
      throw (.numberOutOfRange .tableOffset offset.toNat 0 maxTableOffset)
    if count = 0 ∨ count.toNat > maxTableCount then
      throw (.numberOutOfRange .tableCount count.toNat 1 maxTableCount)
    if offset.toNat + count.toNat > maxTableOffset + 1 then
      throw (.numberOutOfRange .tableEndOffset (offset.toNat + count.toNat) 1 (maxTableOffset + 1))
  if let some size := d.expectedSize then
    if size.toNat > maxTableOffset + 1 then
      throw (.numberOutOfRange .expectedTableSize size.toNat 0 (maxTableOffset + 1))

/-- Checks the descriptor together with the data about to be written. -/
def validateWrite (d : Descriptor) (data : Bytes) : Except Fault Unit := do
  d.validate
  match d.access with
  | .full =>
    if data.length > maxTableOffset + 1 then
      throw (.numberOutOfRange .tableDataLength data.length 0 (maxTableOffset + 1))
  | .range _ count =>
    if data.length ≠ count.toNat then
      throw (.numberOutOfRange .tableDataLength data.length count.toNat count.toNat)

/-- The table number as it goes on the wire. -/
def wireNumber (d : Descriptor) : UInt16 := d.number.toUInt16

end Descriptor

/-- What a read of a table gave. -/
structure TableData where
  number : UInt16
  /-- The place of the first byte, for a range. -/
  offset : Option UInt32
  data : Bytes
  /-- The length that the meter announced. -/
  declared : Nat
  /-- The checksum agreed with the data. -/
  checksumValid : Bool
  deriving DecidableEq, Repr

/-- All announced bytes are there. -/
def TableData.isComplete (t : TableData) : Bool := t.data.length = t.declared

/-- The byte that makes the sum of all bytes zero. -/
def tableChecksum (data : Bytes) : UInt8 := 0 - data.foldl (· + ·) 0

end Metering
