import Metering.Buffer.Ring
set_option autoImplicit false

/-! # The buffer a frame is assembled in

A frame is built body first. Headers whose contents depend on the length of what follows are
put in front afterwards, into room that was reserved there, without moving the body. The
storage holds the free room, then the header, then the body. -/

namespace Metering

/-- A buffer that grows in both directions. -/
structure FrameBuffer where
  storage : Bytes
  /-- The place of the first header byte. -/
  start : Nat
  /-- The place of the first body byte. -/
  bodyStart : Nat
  start_le : start ≤ bodyStart
  bodyStart_le : bodyStart ≤ storage.length

namespace FrameBuffer

/-- An empty buffer with free room in front. -/
def withReserve (reserve : Nat) : FrameBuffer where
  storage := List.replicate reserve 0
  start := reserve
  bodyStart := reserve
  start_le := Nat.le_refl _
  bodyStart_le := by simp

/-- The free room of a buffer for which none was asked. -/
def defaultReserve : Nat := 32

/-- The header bytes. -/
def header (b : FrameBuffer) : Bytes := (b.storage.take b.bodyStart).drop b.start

/-- The body bytes. -/
def body (b : FrameBuffer) : Bytes := b.storage.drop b.bodyStart

/-- Header and body. -/
def toList (b : FrameBuffer) : Bytes := b.storage.drop b.start

/-- The bytes of a finished buffer: the free room is taken out of the storage. -/
def finish (b : FrameBuffer) : Bytes := (b.storage.splitAt b.start).2

/-- The number of header and body bytes. -/
def length (b : FrameBuffer) : Nat := b.storage.length - b.start

/-- Nothing was added. -/
def isEmpty (b : FrameBuffer) : Bool := b.length = 0

/-- The number of header bytes. -/
def headerLength (b : FrameBuffer) : Nat := b.bodyStart - b.start

/-- Adds bytes after the body. -/
def append (b : FrameBuffer) (data : Bytes) : FrameBuffer :=
  { b with storage := b.storage ++ data
           bodyStart_le := by have := b.bodyStart_le; simp; omega }

/-- Adds one byte after the body. -/
def appendByte (b : FrameBuffer) (byte : UInt8) : FrameBuffer := b.append [byte]

/-- Makes room for `count` bytes in front. When there is not enough, more is made than needed. -/
def makeRoom (b : FrameBuffer) (count : Nat) : FrameBuffer :=
  if count ≤ b.start then b
  else
    let grow := count - b.start + max b.storage.length 16
    { storage := List.replicate grow 0 ++ b.storage
      start := b.start + grow
      bodyStart := b.bodyStart + grow
      start_le := Nat.add_le_add_right b.start_le _
      bodyStart_le := by have := b.bodyStart_le; simp; omega }

theorem le_start_makeRoom (b : FrameBuffer) (count : Nat) : count ≤ (b.makeRoom count).start := by
  unfold makeRoom
  split
  · assumption
  · dsimp only
    omega

/-- Adds bytes before the header. -/
def prepend (b : FrameBuffer) (data : Bytes) : FrameBuffer :=
  let m := b.makeRoom data.length
  have room : data.length ≤ m.start := b.le_start_makeRoom data.length
  { storage := m.storage.overwrite (m.start - data.length) data
    start := m.start - data.length
    bodyStart := m.bodyStart
    start_le := Nat.le_trans (Nat.sub_le _ _) m.start_le
    bodyStart_le := by
      have h1 := m.start_le
      have h2 := m.bodyStart_le
      rw [Bytes.length_overwrite _ _ _ (by omega)]
      exact h2 }

/-- Adds one byte before the header. -/
def prependByte (b : FrameBuffer) (byte : UInt8) : FrameBuffer := b.prepend [byte]

/-- Adds a length of the basic encoding rules before the header, in the fewest bytes; of a length
that needs more than four bytes the low four are kept. -/
def prependLength (b : FrameBuffer) (n : Nat) : FrameBuffer :=
  if n < 0x80 then b.prepend [UInt8.ofNat n]
  else if n < 0x100 then b.prepend (0x81 :: Bytes.bigEndian 1 n)
  else if n < 0x10000 then b.prepend (0x82 :: Bytes.bigEndian 2 n)
  else if n < 0x1000000 then b.prepend (0x83 :: Bytes.bigEndian 3 n)
  else b.prepend (0x84 :: Bytes.bigEndian 4 n)

/-- Changes the body in place. -/
def mapBody (b : FrameBuffer) (f : UInt8 → UInt8) : FrameBuffer :=
  { b with storage := b.storage.take b.bodyStart ++ (b.storage.drop b.bodyStart).map f
           bodyStart_le := by have := b.bodyStart_le; simp; omega }

/-- Puts another body in the place of the body. -/
def setBody (b : FrameBuffer) (body : Bytes) : FrameBuffer :=
  { b with storage := b.storage.take b.bodyStart ++ body
           bodyStart_le := by have := b.bodyStart_le; simp; omega }

/-- A change of bytes in their place. -/
structure InPlace where
  change : Bytes → Bytes
  length_change (bytes : Bytes) : (change bytes).length = bytes.length

/-- Changes the body where it lies in the storage. -/
def changeBody (b : FrameBuffer) (f : InPlace) : FrameBuffer :=
  { b with storage := b.storage.overwrite b.bodyStart (f.change b.body)
           bodyStart_le := by
            have le := b.bodyStart_le
            have kept := f.length_change b.body
            rw [Bytes.length_overwrite _ _ _ (by rw [kept, body, List.length_drop]; omega)]
            exact le }

theorem le_length_take_bodyStart (b : FrameBuffer) : b.bodyStart ≤ (b.storage.take b.bodyStart).length := by
  rw [List.length_take]
  exact Nat.le_min.2 ⟨Nat.le_refl _, b.bodyStart_le⟩

/-- Drops everything and keeps the free room in front. -/
def clear (b : FrameBuffer) : FrameBuffer where
  storage := b.storage.take b.bodyStart
  start := b.bodyStart
  bodyStart := b.bodyStart
  start_le := Nat.le_refl _
  bodyStart_le := b.le_length_take_bodyStart

end FrameBuffer

end Metering
