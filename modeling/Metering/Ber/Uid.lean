import Metering.Fault
set_option autoImplicit false

/-! # Universal identifiers

An identifier is a list of numbers, the arcs, written in decimal with periods between. One that
starts with a period is relative. On the wire an arc takes seven bits of each byte, with the top
bit set on every byte but the last; the first two arcs of an absolute identifier share one
byte. Arcs have at most 28 bits, and the text has 2 to 128 bytes. -/

namespace Metering.Uid

/-- The tag of an absolute identifier. -/
def absoluteTag : UInt8 := 0x06

/-- The tag of a relative identifier. -/
def relativeTag : UInt8 := 0x80

/-- The other tag under which relative identifiers are accepted. -/
def otherRelativeTag : UInt8 := 0x0D

/-- The largest arc. -/
def maxArc : Nat := 0x0FFFFFFF

/-- A relative identifier starts with a period. -/
def isRelative (text : String) : Bool := text.toList.head? = some '.'

/-! ## Arcs as text -/

/-- The runs between periods. -/
def splitArcs : List Char → List (List Char)
  | [] => [[]]
  | c :: rest =>
    if c = '.' then [] :: splitArcs rest
    else match splitArcs rest with
      | [] => [[c]]
      | run :: runs => (c :: run) :: runs

/-- The number of a run of digits. -/
def ofDigits? : List Char → Option Nat
  | [] => none
  | digits => digits.foldl (fun acc c => do
      let n ← acc
      if c.isDigit then some (n * 10 + (c.toNat - 48)) else none) (some 0)

/-- The number an arc stands for: decimal digits, a plus sign may come first, below `2 ^ 32`. -/
def parseArc? (run : List Char) : Option Nat := do
  let digits := match run with
    | '+' :: rest => rest
    | _ => run
  let n ← ofDigits? digits
  if n < 0x100000000 then some n else none

/-! ## Arcs as bytes -/

/-- The bytes of one arc: seven bits a byte, most significant first, the top bit set on all but
the last. -/
def arcBytes (n : Nat) : Bytes :=
  (if n ≥ 0x200000 then [UInt8.ofNat (n >>> 21) ||| 0x80] else []) ++
  (if n ≥ 0x4000 then [UInt8.ofNat (n >>> 14) ||| 0x80] else []) ++
  (if n ≥ 0x80 then [UInt8.ofNat (n >>> 7) ||| 0x80] else []) ++
  [UInt8.ofNat (n % 128)]

/-- The bytes of the arcs that have a byte or more of their own. -/
def arcsBytes? (runs : List (List Char)) : Option Bytes := do
  let parts ← runs.mapM fun run => do
    let n ← parseArc? run
    if n ≤ maxArc then some (arcBytes n) else none
  return parts.flatten

/-- The bytes of an identifier, without tag and length. -/
def encode? (text : String) : Option Bytes :=
  if text.utf8ByteSize < 2 ∨ text.utf8ByteSize > 128 then none
  else match text.toList with
    | '.' :: rest => arcsBytes? (splitArcs rest)
    | chars =>
      match splitArcs chars with
      | first :: second :: runs => do
        let a ← parseArc? first
        let b ← parseArc? second
        if a > 2 ∨ b > 39 then none
        else return UInt8.ofNat (a * 40 + b) :: (← arcsBytes? runs)
      | _ => none

/-- The bytes of an identifier, without tag and length. -/
def encode (text : String) : Except Fault Bytes :=
  match encode? text with
  | some bytes => .ok bytes
  | none => .error (.invalidData (.badIdentifier text))

/-- The arcs that end within `bytes`, when `number` was read of the one at hand. A number keeps
its low 32 bits. -/
def arcsOf (number : Nat) : Bytes → List Nat
  | [] => []
  | b :: rest =>
    let n := (number * 128 + b.toNat % 128) % 0x100000000
    if b < 0x80 then n :: arcsOf 0 rest else arcsOf n rest

/-- An arc as text, after its period. -/
def arcText (n : Nat) : List Char := '.' :: (toString n).toList

/-- The text of an identifier. What follows the last whole arc is dropped. -/
def decode (bytes : Bytes) (relative : Bool) : Except Fault String :=
  match bytes with
  | [] => .error (.invalidData .emptyIdentifier)
  | b :: rest =>
    if relative then .ok (String.ofList ((arcsOf 0 bytes).flatMap arcText))
    else
      let first := min (b.toNat / 40) 2
      .ok (String.ofList ((toString first).toList ++ arcText (b.toNat - first * 40) ++
        (arcsOf 0 rest).flatMap arcText))

/-- An element that holds an identifier: tag, length, kind of identifier, length, identifier. -/
def tagged (tag : UInt8) (text : String) : Except Fault Bytes := do
  let bytes ← encode text
  return [tag, UInt8.ofNat (bytes.length + 2),
    if isRelative text then relativeTag else absoluteTag, UInt8.ofNat bytes.length] ++ bytes

end Metering.Uid
