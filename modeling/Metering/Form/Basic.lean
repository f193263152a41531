import Metering.Bytes
import Metering.Time
set_option autoImplicit false

/-! # Stored forms

Settings are stored as forms: values made of numbers, texts, lists and named fields. A `Codec` writes
a value as a form and reads it back; reading refuses what writing could not have meant. A structure is
read by the names of its fields, and unknown names are passed over, or as the list of its fields in
order (`RecordCodec`). -/

namespace Metering

/-- A stored value. -/
inductive Form where
  | null
  | boolean (b : Bool)
  | number (n : Int)
  /-- A number that is not whole. -/
  | fraction
  | text (s : String)
  | list (items : List Form)
  | record (fields : List (String × Form))
  deriving Inhabited

/-- How values are written as forms and read back. -/
structure Codec (α : Type) where
  toForm : α → Form
  ofForm? : Form → Option α

namespace Codec

variable {α : Type}

/-- Whole numbers below a bound. -/
def below (bound : Nat) : Codec Nat where
  toForm n := .number n
  ofForm?
    | .number (.ofNat n) => if n < bound then some n else none
    | _ => none

/-- A codec for other names of the same values. -/
def through {β : Type} (c : Codec α) (f : β → α) (g : α → β) : Codec β where
  toForm b := c.toForm (f b)
  ofForm? form := (c.ofForm? form).map g

/-- Numbers of one byte. -/
def byte : Codec UInt8 := (below 0x100).through UInt8.toNat UInt8.ofNat

/-- Numbers of two bytes. -/
def word : Codec UInt16 := (below 0x10000).through UInt16.toNat UInt16.ofNat

/-- Numbers of four bytes. -/
def longWord : Codec UInt32 := (below 0x100000000).through UInt32.toNat UInt32.ofNat

/-- Truth values. -/
def boolean : Codec Bool where
  toForm := .boolean
  ofForm?
    | .boolean b => some b
    | _ => none

/-- Texts. -/
def text : Codec String where
  toForm := .text
  ofForm?
    | .text s => some s
    | _ => none

/-- Lists of values. -/
def list (c : Codec α) : Codec (List α) where
  toForm l := .list (l.map c.toForm)
  ofForm?
    | .list items => items.mapM c.ofForm?
    | _ => none

/-- Runs of bytes. -/
def bytes : Codec Bytes := byte.list

/-- Values that may be missing. -/
def option (c : Codec α) : Codec (Option α) where
  toForm
    | none => .null
    | some a => c.toForm a
  ofForm?
    | .null => some none
    | form => (c.ofForm? form).map some

/-- The name that a form stands for: a text, or one field of that name with nothing in it. -/
def name? : Form → Option String
  | .text s => some s
  | .record [(s, .null)] => some s
  | _ => none

/-- Values known by their names. -/
def named (all : List α) (name : α → String) : Codec α where
  toForm a := .text (name a)
  ofForm? form := do
    let s ← name? form
    all.find? fun a => name a == s

/-- Durations of whole seconds and nanoseconds. A second is carried where there are too many
nanoseconds; nothing else may stand with them. -/
def duration : Codec Duration where
  toForm d := .record [("secs", .number (d / 1000000000 : Nat)), ("nanos", .number (d % 1000000000 : Nat))]
  ofForm? form := do
    let (secs, nanos) ← match form with
      | .record fields =>
        if fields.length = 2 then some (← fields.lookup "secs", ← fields.lookup "nanos") else none
      | .list [secs, nanos] => some (secs, nanos)
      | _ => none
    let d := Duration.ofSeconds (← (below 0x10000000000000000).ofForm? secs) + (← (below 0x100000000).ofForm? nanos)
    if d < Duration.ofSeconds 0x10000000000000000 then some d else none

end Codec

/-! ## Structures -/

/-- One field of a structure. -/
structure FieldCodec (σ : Type) where
  name : String
  toForm : σ → Form
  /-- The structure with the field as read. -/
  read : Form → σ → Option σ
  /-- The field need not be named. -/
  mayMiss : Bool := false

namespace FieldCodec

variable {σ α : Type}

/-- A field with a codec. -/
def of (name : String) (c : Codec α) (get : σ → α) (set : α → σ → σ) : FieldCodec σ where
  name := name
  toForm s := c.toForm (get s)
  read form s := (c.ofForm? form).map fun a => set a s

/-- A field whose value may be missing; then its name may be missing too. -/
def optional (name : String) (c : Codec α) (get : σ → Option α) (set : Option α → σ → σ) :
    FieldCodec σ :=
  { of name c.option get set with mayMiss := true }

end FieldCodec

/-- How a structure is written and read. -/
structure RecordCodec (σ : Type) where
  fields : List (FieldCodec σ)
  /-- What the fields are read into. -/
  blank : σ
  /-- Fields that are not given stay as they are in `blank`. -/
  lenient : Bool := false

namespace RecordCodec

variable {σ : Type}

/-- Reads the named fields. -/
def ofEntries? (r : RecordCodec σ) (entries : List (String × Form)) : Option σ :=
  r.fields.foldlM (fun s f =>
    match entries.lookup f.name with
    | some form => f.read form s
    | none => if r.lenient || f.mayMiss then some s else none) r.blank

/-- Reads the fields in their order. -/
def ofItems? (r : RecordCodec σ) (items : List Form) : Option σ :=
  if items.length > r.fields.length then none
  else if items.length < r.fields.length ∧ !r.lenient then none
  else (r.fields.zip items).foldlM (fun s (f, form) => f.read form s) r.blank

/-- The codec of the structure. -/
def codec (r : RecordCodec σ) : Codec σ where
  toForm s := .record (r.fields.map fun f => (f.name, f.toForm s))
  ofForm?
    | .record entries => r.ofEntries? entries
    | .list items => r.ofItems? items
    | _ => none

end RecordCodec

end Metering
