import Mathlib.Tactic.SplitIfs
import Metering.Proofs.Reader

set_option autoImplicit false

/-! # Identifiers read back

A text is in canonical form if its arcs are written in decimal, as a number is printed, with periods
between them (`Uid.spell`). The encoder goes by the arcs that a text stands for, so it takes other spellings
too, with zeros or a plus sign in front of an arc (`Uid.encode_eq_ok_iff`). What is decoded is in canonical
form, and a text in that form that can be encoded comes back (`Uid.decode_encode`). So bytes and texts in
canonical form determine each other, and the elements that hold identifiers can be told from whatever
follows them. -/

namespace Metering

namespace Uid

variable {relative : Bool} {text : String} {arcs : List Nat} {bytes : Bytes}

/-- The decimal digits of an arc. -/
def digits (n : Nat) : List Char := (toString n).toList

/-- Arcs in decimal with periods between; a first arc without a period in front makes the identifier
absolute. The empty text has no arcs. -/
def Canonical (text : String) : Prop :=
  ∃ (first : Option Nat) (arcs : List Nat),
    text.toList = first.toList.flatMap digits ++ arcs.flatMap arcText

/-! ## Digits -/

theorem digits_eq (n : Nat) : digits n = Nat.toDigits 10 n := by
  rw [digits, Nat.toString_eq_ofList_toDigits, String.toList_ofList]

theorem arcText_eq (n : Nat) : arcText n = '.' :: digits n := rfl

theorem isDigit_of_mem_digits {n : Nat} {c : Char} (h : c ∈ digits n) : c.isDigit = true := by
  rw [digits_eq] at h
  exact Nat.isDigit_of_mem_toDigits (by decide) (by decide) h

theorem ne_of_mem_digits {n : Nat} {c d : Char} (hd : d.isDigit = false) (h : c ∈ digits n) : c ≠ d := by
  rintro rfl
  simp [isDigit_of_mem_digits h] at hd

theorem digits_eq_cons (n : Nat) : ∃ c rest, digits n = c :: rest := by
  cases h : digits n with
  | nil => exact absurd (digits_eq n ▸ h) Nat.toDigits_ne_nil
  | cons c rest => exact ⟨c, rest, rfl⟩

theorem ofDigits?_eq {run : List Char} (h : ∀ c ∈ run, c.isDigit = true) (hne : run ≠ []) :
    ofDigits? run = some (Nat.ofDigitChars 10 run 0) := by
  have fold (run : List Char) (h : ∀ c ∈ run, c.isDigit = true) (n : Nat) :
      run.foldl (fun acc c => do
          let n ← acc
          if c.isDigit then some (n * 10 + (c.toNat - 48)) else none) (some n) =
        some (Nat.ofDigitChars 10 run n) := by
    induction run generalizing n with
    | nil => rfl
    | cons c rest ih =>
      have hc := h c List.mem_cons_self
      have step : Nat.ofDigitChars 10 (c :: rest) n = Nat.ofDigitChars 10 rest (n * 10 + (c.toNat - 48)) := by
        rw [Nat.mul_comm]
        rfl
      rw [step, ← ih (fun d hd => h d (List.mem_cons_of_mem c hd))]
      simp [hc]
  cases run with
  | nil => exact absurd rfl hne
  | cons c rest => exact fold (c :: rest) h 0

theorem parseArc?_digits (n : Nat) : parseArc? (digits n) = if n < 0x100000000 then some n else none := by
  obtain ⟨c, rest, h⟩ := digits_eq_cons n
  have plus : c ≠ '+' := ne_of_mem_digits rfl (h ▸ List.mem_cons_self)
  have value : ofDigits? (digits n) = some n := by
    rw [ofDigits?_eq (fun _ => isDigit_of_mem_digits) (by simp [h]), digits_eq, Nat.ofDigitChars_ten_toDigits]
  unfold parseArc?
  split
  next heq =>
    rw [h] at heq
    exact absurd (List.cons.inj heq).1 plus
  next => simp [value]

theorem isDigit_of_ofDigits? {run : List Char} {n : Nat} (h : ofDigits? run = some n) :
    run ≠ [] ∧ ∀ c ∈ run, c.isDigit = true := by
  have stuck (run : List Char) : run.foldl (fun acc c => do
      let n ← acc
      if c.isDigit then some (n * 10 + (c.toNat - 48)) else none) (none : Option Nat) = none := by
    induction run with
    | nil => rfl
    | cons c rest ih => exact ih
  have fold (run : List Char) (m : Nat) (h : run.foldl (fun acc c => do
      let n ← acc
      if c.isDigit then some (n * 10 + (c.toNat - 48)) else none) (some m) = some n) :
      ∀ c ∈ run, c.isDigit = true := by
    induction run generalizing m with
    | nil => simp
    | cons c rest ih =>
      rw [List.foldl_cons, Option.bind_eq_bind, Option.bind_some] at h
      split at h
      next digit => exact List.forall_mem_cons.2 ⟨digit, ih _ h⟩
      next => exact absurd ((stuck rest).symm.trans h) (by simp)
  cases run with
  | nil => cases h
  | cons c rest => exact ⟨List.cons_ne_nil c rest, fold (c :: rest) 0 h⟩

theorem ofDigitChars_lt {run : List Char} (h : ∀ c ∈ run, c.isDigit = true) (m : Nat) :
    Nat.ofDigitChars 10 run m < (m + 1) * 10 ^ run.length := by
  induction run generalizing m with
  | nil => simp
  | cons c rest ih =>
    have digit : c.toNat - '0'.toNat ≤ 9 := by
      have first := h c List.mem_cons_self
      simp only [Char.isDigit, Bool.and_eq_true, decide_eq_true_eq] at first
      have low : c.toNat ≤ '9'.toNat := UInt32.le_iff_toNat_le.1 first.2
      exact Nat.sub_le_sub_right low _
    rw [Nat.ofDigitChars_cons]
    calc Nat.ofDigitChars 10 rest (10 * m + (c.toNat - '0'.toNat))
      _ < (10 * m + (c.toNat - '0'.toNat) + 1) * 10 ^ rest.length :=
        ih (fun d hd => h d (List.mem_cons_of_mem c hd)) _
      _ ≤ ((m + 1) * 10) * 10 ^ rest.length := Nat.mul_le_mul_right _ (by omega)
      _ = (m + 1) * 10 ^ (c :: rest).length := by rw [List.length_cons, Nat.pow_succ', Nat.mul_assoc]

/-- A number has no more digits than any run of digits that stands for it. -/
theorem length_digits_le {run : List Char} {n : Nat} (h : ofDigits? run = some n) :
    (digits n).length ≤ run.length := by
  obtain ⟨some, all⟩ := isDigit_of_ofDigits? h
  have bound := ofDigitChars_lt all 0
  have value := ofDigits?_eq all some
  rw [h] at value
  rw [← Option.some.inj value, Nat.zero_add, Nat.one_mul] at bound
  rw [digits_eq]
  exact (Nat.length_toDigits_le_iff (by decide) (List.length_pos_iff.2 some)).2 bound

theorem parseArc?_ok {run : List Char} {n : Nat} (h : parseArc? run = some n) :
    n < 0x100000000 ∧ (digits n).length ≤ run.length := by
  unfold parseArc? at h
  obtain ⟨m, hm, h⟩ := Option.bind_eq_some_iff.1 h
  split at h
  next small =>
    obtain rfl := Option.some.inj h
    refine ⟨small, ?_⟩
    split at hm
    · exact Nat.le_succ_of_le (length_digits_le hm)
    · exact length_digits_le hm
  next => cases h

/-! ## Runs between periods -/

theorem splitArcs_append {run : List Char} (h : ∀ c ∈ run, c ≠ '.') (rest : List Char) :
    splitArcs (run ++ '.' :: rest) = run :: splitArcs rest := by
  induction run with
  | nil => simp [splitArcs]
  | cons c run ih =>
    have hc : c ≠ '.' := h c List.mem_cons_self
    rw [List.cons_append, splitArcs, if_neg hc, ih fun d hd => h d (List.mem_cons_of_mem c hd)]

theorem splitArcs_run {run : List Char} (h : ∀ c ∈ run, c ≠ '.') : splitArcs run = [run] := by
  induction run with
  | nil => rfl
  | cons c run ih =>
    have hc : c ≠ '.' := h c List.mem_cons_self
    rw [splitArcs, if_neg hc, ih fun d hd => h d (List.mem_cons_of_mem c hd)]

theorem splitArcs_digits (n : Nat) (arcs : List Nat) :
    splitArcs (digits n ++ arcs.flatMap arcText) = digits n :: arcs.map digits := by
  have plain (n : Nat) : ∀ c ∈ digits n, c ≠ '.' := fun c hc => ne_of_mem_digits rfl hc
  induction arcs generalizing n with
  | nil => rw [List.flatMap_nil, List.append_nil, splitArcs_run (plain n), List.map_nil]
  | cons m arcs ih =>
    rw [List.flatMap_cons, arcText_eq, List.cons_append, splitArcs_append (plain n), ih, List.map_cons]

theorem isRelative_iff {text : String} : isRelative text = true ↔ ∃ rest, text.toList = '.' :: rest := by
  unfold isRelative
  cases text.toList with
  | nil => simp
  | cons c rest => simp

/-! ## Spellings -/

/-- The arcs that a text stands for, if what stands between its periods are numbers. -/
def arcs? (text : String) : Option (List Nat) :=
  (splitArcs (if isRelative text then text.toList.tail else text.toList)).mapM parseArc?

/-- Arcs in canonical form. -/
def spell (relative : Bool) (arcs : List Nat) : String :=
  String.ofList (if relative then arcs.flatMap arcText else (arcs.flatMap arcText).tail)

theorem toList_spell_relative (arcs : List Nat) : (spell true arcs).toList = arcs.flatMap arcText :=
  String.toList_ofList

theorem toList_spell_absolute (n : Nat) (arcs : List Nat) :
    (spell false (n :: arcs)).toList = digits n ++ arcs.flatMap arcText := by
  rw [spell, if_neg Bool.false_ne_true, String.toList_ofList, List.flatMap_cons, arcText_eq]
  rfl

theorem canonical_empty : Canonical "" := ⟨none, [], rfl⟩

theorem canonical_spell (relative : Bool) (arcs : List Nat) : Canonical (spell relative arcs) := by
  cases relative with
  | true => exact ⟨none, arcs, by simp [toList_spell_relative]⟩
  | false =>
    cases arcs with
    | nil => exact canonical_empty
    | cons n arcs => exact ⟨some n, arcs, by simp [toList_spell_absolute]⟩

theorem isRelative_spell (n : Nat) (arcs : List Nat) : isRelative (spell relative (n :: arcs)) = relative := by
  unfold isRelative
  cases relative with
  | true => simp [toList_spell_relative, arcText_eq]
  | false =>
    obtain ⟨c, rest, hc⟩ := digits_eq_cons n
    have plain : c ≠ '.' := ne_of_mem_digits rfl (hc ▸ List.mem_cons_self)
    simpa [toList_spell_absolute, hc] using plain

theorem mapM_cons_eq_some_iff {run : List Char} {runs : List (List Char)} :
    (run :: runs).mapM parseArc? = some arcs ↔
      ∃ n rest, parseArc? run = some n ∧ runs.mapM parseArc? = some rest ∧ arcs = n :: rest := by
  simp only [List.mapM_cons, Option.bind_eq_bind, Option.bind_eq_some_iff, Option.pure_def, Option.some.injEq]
  constructor
  · rintro ⟨n, hn, rest, hrest, rfl⟩
    exact ⟨n, rest, hn, hrest, rfl⟩
  · rintro ⟨n, rest, hn, hrest, rfl⟩
    exact ⟨n, hn, rest, hrest, rfl⟩

theorem mapM_digits_eq_some_iff {arcs' : List Nat} :
    (arcs.map digits).mapM parseArc? = some arcs' ↔ arcs' = arcs ∧ ∀ n ∈ arcs, n < 0x100000000 := by
  induction arcs generalizing arcs' with
  | nil => simp [eq_comm]
  | cons n arcs ih =>
    rw [List.map_cons, mapM_cons_eq_some_iff, List.forall_mem_cons]
    constructor
    · rintro ⟨m, rest, hm, hrest, rfl⟩
      rw [parseArc?_digits] at hm
      obtain ⟨rfl, small⟩ := ih.1 hrest
      split at hm
      next low => exact ⟨by rw [Option.some.inj hm], low, small⟩
      next => cases hm
    · rintro ⟨rfl, low, small⟩
      exact ⟨n, arcs, by rw [parseArc?_digits, if_pos low], ih.2 ⟨rfl, small⟩, rfl⟩

theorem arcs?_spell (n : Nat) (arcs : List Nat) :
    arcs? (spell relative (n :: arcs)) = ((n :: arcs).map digits).mapM parseArc? := by
  have runs : splitArcs (if relative then (spell relative (n :: arcs)).toList.tail
      else (spell relative (n :: arcs)).toList) = (n :: arcs).map digits := by
    rw [List.map_cons, ← splitArcs_digits]
    cases relative with
    | true => rw [if_pos rfl, toList_spell_relative, List.flatMap_cons, arcText_eq]; rfl
    | false => rw [if_neg Bool.false_ne_true, toList_spell_absolute]
  rw [arcs?, isRelative_spell, runs]

/-- A text in canonical form is the canonical spelling of what it stands for. -/
theorem eq_spell (canonical : Canonical text) (h : arcs? text = some arcs) : text = spell (isRelative text) arcs := by
  have spelled : text = "" ∨ ∃ relative n arcs, text = spell relative (n :: arcs) := by
    obtain ⟨first, arcs, htext⟩ := canonical
    cases first with
    | some n => exact .inr ⟨false, n, arcs, String.toList_inj.1 (by simp [htext, toList_spell_absolute])⟩
    | none =>
      cases arcs with
      | nil => exact .inl (String.toList_eq_nil_iff.1 htext)
      | cons n arcs => exact .inr ⟨true, n, arcs, String.toList_inj.1 (by simp [htext, toList_spell_relative])⟩
  rcases spelled with rfl | ⟨relative, n, more, rfl⟩
  · cases h
  · rw [arcs?_spell] at h
    obtain ⟨rfl, -⟩ := mapM_digits_eq_some_iff.1 h
    rw [isRelative_spell]

/-- The canonical spelling is the shortest. -/
theorem length_flatMap_arcText_le {chars : List Char} {arcs : List Nat}
    (h : (splitArcs chars).mapM parseArc? = some arcs) : (arcs.flatMap arcText).length ≤ chars.length + 1 := by
  have parts (runs : List (List Char)) {arcs : List Nat} (h : runs.mapM parseArc? = some arcs) :
      (arcs.flatMap arcText).length ≤ (runs.map fun run => run.length + 1).sum := by
    induction runs generalizing arcs with
    | nil =>
      obtain rfl : [] = arcs := by simpa using h
      exact Nat.le_refl _
    | cons run runs ih =>
      obtain ⟨n, rest, hn, hrest, rfl⟩ := mapM_cons_eq_some_iff.1 h
      rw [List.flatMap_cons, List.length_append, arcText_eq, List.length_cons, List.map_cons, List.sum_cons]
      exact Nat.add_le_add (Nat.succ_le_succ (parseArc?_ok hn).2) (ih hrest)
  have whole (chars : List Char) : ((splitArcs chars).map fun run => run.length + 1).sum = chars.length + 1 := by
    induction chars with
    | nil => rfl
    | cons c rest ih =>
      unfold splitArcs
      split
      · rw [List.map_cons, List.sum_cons, ih, List.length_nil, List.length_cons, Nat.add_comm]
      · cases hs : splitArcs rest with
        | nil => rw [hs] at ih; cases ih
        | cons run runs =>
          rw [hs, List.map_cons, List.sum_cons] at ih
          simp only [List.map_cons, List.sum_cons, List.length_cons]
          omega
  exact Nat.le_trans (parts _ h) (Nat.le_of_eq (whole chars))

theorem length_le_utf8ByteSize (text : String) : text.toList.length ≤ text.utf8ByteSize := by
  have size (chars : List Char) : chars.length ≤ (String.ofList chars).utf8ByteSize := by
    induction chars with
    | nil => simp
    | cons c rest ih =>
      have one := c.utf8Size_pos
      have front : String.ofList (c :: rest) = String.singleton c ++ String.ofList rest :=
        String.toList_inj.1 (by simp)
      rw [front, String.utf8ByteSize_append, String.utf8ByteSize_singleton, List.length_cons]
      omega
  have := size text.toList
  rwa [String.ofList_toList] at this

/-! ## Arcs in bytes -/

theorem toNat_or_high (b : UInt8) : (b ||| 0x80).toNat = b.toNat % 128 + 128 := by
  have table : ∀ i < 256, i ||| 128 = i % 128 + 128 := by decide +kernel
  rw [UInt8.toNat_or]
  exact table _ b.toNat_lt

theorem arcsOf_high (number x : Nat) (rest : Bytes) :
    arcsOf number ((UInt8.ofNat x ||| 0x80) :: rest) =
      arcsOf ((number * 128 + x % 128) % 0x100000000) rest := by
  have value : (UInt8.ofNat x ||| 0x80).toNat = x % 128 + 128 := by
    rw [toNat_or_high, UInt8.toNat_ofNat']
    omega
  have high : ¬ (UInt8.ofNat x ||| 0x80) < 0x80 := by
    rw [UInt8.lt_iff_toNat_lt, value]
    simp
  have low : (x % 128 + 128) % 128 = x % 128 := by omega
  rw [arcsOf, if_neg high, value, low]

theorem arcsOf_last (number x : Nat) (rest : Bytes) :
    arcsOf number (UInt8.ofNat (x % 128) :: rest) =
      (number * 128 + x % 128) % 0x100000000 :: arcsOf 0 rest := by
  have value : (UInt8.ofNat (x % 128)).toNat = x % 128 := by
    rw [UInt8.toNat_ofNat']
    omega
  have low : UInt8.ofNat (x % 128) < 0x80 := by
    rw [UInt8.lt_iff_toNat_lt, value]
    exact Nat.mod_lt _ (by decide)
  have small : x % 128 % 128 = x % 128 := by omega
  rw [arcsOf, if_pos low, value, small]

/-- An arc is read back from its bytes. -/
theorem arcsOf_arcBytes {n : Nat} (h : n ≤ maxArc) (rest : Bytes) :
    arcsOf 0 (arcBytes n ++ rest) = n :: arcsOf 0 rest := by
  unfold maxArc at h
  unfold arcBytes
  simp only [Nat.shiftRight_eq_div_pow]
  -- one case for each number of bytes; a larger arc has all the bytes of a smaller one
  split
  · simp only [if_pos (show n ≥ 0x4000 by omega), if_pos (show n ≥ 0x80 by omega), List.cons_append,
      List.nil_append, arcsOf_high, arcsOf_last]
    congr 1
    omega
  split
  · simp only [if_pos (show n ≥ 0x80 by omega), List.cons_append, List.nil_append, arcsOf_high, arcsOf_last]
    congr 1
    omega
  split
  · simp only [List.cons_append, List.nil_append, arcsOf_high, arcsOf_last]
    congr 1
    omega
  · simp only [List.cons_append, List.nil_append, arcsOf_last]
    congr 1
    omega

theorem arcsOf_flatMap {arcs : List Nat} (h : ∀ n ∈ arcs, n ≤ maxArc) :
    arcsOf 0 (arcs.flatMap arcBytes) = arcs := by
  induction arcs with
  | nil => rfl
  | cons n arcs ih =>
    rw [List.flatMap_cons, arcsOf_arcBytes (h n List.mem_cons_self),
      ih fun m hm => h m (List.mem_cons_of_mem n hm)]

/-- Two bytes of an arc need four characters, period included. -/
theorem length_arcBytes_le (n : Nat) : 2 * (arcBytes n).length ≤ (arcText n).length := by
  have one := Nat.length_toDigits_le_iff (b := 10) (n := n) (k := 2) (by decide) (by decide)
  have two := Nat.length_toDigits_le_iff (b := 10) (n := n) (k := 4) (by decide) (by decide)
  have three := Nat.length_toDigits_le_iff (b := 10) (n := n) (k := 6) (by decide) (by decide)
  have some := Nat.length_toDigits_pos (b := 10) (n := n)
  rw [arcText_eq, digits_eq, List.length_cons]
  unfold arcBytes
  simp only [List.length_append, List.length_cons, List.length_nil]
  split_ifs <;> simp only [List.length_cons, List.length_nil] <;> omega

theorem length_flatMap_arcBytes_le (arcs : List Nat) :
    2 * (arcs.flatMap arcBytes).length ≤ (arcs.flatMap arcText).length := by
  induction arcs with
  | nil => simp
  | cons n arcs ih =>
    have := length_arcBytes_le n
    simp only [List.flatMap_cons, List.length_append]
    omega

/-! ## Encoding -/

theorem arcsBytes?_eq_some_iff {runs : List (List Char)} :
    arcsBytes? runs = some bytes ↔
      ∃ arcs, runs.mapM parseArc? = some arcs ∧ (∀ n ∈ arcs, n ≤ maxArc) ∧ bytes = arcs.flatMap arcBytes := by
  induction runs generalizing bytes with
  | nil =>
    constructor
    · intro h
      exact ⟨[], rfl, by simp, (Option.some.inj h).symm⟩
    · rintro ⟨arcs, h, -, rfl⟩
      obtain rfl : [] = arcs := Option.some.inj h
      rfl
  | cons run runs ih =>
    have parts : arcsBytes? (run :: runs) = some bytes ↔
        ∃ n rest, parseArc? run = some n ∧ n ≤ maxArc ∧ arcsBytes? runs = some rest ∧ bytes = arcBytes n ++ rest := by
      simp only [arcsBytes?, List.mapM_cons, Option.bind_eq_bind, Option.bind_eq_some_iff, Option.pure_def,
        Option.some.injEq]
      constructor
      · rintro ⟨_, ⟨_, ⟨n, hn, part⟩, more, hmore, rfl⟩, rfl⟩
        split at part
        next low => exact ⟨n, _, hn, low, ⟨more, hmore, rfl⟩, by rw [List.flatten_cons, ← Option.some.inj part]⟩
        next => cases part
      · rintro ⟨n, rest, hn, low, ⟨more, hmore, rfl⟩, rfl⟩
        exact ⟨_, ⟨arcBytes n, ⟨n, hn, if_pos low⟩, more, hmore, rfl⟩, List.flatten_cons⟩
    rw [parts]
    constructor
    · rintro ⟨n, rest, hn, low, hrest, rfl⟩
      obtain ⟨arcs, harcs, bounded, rfl⟩ := ih.1 hrest
      exact ⟨n :: arcs, mapM_cons_eq_some_iff.2 ⟨n, arcs, hn, harcs, rfl⟩, List.forall_mem_cons.2 ⟨low, bounded⟩,
        List.flatMap_cons.symm⟩
    · rintro ⟨arcs, h, bounded, rfl⟩
      obtain ⟨n, rest, hn, hrest, rfl⟩ := mapM_cons_eq_some_iff.1 h
      obtain ⟨low, bounded⟩ := List.forall_mem_cons.1 bounded
      exact ⟨n, _, hn, low, ih.2 ⟨rest, hrest, bounded, rfl⟩, List.flatMap_cons⟩

/-- The bytes of arcs. The first two of an absolute identifier share one. -/
inductive Encodes : Bool → List Nat → Bytes → Prop where
  | relative {n : Nat} {arcs : List Nat} (bounded : ∀ m ∈ n :: arcs, m ≤ maxArc) :
      Encodes true (n :: arcs) ((n :: arcs).flatMap arcBytes)
  | absolute {a b : Nat} {arcs : List Nat} (first : a ≤ 2) (second : b ≤ 39) (bounded : ∀ m ∈ arcs, m ≤ maxArc) :
      Encodes false (a :: b :: arcs) (UInt8.ofNat (a * 40 + b) :: arcs.flatMap arcBytes)

theorem splitArcs_ne_nil (chars : List Char) : splitArcs chars ≠ [] := by
  cases chars with
  | nil => exact List.cons_ne_nil _ _
  | cons c rest =>
    unfold splitArcs
    split
    · exact List.cons_ne_nil _ _
    · split
      · exact List.cons_ne_nil _ _
      · exact List.cons_ne_nil _ _

theorem encodes_relative_iff {runs : List (List Char)} (some : runs ≠ []) :
    arcsBytes? runs = .some bytes ↔ ∃ arcs, runs.mapM parseArc? = .some arcs ∧ Encodes true arcs bytes := by
  obtain ⟨run, runs, rfl⟩ := List.exists_cons_of_ne_nil some
  rw [arcsBytes?_eq_some_iff]
  refine exists_congr fun arcs => and_congr_right fun harcs => ?_
  obtain ⟨n, rest, -, -, rfl⟩ := mapM_cons_eq_some_iff.1 harcs
  constructor
  · rintro ⟨bounded, rfl⟩
    exact .relative bounded
  · rintro ⟨bounded⟩
    exact ⟨bounded, rfl⟩

theorem encodes_absolute_iff {runs : List (List Char)} :
    (match runs with
      | first :: second :: runs => do
        let a ← parseArc? first
        let b ← parseArc? second
        if a > 2 ∨ b > 39 then none
        else return UInt8.ofNat (a * 40 + b) :: (← arcsBytes? runs)
      | _ => none) = some bytes ↔
      ∃ arcs, runs.mapM parseArc? = some arcs ∧ Encodes false arcs bytes := by
  constructor
  · intro h
    split at h
    next first second runs =>
      obtain ⟨a, ha, h⟩ := Option.bind_eq_some_iff.1 h
      obtain ⟨b, hb, h⟩ := Option.bind_eq_some_iff.1 h
      split at h
      · cases h
      next low =>
        obtain ⟨more, hmore, h⟩ := Option.bind_eq_some_iff.1 h
        obtain rfl := Option.some.inj h
        obtain ⟨arcs, harcs, bounded, rfl⟩ := arcsBytes?_eq_some_iff.1 hmore
        have behind := mapM_cons_eq_some_iff.2 ⟨b, arcs, hb, harcs, rfl⟩
        exact ⟨a :: b :: arcs, mapM_cons_eq_some_iff.2 ⟨a, _, ha, behind, rfl⟩, .absolute (by omega) (by omega) bounded⟩
    next => cases h
  · rintro ⟨arcs, harcs, made⟩
    cases made with
    | @absolute a b arcs first second bounded =>
      cases runs with
      | nil => cases harcs
      | cons run runs =>
        obtain ⟨_, _, ha, hrest, same⟩ := mapM_cons_eq_some_iff.1 harcs
        obtain ⟨rfl, rfl⟩ := List.cons.inj same
        cases runs with
        | nil => cases hrest
        | cons run' runs =>
          obtain ⟨_, _, hb, hmore, same⟩ := mapM_cons_eq_some_iff.1 hrest
          obtain ⟨rfl, rfl⟩ := List.cons.inj same
          have low : ¬ (a > 2 ∨ b > 39) := by omega
          simp [ha, hb, low, arcsBytes?_eq_some_iff.2 ⟨_, hmore, bounded, rfl⟩]

/-- **The encoder** goes by the arcs that a text stands for, whatever its spelling. -/
theorem encode_eq_ok_iff :
    encode text = .ok bytes ↔ (2 ≤ text.utf8ByteSize ∧ text.utf8ByteSize ≤ 128) ∧
      ∃ arcs, arcs? text = some arcs ∧ Encodes (isRelative text) arcs bytes := by
  have known : encode text = .ok bytes ↔ encode? text = some bytes := by
    unfold encode
    cases encode? text <;> simp
  rw [known]
  unfold encode?
  by_cases size : text.utf8ByteSize < 2 ∨ text.utf8ByteSize > 128
  · rw [if_pos size]
    constructor
    · intro h
      cases h
    · rintro ⟨⟨least, most⟩, -⟩
      omega
  rw [if_neg size, and_iff_right (by omega)]
  split
  next rest chars =>
    have relative : isRelative text = true := isRelative_iff.2 ⟨rest, chars⟩
    rw [arcs?, relative, if_pos rfl, chars]
    exact encodes_relative_iff (splitArcs_ne_nil rest)
  next chars other =>
    have absolute : isRelative text = false := by
      rw [Bool.eq_false_iff]
      intro relative
      obtain ⟨rest, hrest⟩ := isRelative_iff.1 relative
      exact other rest hrest
    rw [arcs?, absolute, if_neg Bool.false_ne_true]
    exact encodes_absolute_iff

/-! ## Decoding -/

/-- **Arcs are read back** from their bytes, in canonical form. -/
theorem Encodes.decode (h : Encodes relative arcs bytes) : decode bytes relative = .ok (spell relative arcs) := by
  cases h with
  | @relative n arcs bounded =>
    have some : (n :: arcs).flatMap arcBytes ≠ [] := by simp [arcBytes]
    obtain ⟨x, rest, hx⟩ := List.exists_cons_of_ne_nil some
    rw [hx, Uid.decode, if_pos rfl, ← hx, arcsOf_flatMap bounded]
    rfl
  | @absolute a b arcs first second bounded =>
    have value : (UInt8.ofNat (a * 40 + b)).toNat = a * 40 + b := by
      rw [UInt8.toNat_ofNat']
      omega
    have front : min ((a * 40 + b) / 40) 2 = a := by omega
    have back : a * 40 + b - a * 40 = b := by omega
    rw [Uid.decode, if_neg Bool.false_ne_true]
    simp only [value, front, back, arcsOf_flatMap bounded]
    rw [List.append_assoc, ← List.flatMap_cons, ← digits, ← toList_spell_absolute, String.ofList_toList]

/-- **An identifier in canonical form is read back.** -/
theorem decode_encode (canonical : Canonical text) (h : encode text = .ok bytes) :
    decode bytes (isRelative text) = .ok text := by
  obtain ⟨-, arcs, harcs, made⟩ := encode_eq_ok_iff.1 h
  rw [made.decode, ← eq_spell canonical harcs]

theorem canonical_of_decode {bytes : Bytes} {relative : Bool} {text : String}
    (h : decode bytes relative = .ok text) : Canonical text := by
  unfold decode at h
  split at h
  · cases h
  next b rest =>
    split at h
    · obtain rfl := Except.ok.inj h
      exact ⟨none, arcsOf 0 (b :: rest), by simp⟩
    · obtain rfl := Except.ok.inj h
      exact ⟨some (min (b.toNat / 40) 2),
        (b.toNat - min (b.toNat / 40) 2 * 40) :: arcsOf 0 rest, by simp [digits]⟩

theorem length_spell_le (h : arcs? text = some arcs) :
    (spell (isRelative text) arcs).toList.length ≤ text.toList.length := by
  have short := length_flatMap_arcText_le h
  cases hr : isRelative text with
  | true =>
    obtain ⟨rest, hrest⟩ := isRelative_iff.1 hr
    rw [hr, if_pos rfl, hrest, List.tail_cons] at short
    rwa [toList_spell_relative, hrest, List.length_cons]
  | false =>
    rw [hr, if_neg Bool.false_ne_true] at short
    rw [spell, if_neg Bool.false_ne_true, String.toList_ofList, List.length_tail]
    omega

/-- The bytes of an identifier fit a length of one byte. -/
theorem length_encode_le (h : encode text = .ok bytes) : bytes.length ≤ 64 := by
  obtain ⟨⟨-, size⟩, arcs, harcs, made⟩ := encode_eq_ok_iff.1 h
  have chars := length_le_utf8ByteSize text
  have spelled := length_spell_le harcs
  generalize isRelative text = relative at made spelled
  cases made with
  | @relative n arcs =>
    have := length_flatMap_arcBytes_le (n :: arcs)
    rw [toList_spell_relative] at spelled
    omega
  | @absolute a b arcs =>
    have := length_flatMap_arcBytes_le arcs
    obtain ⟨c, rest, hc⟩ := digits_eq_cons a
    rw [toList_spell_absolute, hc, List.flatMap_cons, arcText_eq] at spelled
    simp only [List.length_append, List.length_cons] at spelled ⊢
    omega

end Uid

namespace Reader

/-- The kind of an identifier, as its element says it. -/
def uidKind (text : String) : UInt8 := if Uid.isRelative text then Uid.relativeTag else Uid.absoluteTag

/-- **An identifier is read back** from the value of its element. -/
theorem takes_uid {text : String} {bytes : Bytes} (canonical : Uid.Canonical text)
    (h : Uid.encode text = .ok bytes) :
    Takes uid ([uidKind text, UInt8.ofNat bytes.length] ++ bytes) text := by
  have short := Uid.length_encode_le h
  have kind : ¬ (uidKind text ≠ Uid.absoluteTag ∧ uidKind text ≠ Uid.relativeTag ∧
      uidKind text ≠ Uid.otherRelativeTag) := by
    unfold uidKind
    cases Uid.isRelative text <;> decide
  have relative : decide (uidKind text ≠ Uid.absoluteTag) = Uid.isRelative text := by
    unfold uidKind
    cases Uid.isRelative text <;> decide
  refine (takes_byte (uidKind text)).bind ?_
  rw [if_neg kind]
  refine (takes_length_short (n := bytes.length) (by omega)).bind ?_
  have read := (takes_take bytes).bind (f := fun bytes => Step.ofExcept (Uid.decode bytes (uidKind text ≠ Uid.absoluteTag)))
    (.ofExcept (by rw [relative]; exact Uid.decode_encode canonical h))
  rwa [List.append_nil] at read

end Reader

end Metering
