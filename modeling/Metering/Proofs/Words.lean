import Mathlib.Data.List.Infix
import Mathlib.Data.Option.Basic
import Mathlib.Data.List.TakeWhile
import Metering.Modem

set_option autoImplicit false

/-! # What modems print, and when it is understood

An answer of a modem comes in pieces, and it is understood as soon as some reply can be recognised in what has
come. What came before and was not understood is cut down to its last line. That cut is never noticed: no keyword
reaches across the end of a line, so the rest is recognised as the whole would be (`ModemReply.recognize?_window`).
The words that are printed beside a keyword are read off the same rest. They are those of the whole text if the text
is on one line and nothing but blanks is still to come (`Modem.onOneLine_window`, `Modem.announced?_window`). -/

namespace Metering

open Modem (endsLine trim lastLine onOneLine after? connectBaud?)

namespace ModemReply

/-! ## Keywords -/

/-- Words that stand on one line, without blanks at their ends. -/
structure IsWord (word : List Char) : Prop where
  head : ∃ c rest, word = c :: rest ∧ isBlank c = false
  last : ∃ front c, word = front ++ [c] ∧ isBlank c = false
  inline : ∀ c ∈ word, endsLine c = false

theorem inline_of_all {word : List Char} (h : (word.all fun c => !endsLine c) = true) : ∀ c ∈ word, endsLine c = false :=
  fun c mem => by simpa using List.all_eq_true.1 h c mem

theorem keyword_isWord (r : ModemReply) : IsWord r.keyword.toList := by
  cases r with
  | connect => exact ⟨⟨_, _, rfl, rfl⟩, ⟨"CONNEC".toList, 'T', rfl, rfl⟩, inline_of_all rfl⟩
  | noCarrier => exact ⟨⟨_, _, rfl, rfl⟩, ⟨"NO CARRIE".toList, 'R', rfl, rfl⟩, inline_of_all rfl⟩
  | error => exact ⟨⟨_, _, rfl, rfl⟩, ⟨"ERRO".toList, 'R', rfl, rfl⟩, inline_of_all rfl⟩
  | noDialTone => exact ⟨⟨_, _, rfl, rfl⟩, ⟨"NO DIA".toList, 'L', rfl, rfl⟩, inline_of_all rfl⟩
  | busy => exact ⟨⟨_, _, rfl, rfl⟩, ⟨"BUS".toList, 'Y', rfl, rfl⟩, inline_of_all rfl⟩
  | noAnswer => exact ⟨⟨_, _, rfl, rfl⟩, ⟨"NO ANSWE".toList, 'R', rfl, rfl⟩, inline_of_all rfl⟩
  | ok => exact ⟨⟨_, _, rfl, rfl⟩, ⟨['O'], 'K', rfl, rfl⟩, inline_of_all rfl⟩
  | ring => exact ⟨⟨_, _, rfl, rfl⟩, ⟨"RIN".toList, 'G', rfl, rfl⟩, inline_of_all rfl⟩

theorem mem_all (r : ModemReply) : r ∈ all := by cases r <;> decide

/-- The end of a line is a blank. -/
theorem isBlank_of_endsLine {c : Char} (ends : endsLine c = true) : isBlank c = true := by
  rw [endsLine, Bool.or_eq_true, decide_eq_true_iff, decide_eq_true_iff] at ends
  rcases ends with rfl | rfl
  · rfl
  · rfl

namespace IsWord

variable {word : List Char} {b e : Char}

theorem ne_nil (h : IsWord word) : word ≠ [] := by
  obtain ⟨c, rest, rfl, -⟩ := h.head
  exact List.cons_ne_nil c rest

theorem isPrefixOf_blank (h : IsWord word) (blank : isBlank b = true) (s : List Char) :
    word.isPrefixOf (b :: s) = false := by
  obtain ⟨c, rest, rfl, printed⟩ := h.head
  have other : (c == b) = false := by
    rw [beq_eq_false_iff_ne]
    rintro rfl
    exact absurd (printed.symm.trans blank) Bool.false_ne_true
  rw [List.isPrefixOf_cons_cons, other, Bool.false_and]

theorem isPrefixOf_concat (h : IsWord word) (blank : isBlank b = true) (s : List Char) :
    word.isPrefixOf (s ++ [b]) = word.isPrefixOf s := by
  rw [Bool.eq_iff_iff, List.isPrefixOf_iff_prefix, List.isPrefixOf_iff_prefix, List.prefix_concat_iff]
  refine or_iff_right fun whole => ?_
  obtain ⟨front, c, same, printed⟩ := h.last
  obtain ⟨-, last⟩ := List.append_inj' (same.symm.trans whole) rfl
  rw [List.cons.inj last |>.1] at printed
  exact absurd (printed.symm.trans blank) Bool.false_ne_true

/-- No word reaches across the end of a line. -/
theorem isPrefixOf_line (h : IsWord word) (ends : endsLine e = true) (s t : List Char) :
    word.isPrefixOf (s ++ e :: t) = word.isPrefixOf s := by
  have apart : e ∉ word := fun mem => absurd ((h.inline e mem).symm.trans ends) Bool.false_ne_true
  rw [Bool.eq_iff_iff, List.isPrefixOf_iff_prefix, List.isPrefixOf_iff_prefix]
  constructor
  · intro whole
    have line : s ++ [e] <+: s ++ e :: t := ⟨t, by simp⟩
    rcases List.prefix_or_prefix_of_prefix whole line with inside | across
    · rw [← List.isPrefixOf_iff_prefix, h.isPrefixOf_concat (isBlank_of_endsLine ends)] at inside
      exact List.isPrefixOf_iff_prefix.1 inside
    · exact absurd (across.subset (by simp)) apart
  · intro inside
    exact inside.trans (List.prefix_append s _)

end IsWord

/-! ## Where words stand -/

section Words

variable {word : List Char} {b e : Char} (h : IsWord word)

include h

theorem standsIn_nil (atStart : Bool) : standsIn word atStart [] = false := by
  obtain ⟨c, rest, rfl, -⟩ := h.head
  exact Bool.and_false atStart

theorem standsIn_blank (blank : isBlank b = true) (atStart : Bool) (s : List Char) :
    standsIn word atStart (b :: s) = standsIn word true s := by
  rw [standsIn, h.isPrefixOf_blank blank, blank, Bool.and_false, Bool.false_or]

theorem standsIn_concat (blank : isBlank b = true) (atStart : Bool) (s : List Char) :
    standsIn word atStart (s ++ [b]) = standsIn word atStart s := by
  induction s generalizing atStart with
  | nil => rw [List.nil_append, standsIn_blank h blank, standsIn_nil h, standsIn_nil h]
  | cons c s ih =>
    have front := h.isPrefixOf_concat blank (c :: s)
    rw [List.cons_append] at front ⊢
    rw [standsIn, standsIn, front, ih]

/-- Where a line ends, a word stands in front of that or behind it. -/
theorem standsIn_line (ends : endsLine e = true) (atStart : Bool) (s t : List Char) :
    standsIn word atStart (s ++ e :: t) = (standsIn word atStart s || standsIn word true t) := by
  induction s generalizing atStart with
  | nil => rw [List.nil_append, standsIn_blank h (isBlank_of_endsLine ends), standsIn_nil h, Bool.false_or]
  | cons c s ih =>
    have front := h.isPrefixOf_line ends (c :: s) t
    rw [List.cons_append] at front ⊢
    rw [standsIn, standsIn, front, ih, Bool.or_assoc]

omit h in
/-- A word that stands in a text stands there also when more is printed. -/
theorem standsIn_append {atStart : Bool} {s : List Char} (more : List Char) (some : word ≠ [])
    (stands : standsIn word atStart s = true) : standsIn word atStart (s ++ more) = true := by
  induction s generalizing atStart with
  | nil =>
    rw [standsIn, List.isEmpty_eq_false_iff.2 some, Bool.and_false] at stands
    cases stands
  | cons c s ih =>
    rw [List.cons_append, standsIn, Bool.or_eq_true]
    rw [standsIn, Bool.or_eq_true] at stands
    refine stands.imp (fun here => ?_) ih
    rw [Bool.and_eq_true, List.isPrefixOf_iff_prefix] at here ⊢
    exact ⟨here.1, here.2.trans (List.prefix_append (c :: s) more)⟩

end Words

/-! ## What is recognised -/

variable {b e : Char} {s s' : List Char}

theorem recognize?_congr (h : ∀ r : ModemReply, standsIn r.keyword.toList true s = standsIn r.keyword.toList true s') :
    recognize? s = recognize? s' := by
  unfold recognize?
  simp only [h]

theorem recognize?_eq_none_iff : recognize? s = none ↔ ∀ r : ModemReply, standsIn r.keyword.toList true s = false := by
  unfold recognize?
  rw [List.find?_eq_none]
  constructor
  · intro none r
    exact Bool.eq_false_iff.2 (none r (mem_all r))
  · intro none r _
    rw [none r]
    exact Bool.false_ne_true

theorem recognize?_blank (blank : isBlank b = true) (s : List Char) : recognize? (b :: s) = recognize? s :=
  recognize?_congr fun r => standsIn_blank r.keyword_isWord blank true s

theorem recognize?_concat (blank : isBlank b = true) (s : List Char) : recognize? (s ++ [b]) = recognize? s :=
  recognize?_congr fun r => standsIn_concat r.keyword_isWord blank true s

/-- Lines in which nothing is recognised do not matter. -/
theorem recognize?_line (ends : endsLine e = true) (none : recognize? s = none) (t : List Char) :
    recognize? (s ++ e :: t) = recognize? (e :: t) := by
  refine recognize?_congr fun r => ?_
  rw [standsIn_line r.keyword_isWord ends, standsIn_blank r.keyword_isWord (isBlank_of_endsLine ends),
    recognize?_eq_none_iff.1 none r, Bool.false_or]

/-- Where nothing is recognised, nothing was before. -/
theorem recognize?_eq_none_of_append {more : List Char} (none : recognize? (s ++ more) = none) :
    recognize? s = .none := by
  rw [recognize?_eq_none_iff] at none ⊢
  intro r
  refine Bool.eq_false_iff.2 fun stands => ?_
  have later := standsIn_append more r.keyword_isWord.ne_nil stands
  exact absurd ((none r).symm.trans later) Bool.false_ne_true

end ModemReply

namespace Modem

open ModemReply (isBlank recognize?)

/-! ## Blanks at the ends -/

variable {b e : Char} {s t : List Char}

theorem exists_trim (s : List Char) :
    ∃ lead trail, s = lead ++ trim s ++ trail ∧ (∀ c ∈ lead, isBlank c = true) ∧ ∀ c ∈ trail, isBlank c = true := by
  refine ⟨s.takeWhile isBlank, ((s.dropWhile isBlank).reverse.takeWhile isBlank).reverse, ?_,
    fun c => List.mem_takeWhile_imp, fun c mem => List.mem_takeWhile_imp (List.mem_reverse.1 mem)⟩
  rw [trim, List.append_assoc, ← List.reverse_append, List.takeWhile_append_dropWhile, List.reverse_reverse,
    List.takeWhile_append_dropWhile]

theorem trim_blank (blank : isBlank b = true) (s : List Char) : trim (b :: s) = trim s := by
  rw [trim, List.dropWhile_cons_of_pos blank, trim]

theorem trim_concat (blank : isBlank b = true) (s : List Char) : trim (s ++ [b]) = trim s := by
  unfold trim
  rw [List.dropWhile_append]
  split
  next all =>
    rw [List.isEmpty_iff.1 all, List.dropWhile_cons_of_pos blank, List.dropWhile_nil]
  next => rw [List.reverse_append, List.reverse_singleton, List.singleton_append, List.dropWhile_cons_of_pos blank]

/-- What blanks at the ends do not change. -/
structure Robust {γ : Type} (f : List Char → γ) : Prop where
  lead {b : Char} (blank : isBlank b = true) (s : List Char) : f (b :: s) = f s
  trail {b : Char} (blank : isBlank b = true) (s : List Char) : f (s ++ [b]) = f s

namespace Robust

variable {γ : Type} {f : List Char → γ} (h : Robust f)

include h

theorem append_left {lead : List Char} (blank : ∀ c ∈ lead, isBlank c = true) (s : List Char) :
    f (lead ++ s) = f s := by
  induction lead with
  | nil => rfl
  | cons c lead ih =>
    rw [List.cons_append, h.lead (blank c List.mem_cons_self)]
    exact ih fun c mem => blank c (List.mem_cons_of_mem _ mem)

theorem append_right {trail : List Char} (blank : ∀ c ∈ trail, isBlank c = true) (s : List Char) :
    f (s ++ trail) = f s := by
  induction trail generalizing s with
  | nil => rw [List.append_nil]
  | cons c trail ih =>
    rw [List.append_cons, ih fun c mem => blank c (List.mem_cons_of_mem _ mem), h.trail (blank c List.mem_cons_self)]

theorem trim_eq (s : List Char) : f (trim s) = f s := by
  obtain ⟨lead, trail, whole, before, behind⟩ := exists_trim s
  have same := h.append_left before (trim s ++ trail)
  rw [← List.append_assoc, ← whole, h.append_right behind] at same
  exact same.symm

end Robust

theorem robust_trim : Robust trim := ⟨trim_blank, trim_concat⟩

theorem robust_recognize? : Robust recognize? := ⟨ModemReply.recognize?_blank, ModemReply.recognize?_concat⟩

/-! ## The last line -/

theorem lastLine_of_inline (inline : ∀ c ∈ s, endsLine c = false) : lastLine s = s := by
  have none : s.any endsLine = false := by simpa using inline
  rw [lastLine, if_neg (by rw [none]; exact Bool.false_ne_true)]

theorem lastLine_append (ends : endsLine e = true) (inline : ∀ c ∈ t, endsLine c = false) (s : List Char) :
    lastLine (s ++ e :: t) = e :: t := by
  have some : (s ++ e :: t).any endsLine = true := by simp [ends]
  have tail : (s ++ e :: t).reverse.takeWhile (fun c => !endsLine c) = t.reverse := by
    have back : (s ++ e :: t).reverse = t.reverse ++ e :: s.reverse := by simp
    have all : ∀ c ∈ t.reverse, (!endsLine c) = true := fun c mem => by rw [inline c (List.mem_reverse.1 mem)]; rfl
    rw [back, List.takeWhile_append_of_pos all, List.takeWhile_cons_of_neg (by simp [ends]), List.append_nil]
  have front : (s ++ e :: t).length - t.length - 1 = s.length := by
    rw [List.length_append, List.length_cons]
    omega
  unfold lastLine
  rw [if_pos some, tail, List.reverse_reverse]
  dsimp only
  rw [front, List.drop_left]

/-- A text is on one line, or has a last one. -/
theorem lastLine_cases (s : List Char) :
    (∀ c ∈ s, endsLine c = false) ∨
      ∃ front e last, s = front ++ e :: last ∧ endsLine e = true ∧ ∀ c ∈ last, endsLine c = false := by
  induction s with
  | nil => exact .inl (by simp)
  | cons c s ih =>
    rcases ih with inline | ⟨front, e, last, rfl, ends, inline⟩
    · cases ends : endsLine c with
      | false => exact .inl (by simpa [ends] using inline)
      | true => exact .inr ⟨[], c, s, rfl, ends, inline⟩
    · exact .inr ⟨c :: front, e, last, rfl, ends, inline⟩

theorem lastLine_lastLine_append (s t : List Char) : lastLine (lastLine s ++ t) = lastLine (s ++ t) := by
  rcases lastLine_cases s with inline | ⟨front, e, last, rfl, ends, inline⟩
  · rw [lastLine_of_inline inline]
  rw [lastLine_append ends inline, List.append_assoc]
  rcases lastLine_cases t with inline' | ⟨front', e', last', rfl, ends', inline'⟩
  · have line : ∀ c ∈ last ++ t, endsLine c = false := fun c mem => (List.mem_append.1 mem).elim (inline c) (inline' c)
    rw [List.cons_append, lastLine_append ends line]
    exact lastLine_append ends line []
  · have back (front : List Char) : front ++ (e :: last ++ (front' ++ e' :: last')) =
        (front ++ e :: last ++ front') ++ e' :: last' := by simp
    rw [back, lastLine_append ends' inline']
    exact (congrArg lastLine (back [])).trans (lastLine_append ends' inline' _)

end Modem

/-- **Only the last line** of what was not understood is needed to understand what follows. -/
theorem ModemReply.recognize?_window {s : List Char} (none : recognize? s = none) (t : List Char) :
    recognize? (lastLine s ++ t) = recognize? (s ++ t) := by
  rcases Modem.lastLine_cases s with inline | ⟨front, e, last, rfl, ends, inline⟩
  · rw [Modem.lastLine_of_inline inline]
  · rw [Modem.lastLine_append ends inline, List.append_assoc]
    exact (recognize?_line ends (recognize?_eq_none_of_append none) (last ++ t)).symm

namespace Modem

open ModemReply (isBlank recognize? IsWord)

variable {word heard piece rest text : List Char} {b e : Char} {s : List Char}

/-! ## Clear texts -/

/-- What is understood of a beginning of a text is what the whole text says. -/
def Clear (text : List Char) : Prop :=
  ∀ part, part <+: text → ∀ reply, recognize? part = some reply → recognize? text = some reply

instance (text : List Char) : Decidable (Clear text) :=
  decidable_of_iff (∀ part ∈ text.inits, ∀ reply ∈ recognize? part, recognize? text = some reply) <| by
    simp only [List.mem_inits, Option.mem_def, Clear]

/-- A ring alone is a call; before `OK` it is none. -/
example : ¬ Clear "RING\r\nOK\r\n".toList := by decide +kernel

/-! ## Texts that are quoted -/

/-- But for blanks at its ends the text is on one line. -/
def OneLine (text : List Char) : Prop := ∀ c ∈ trim text, endsLine c = false

instance (text : List Char) : Decidable (OneLine text) :=
  decidable_of_iff (((trim text).all fun c => !endsLine c) = true) (by simp [OneLine])

/-- Complete lines of which nothing is understood are blank, if what is understood is on one line. -/
theorem OneLine.blank_front {front : List Char} (h : OneLine (front ++ e :: rest)) (ends : endsLine e = true)
    (early : recognize? front = none) (understood : recognize? (front ++ e :: rest) ≠ none) :
    ∀ c ∈ front, isBlank c = true := by
  obtain ⟨lead, trail, whole, before, behind⟩ := exists_trim (front ++ e :: rest)
  rw [OneLine] at h
  rw [← robust_recognize?.trim_eq] at understood
  generalize trim (front ++ e :: rest) = core at whole h understood
  rw [List.append_assoc, List.append_eq_append_iff] at whole
  rcases whole with ⟨more, rfl, -⟩ | ⟨more, rfl, within⟩
  · exact fun c mem => before c (List.mem_append_left _ mem)
  rw [robust_recognize?.append_left before] at early
  rcases List.append_eq_append_iff.1 within with ⟨more', rfl, rfl⟩ | ⟨more', rfl, line⟩
  · rw [robust_recognize?.append_right fun c mem => behind c (List.mem_append_left _ mem)] at early
    exact absurd early understood
  · cases more' with
    | nil => exact absurd (by simpa using early) understood
    | cons c more' =>
      obtain ⟨rfl, -⟩ := List.cons.inj line
      have inside := h e (by simp)
      exact absurd (inside.symm.trans ends) Bool.false_ne_true

/-- **An answer on one line** is quoted whole by the read that brings its last word. -/
theorem onOneLine_window (h : OneLine (heard ++ piece ++ rest)) (blank : ∀ c ∈ rest, isBlank c = true)
    (early : recognize? heard = none) (understood : recognize? (heard ++ piece) ≠ none) :
    onOneLine (lastLine heard ++ piece) = onOneLine (heard ++ piece ++ rest) := by
  have same : trim (lastLine heard ++ piece) = trim (heard ++ piece) := by
    rcases lastLine_cases heard with inline | ⟨front, e, last, rfl, ends, inline⟩
    · rw [lastLine_of_inline inline]
    · rw [lastLine_append ends inline]
      rw [List.append_assoc, List.append_assoc, List.cons_append] at h
      rw [← robust_recognize?.append_right blank, List.append_assoc, List.append_assoc, List.cons_append] at understood
      have lines := h.blank_front ends (ModemReply.recognize?_eq_none_of_append early) understood
      rw [List.append_assoc, robust_trim.append_left lines]
  rw [onOneLine, onOneLine, same, robust_trim.append_right blank]

/-! ## The speed that is printed -/

theorem after?_nil (h : IsWord word) : after? word [] = none :=
  if_neg fun none => h.ne_nil (List.isEmpty_iff.1 none)

theorem after?_blank (h : IsWord word) (blank : isBlank b = true) (s : List Char) :
    after? word (b :: s) = after? word s := by
  rw [after?, h.isPrefixOf_blank blank, if_neg Bool.false_ne_true]

theorem after?_concat (h : IsWord word) (blank : isBlank b = true) (s : List Char) :
    after? word (s ++ [b]) = (after? word s).map (· ++ [b]) := by
  induction s with
  | nil => rw [List.nil_append, after?_blank h blank, after?_nil h, Option.map_none]
  | cons c s ih =>
    have front := h.isPrefixOf_concat blank (c :: s)
    rw [List.cons_append] at front ⊢
    rw [after?, after?, front]
    by_cases here : word.isPrefixOf (c :: s) = true
    · have fits := (List.isPrefixOf_iff_prefix.1 here).length_le
      rw [if_pos here, if_pos here, Option.map_some, ← List.cons_append, List.drop_append_of_le_length fits]
    · rw [if_neg here, if_neg here, ih]

theorem after?_eq_none_of_append {more : List Char} (none : after? word (s ++ more) = none) (h : IsWord word) :
    after? word s = .none := by
  induction s with
  | nil => exact after?_nil h
  | cons c s ih =>
    rw [List.cons_append, after?] at none
    split at none
    · cases none
    next absent =>
      have here : ¬ word.isPrefixOf (c :: s) = true := by
        intro stands
        rw [List.isPrefixOf_iff_prefix] at stands absent
        exact absent (stands.trans (List.prefix_append (c :: s) more))
      rw [after?, if_neg here]
      exact ih none

theorem after?_line (h : IsWord word) (ends : endsLine e = true) (none : after? word s = none) (t : List Char) :
    after? word (s ++ e :: t) = after? word (e :: t) := by
  induction s with
  | nil => rfl
  | cons c s ih =>
    rw [after?] at none
    split at none
    · cases none
    next here =>
      have front := h.isPrefixOf_line ends (c :: s) t
      rw [List.cons_append] at front ⊢
      rw [after?, front, if_neg here]
      exact ih none

/-- The digits at the start of a text, behind blanks. -/
def printedDigits (text : List Char) : List Char := (text.dropWhile isBlank).takeWhile Char.isDigit

/-- The number that they stand for, if it is one of 32 bits. -/
def printedNumber? (text : List Char) : Option Nat :=
  let digits := printedDigits text
  if digits.isEmpty then none
  else
    let n := digits.foldl (fun n c => n * 10 + (c.toNat - 48)) 0
    if n < 0x100000000 then some n else none

def connectWord : List Char := ModemReply.connect.keyword.toList

theorem connectWord_isWord : IsWord connectWord := ModemReply.keyword_isWord .connect

/-- The number that a text prints behind `CONNECT`. -/
def announced? (text : List Char) : Option Nat := (after? connectWord text).bind printedNumber?

theorem connectBaud?_eq (said : String) : connectBaud? said = announced? said.toList := rfl

theorem isDigit_of_blank (blank : isBlank b = true) : b.isDigit = false := by
  unfold isBlank at blank
  simp only [Bool.or_eq_true, decide_eq_true_iff] at blank
  rcases blank with (((rfl | rfl) | rfl) | rfl) | rfl <;> rfl

theorem printedDigits_concat (blank : isBlank b = true) (s : List Char) :
    printedDigits (s ++ [b]) = printedDigits s := by
  unfold printedDigits
  rw [List.dropWhile_append]
  split
  next all => rw [List.isEmpty_iff.1 all, List.dropWhile_cons_of_pos blank, List.dropWhile_nil]
  next =>
    have none : [b].takeWhile Char.isDigit = [] := List.takeWhile_cons_of_neg (by simp [isDigit_of_blank blank])
    rw [List.takeWhile_append, none, List.append_nil]
    split
    next all => exact ((List.takeWhile_prefix Char.isDigit).eq_of_length all).symm
    next => rfl

/-- The end of a line as a blank. -/
def joined (c : Char) : Char := if endsLine c then ' ' else c

theorem isBlank_joined (c : Char) : isBlank (joined c) = isBlank c := by
  unfold joined
  split
  next ends => exact (ModemReply.isBlank_of_endsLine ends).symm
  next => rfl

theorem isDigit_joined (c : Char) : (joined c).isDigit = c.isDigit := by
  unfold joined
  split
  next ends => exact (isDigit_of_blank (ModemReply.isBlank_of_endsLine ends)).symm
  next => rfl

theorem isPrefixOf_joined {word : List Char} (printed : ∀ c ∈ word, isBlank c = false) (s : List Char) :
    word.isPrefixOf (s.map joined) = word.isPrefixOf s := by
  induction word generalizing s with
  | nil => rfl
  | cons c word ih =>
    cases s with
    | nil => rfl
    | cons d s =>
      have same : (c == joined d) = (c == d) := by
        unfold joined
        split
        next ends =>
          have here := printed c List.mem_cons_self
          have blank := ModemReply.isBlank_of_endsLine ends
          have gap : c ≠ ' ' := by
            rintro rfl
            cases here
          have other : c ≠ d := by
            rintro rfl
            exact absurd (here.symm.trans blank) Bool.false_ne_true
          rw [beq_eq_false_iff_ne.2 gap, beq_eq_false_iff_ne.2 other]
        next => rfl
      rw [List.map_cons, List.isPrefixOf_cons_cons, List.isPrefixOf_cons_cons, same,
        ih fun c mem => printed c (List.mem_cons_of_mem _ mem)]

theorem after?_joined {word : List Char} (printed : ∀ c ∈ word, isBlank c = false) (s : List Char) :
    after? word (s.map joined) = (after? word s).map (List.map joined) := by
  induction s with
  | nil => cases word <;> rfl
  | cons c s ih =>
    have front := isPrefixOf_joined printed (c :: s)
    rw [List.map_cons] at front ⊢
    rw [after?, after?, front]
    by_cases here : word.isPrefixOf (c :: s) = true
    · rw [if_pos here, if_pos here, Option.map_some, ← List.map_cons, List.map_drop]
    · rw [if_neg here, if_neg here, ih]

theorem printedDigits_joined (s : List Char) : printedDigits (s.map joined) = printedDigits s := by
  have blank : isBlank ∘ joined = isBlank := funext isBlank_joined
  have digit : Char.isDigit ∘ joined = Char.isDigit := funext isDigit_joined
  unfold printedDigits
  rw [List.dropWhile_map, List.takeWhile_map, blank, digit]
  -- digits do not end a line
  refine (List.map_congr_left fun c mem => ?_).trans (List.map_id _)
  have here : c.isDigit = true := List.mem_takeWhile_imp mem
  refine if_neg fun ends => ?_
  rw [isDigit_of_blank (ModemReply.isBlank_of_endsLine ends)] at here
  cases here

theorem robust_announced? : Robust announced? where
  lead blank s := by
    unfold announced?
    rw [after?_blank connectWord_isWord blank]
  trail blank s := by
    unfold announced?
    rw [after?_concat connectWord_isWord blank]
    cases after? connectWord s with
    | none => rfl
    | some tail =>
      rw [Option.map_some, Option.bind_some, Option.bind_some, printedNumber?, printedDigits_concat blank]
      rfl

/-- A number is read off the line on which the answer is kept as it was printed. -/
theorem connectBaud?_onOneLine (said : List Char) : connectBaud? (onOneLine said) = announced? said := by
  have all : (connectWord.all fun c => !isBlank c) = true := rfl
  have printed : ∀ c ∈ connectWord, isBlank c = false := fun c mem => by simpa using List.all_eq_true.1 all c mem
  have line : onOneLine said = String.ofList ((trim said).map joined) := rfl
  rw [connectBaud?_eq, line, String.toList_ofList, ← robust_announced?.trim_eq said, announced?, announced?,
    after?_joined printed]
  cases after? connectWord (trim said) with
  | none => rfl
  | some tail =>
    rw [Option.map_some, Option.bind_some, Option.bind_some, printedNumber?, printedDigits_joined]
    rfl

/-- Decimal digits are read off as they are printed. -/
theorem printedDigits_toDigits {gap rest : List Char} (blank : ∀ c ∈ gap, isBlank c = true)
    (ended : ∀ c ∈ rest.head?, c.isDigit = false) (n : Nat) :
    printedDigits (gap ++ (Nat.toDigits 10 n ++ rest)) = Nat.toDigits 10 n := by
  have digit : ∀ c ∈ Nat.toDigits 10 n, c.isDigit = true :=
    fun c mem => Nat.isDigit_of_mem_toDigits (by decide) (by decide) mem
  have start : (Nat.toDigits 10 n ++ rest).dropWhile isBlank = Nat.toDigits 10 n ++ rest := by
    obtain ⟨first, more, some⟩ := List.exists_cons_of_ne_nil (Nat.toDigits_ne_nil (b := 10) (n := n))
    have printed : isBlank first = false := by
      refine Bool.eq_false_iff.2 fun blank => ?_
      have here := digit first (by simp [some])
      rw [isDigit_of_blank blank] at here
      cases here
    rw [some, List.cons_append, List.dropWhile_cons_of_neg (by simp [printed])]
  have stop : rest.takeWhile Char.isDigit = [] := by
    cases rest with
    | nil => rfl
    | cons c rest => exact List.takeWhile_cons_of_neg (by simp [ended c rfl])
  rw [printedDigits, List.dropWhile_append_of_pos blank, start, List.takeWhile_append_of_pos digit, stop,
    List.append_nil]

/-- The speed that is printed in decimal digits behind `CONNECT` is the one that is announced. -/
theorem announced?_printed {n : Nat} (bound : n < 0x100000000) {gap rest : List Char}
    (blank : ∀ c ∈ gap, isBlank c = true) (ended : ∀ c ∈ rest.head?, c.isDigit = false) :
    announced? (connectWord ++ (gap ++ (Nat.toDigits 10 n ++ rest))) = some n := by
  have number : (Nat.toDigits 10 n).foldl (fun n c => n * 10 + (c.toNat - 48)) 0 = n := by
    have step : (fun n c => n * 10 + (Char.toNat c - 48)) = fun n c => 10 * n + (Char.toNat c - '0'.toNat) :=
      funext fun n => funext fun c => by rw [Nat.mul_comm]; rfl
    rw [step]
    exact Nat.ofDigitChars_ten_toDigits
  have digits : ¬ (Nat.toDigits 10 n).isEmpty = true := fun none => Nat.toDigits_ne_nil (List.isEmpty_iff.1 none)
  have found (tail : List Char) : after? connectWord (connectWord ++ tail) = some tail := rfl
  rw [announced?, found, Option.bind_some, printedNumber?, printedDigits_toDigits blank ended]
  dsimp only
  rw [if_neg digits, number, if_pos bound]

/-- `CONNECT` is found nowhere in a text before the text is understood. -/
def Announces (text : List Char) : Prop :=
  ∀ part, part <+: text → recognize? part = none → after? connectWord part = none

instance (text : List Char) : Decidable (Announces text) :=
  decidable_of_iff (∀ part ∈ text.inits, recognize? part = none → after? connectWord part = none) <| by
    simp only [List.mem_inits, Announces]

/-- **The speed** is printed behind `CONNECT` for the read that brings the last letter of it. -/
theorem announced?_window (h : Announces (heard ++ piece ++ rest)) (blank : ∀ c ∈ rest, isBlank c = true)
    (early : recognize? heard = none) : announced? (lastLine heard ++ piece) = announced? (heard ++ piece ++ rest) := by
  rw [robust_announced?.append_right blank]
  have absent := h heard ⟨piece ++ rest, by simp⟩ early
  rcases lastLine_cases heard with inline | ⟨front, e, last, rfl, ends, inline⟩
  · rw [lastLine_of_inline inline]
  · have first := after?_eq_none_of_append absent connectWord_isWord
    rw [lastLine_append ends inline, List.append_assoc, announced?, announced?, List.cons_append,
      after?_line connectWord_isWord ends first]

end Modem

end Metering
