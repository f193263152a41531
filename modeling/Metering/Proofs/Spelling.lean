import Metering.Proofs.Uid

set_option autoImplicit false

/-! # Encodings of identifiers

All spellings of an identifier have one encoding, which is decoded to the canonical one. Not all bytes that are
decoded are an encoding: they are exactly if they are arcs in the fewest bytes, one whole arc behind the other
(`Uid.IsArc`). Of other bytes, what follows the last whole arc is dropped, and so are the bits of an arc that
are too many (`Uid.decode_lossy`). -/

namespace Metering.Uid

variable {relative : Bool} {text : String} {arcs : List Nat} {bytes : Bytes}

/-! ## The canonical spelling is encoded like any other -/

theorem utf8ByteSize_ofList {chars : List Char} (ascii : ∀ c ∈ chars, c.toNat < 128) :
    (String.ofList chars).utf8ByteSize = chars.length := by
  induction chars with
  | nil => rfl
  | cons c rest ih =>
    obtain ⟨one, ascii⟩ := List.forall_mem_cons.1 ascii
    have size : c.utf8Size = 1 :=
      Char.utf8Size_eq_one_iff.2 (UInt32.le_iff_toNat_le.2 (Nat.le_of_lt_succ one))
    have front : String.ofList (c :: rest) = String.singleton c ++ String.ofList rest :=
      String.toList_inj.1 (by simp)
    rw [front, String.utf8ByteSize_append, String.utf8ByteSize_singleton, size, ih ascii, List.length_cons,
      Nat.add_comm]

theorem utf8ByteSize_spell (relative : Bool) (arcs : List Nat) :
    (spell relative arcs).utf8ByteSize = (spell relative arcs).toList.length := by
  have ascii : ∀ c ∈ arcs.flatMap arcText, c.toNat < 128 := by
    intro c hc
    obtain ⟨n, -, hc⟩ := List.mem_flatMap.1 hc
    rcases List.mem_cons.1 hc with rfl | hc
    · decide
    · have digit := isDigit_of_mem_digits hc
      simp only [Char.isDigit, Bool.and_eq_true, decide_eq_true_eq] at digit
      exact Nat.lt_of_le_of_lt (UInt32.le_iff_toNat_le.1 digit.2) (by decide)
  have all : ∀ c ∈ (if relative then arcs.flatMap arcText else (arcs.flatMap arcText).tail), c.toNat < 128 := by
    intro c hc
    split at hc
    · exact ascii c hc
    · exact ascii c (List.mem_of_mem_tail hc)
  rw [spell, utf8ByteSize_ofList all, String.toList_ofList]

theorem Encodes.ne_nil (h : Encodes relative arcs bytes) : arcs ≠ [] := by
  cases h <;> exact List.cons_ne_nil _ _

theorem Encodes.lt (h : Encodes relative arcs bytes) : ∀ n ∈ arcs, n < 0x100000000 := by
  have small {n : Nat} (le : n ≤ maxArc) : n < 0x100000000 := Nat.lt_of_le_of_lt le (by decide)
  cases h with
  | relative bounded => exact fun n hn => small (bounded n hn)
  | absolute first second bounded =>
    refine List.forall_mem_cons.2 ⟨by omega, List.forall_mem_cons.2 ⟨by omega, fun n hn => small (bounded n hn)⟩⟩

theorem Encodes.arcs?_eq (h : Encodes relative arcs bytes) : arcs? (spell relative arcs) = some arcs := by
  obtain ⟨n, rest, rfl⟩ := List.exists_cons_of_ne_nil h.ne_nil
  rw [arcs?_spell]
  exact mapM_digits_eq_some_iff.2 ⟨rfl, h.lt⟩

theorem Encodes.isRelative_eq (h : Encodes relative arcs bytes) : isRelative (spell relative arcs) = relative := by
  obtain ⟨n, rest, rfl⟩ := List.exists_cons_of_ne_nil h.ne_nil
  exact isRelative_spell n rest

theorem Encodes.two_le (h : Encodes relative arcs bytes) : 2 ≤ (spell relative arcs).toList.length := by
  have some (n : Nat) : 0 < (digits n).length := by
    rw [digits_eq]
    exact Nat.length_toDigits_pos
  cases h with
  | @relative n arcs =>
    have := some n
    rw [toList_spell_relative, List.flatMap_cons, arcText_eq]
    simp only [List.length_append, List.length_cons]
    omega
  | @absolute a b arcs =>
    have := some a
    rw [toList_spell_absolute, List.flatMap_cons, arcText_eq]
    simp only [List.length_append, List.length_cons]
    omega

theorem Encodes.encode (h : Encodes relative arcs bytes) (short : (spell relative arcs).toList.length ≤ 128) :
    encode (spell relative arcs) = .ok bytes := by
  refine encode_eq_ok_iff.2 ⟨?_, arcs, h.arcs?_eq, ?_⟩
  · rw [utf8ByteSize_spell]
    exact ⟨h.two_le, short⟩
  · rwa [h.isRelative_eq]

/-! ## Whole arcs -/

/-- The bytes of an arc. All but the last have the top bit set, none in front could be left out, and there are no
more than four. -/
inductive IsArc : Bytes → Prop where
  | mk (front : Bytes) (last : UInt8) (more : ∀ b ∈ front, ¬ b < 0x80) (ends : last < 0x80)
      (needed : front.head? ≠ some 0x80) (few : front.length ≤ 3) : IsArc (front ++ [last])

/-- Whole arcs, one behind the other. In an absolute identifier, a byte that stands for two comes first. -/
def Whole (relative : Bool) (bytes : Bytes) : Prop :=
  ∃ parts : List Bytes, (∀ part ∈ parts, IsArc part) ∧ (if relative then bytes else bytes.tail) = parts.flatten

theorem high_eq {b : UInt8} {n : Nat} (high : 128 ≤ b.toNat) (h : n % 128 + 128 = b.toNat) :
    UInt8.ofNat n ||| 0x80 = b := by
  apply UInt8.toNat_inj.1
  rw [toNat_or_high, UInt8.toNat_ofNat']
  omega

theorem low_eq {b : UInt8} {n : Nat} (h : n % 128 = b.toNat) : UInt8.ofNat (n % 128) = b := by
  apply UInt8.toNat_inj.1
  rw [UInt8.toNat_ofNat', h]
  omega

theorem IsArc.exists_eq (h : IsArc bytes) : ∃ n ≤ maxArc, bytes = arcBytes n := by
  obtain ⟨front, last, more, ends, needed, few⟩ := h
  have low : last.toNat < 128 := UInt8.lt_iff_toNat_lt.1 ends
  have large {b : UInt8} (hb : ¬ b < 0x80) : 128 ≤ b.toNat := Nat.le_of_not_lt fun lt => hb (UInt8.lt_iff_toNat_lt.2 lt)
  have lead {b : UInt8} (hb : some b ≠ some 0x80) : b.toNat ≠ 128 := fun same => hb (congrArg some (UInt8.toNat_inj.1 same))
  simp only [maxArc, arcBytes, Nat.shiftRight_eq_div_pow]
  rcases front with _ | ⟨a, _ | ⟨b, _ | ⟨c, _ | ⟨d, rest⟩⟩⟩⟩
  · refine ⟨last.toNat, by omega, ?_⟩
    rw [if_neg (by omega), if_neg (by omega), if_neg (by omega), low_eq (b := last) (by omega)]
    rfl
  · have ha := large (more a (by simp))
    have ha' := lead needed
    have := a.toNat_lt
    refine ⟨(a.toNat - 128) * 128 + last.toNat, by omega, ?_⟩
    rw [if_neg (by omega), if_neg (by omega), if_pos (by omega), high_eq ha (by omega), low_eq (b := last) (by omega)]
    rfl
  · have ha := large (more a (by simp))
    have hb := large (more b (by simp))
    have ha' := lead needed
    have := a.toNat_lt
    have := b.toNat_lt
    refine ⟨(a.toNat - 128) * 16384 + (b.toNat - 128) * 128 + last.toNat, by omega, ?_⟩
    rw [if_neg (by omega), if_pos (by omega), if_pos (by omega), high_eq ha (by omega), high_eq hb (by omega),
      low_eq (b := last) (by omega)]
    rfl
  · have ha := large (more a (by simp))
    have hb := large (more b (by simp))
    have hc := large (more c (by simp))
    have ha' := lead needed
    have := a.toNat_lt
    have := b.toNat_lt
    have := c.toNat_lt
    refine ⟨(a.toNat - 128) * 2097152 + (b.toNat - 128) * 16384 + (c.toNat - 128) * 128 + last.toNat, by omega, ?_⟩
    rw [if_pos (by omega), if_pos (by omega), if_pos (by omega), high_eq ha (by omega), high_eq hb (by omega),
      high_eq hc (by omega), low_eq (b := last) (by omega)]
    rfl
  · simp only [List.length_cons] at few
    omega

theorem isArc_arcBytes {n : Nat} (h : n ≤ maxArc) : IsArc (arcBytes n) := by
  unfold maxArc at h
  have high (x : Nat) : ¬ (UInt8.ofNat x ||| 0x80) < 0x80 := by
    rw [UInt8.lt_iff_toNat_lt, toNat_or_high]
    simp
  have lead {x : Nat} (some : x % 128 ≠ 0) : UInt8.ofNat x ||| 0x80 ≠ 0x80 := by
    intro same
    have := congrArg UInt8.toNat same
    rw [toNat_or_high, UInt8.toNat_ofNat'] at this
    simp at this
    omega
  have ends : UInt8.ofNat (n % 128) < 0x80 := by
    rw [UInt8.lt_iff_toNat_lt, UInt8.toNat_ofNat']
    exact Nat.lt_of_le_of_lt (Nat.mod_le _ _) (Nat.mod_lt _ (by decide))
  refine .mk _ _ ?_ ends ?_ ?_
  · intro b hb
    simp only [List.mem_append] at hb
    rcases hb with (hb | hb) | hb
    all_goals
      split at hb
      · exact List.mem_singleton.1 hb ▸ high _
      · cases hb
  · simp only [Nat.shiftRight_eq_div_pow]
    split
    · simpa using lead (by omega)
    split
    · simpa using lead (by omega)
    split
    · simpa using lead (by omega)
    · simp
  · simp only [List.length_append]
    split <;> split <;> split <;> simp

theorem whole_iff : (∃ parts : List Bytes, (∀ part ∈ parts, IsArc part) ∧ bytes = parts.flatten) ↔
    ∃ arcs : List Nat, (∀ n ∈ arcs, n ≤ maxArc) ∧ bytes = arcs.flatMap arcBytes := by
  constructor
  · rintro ⟨parts, whole, rfl⟩
    induction parts with
    | nil => exact ⟨[], by simp, rfl⟩
    | cons part parts ih =>
      obtain ⟨first, others⟩ := List.forall_mem_cons.1 whole
      obtain ⟨n, low, rfl⟩ := first.exists_eq
      obtain ⟨arcs, bounded, rest⟩ := ih others
      exact ⟨n :: arcs, List.forall_mem_cons.2 ⟨low, bounded⟩, by rw [List.flatten_cons, rest, List.flatMap_cons]⟩
  · rintro ⟨arcs, bounded, rfl⟩
    refine ⟨arcs.map arcBytes, fun part hpart => ?_, List.flatMap_def⟩
    obtain ⟨n, hn, rfl⟩ := List.mem_map.1 hpart
    exact isArc_arcBytes (bounded n hn)

/-! ## Bytes that are decoded -/

theorem decode_relative_eq (some : bytes ≠ []) : decode bytes true = .ok (spell true (arcsOf 0 bytes)) := by
  obtain ⟨b, rest, rfl⟩ := List.exists_cons_of_ne_nil some
  rfl

theorem decode_absolute_eq (b : UInt8) (rest : Bytes) :
    decode (b :: rest) false = .ok
      (spell false (min (b.toNat / 40) 2 :: (b.toNat - min (b.toNat / 40) 2 * 40) :: arcsOf 0 rest)) := by
  have text := toList_spell_absolute (min (b.toNat / 40) 2) ((b.toNat - min (b.toNat / 40) 2 * 40) :: arcsOf 0 rest)
  rw [← String.ofList_toList (s := spell _ _), text, decode, if_neg Bool.false_ne_true]
  dsimp only
  rw [List.append_assoc, List.flatMap_cons, digits]

theorem arcsOf_lt (number : Nat) (bytes : Bytes) : ∀ n ∈ arcsOf number bytes, n < 0x100000000 := by
  induction bytes generalizing number with
  | nil => simp [arcsOf]
  | cons b rest ih =>
    unfold arcsOf
    dsimp only
    split
    · exact List.forall_mem_cons.2 ⟨Nat.mod_lt _ (by decide), ih 0⟩
    · exact ih _

theorem ne_nil_of_decode (h : decode bytes relative = .ok text) : bytes ≠ [] := by
  rintro rfl
  cases h

/-- Bytes are the encoding of what is decoded if they are whole arcs. -/
theorem encode_of_whole (decoded : decode bytes relative = .ok text) (short : text.length ≤ 128)
    (second : relative = false → ∀ b ∈ ((arcs? text).getD [])[1]?, b ≤ 39) (whole : Whole relative bytes) :
    encode text = .ok bytes := by
  obtain ⟨arcs, bounded, same⟩ := whole_iff.1 whole
  have some := ne_nil_of_decode decoded
  have made : ∃ arcs, Encodes relative arcs bytes := by
    cases relative with
    | true =>
      rw [if_pos rfl] at same
      subst same
      cases arcs with
      | nil => exact absurd rfl some
      | cons n arcs => exact ⟨_, .relative bounded⟩
    | false =>
      obtain ⟨b, rest, rfl⟩ := List.exists_cons_of_ne_nil some
      rw [if_neg Bool.false_ne_true, List.tail_cons] at same
      subst same
      rw [decode_absolute_eq] at decoded
      obtain rfl := Except.ok.inj decoded
      have known := @arcs?_spell false (min (b.toNat / 40) 2)
        ((b.toNat - min (b.toNat / 40) 2 * 40) :: arcsOf 0 (arcs.flatMap arcBytes))
      have value := b.toNat_lt
      rw [mapM_digits_eq_some_iff.2 ⟨rfl, List.forall_mem_cons.2 ⟨by omega, List.forall_mem_cons.2
        ⟨by omega, arcsOf_lt 0 _⟩⟩⟩] at known
      have low : b.toNat - min (b.toNat / 40) 2 * 40 ≤ 39 := second rfl _ (by rw [known]; rfl)
      have byte : UInt8.ofNat (min (b.toNat / 40) 2 * 40 + (b.toNat - min (b.toNat / 40) 2 * 40)) = b := by
        apply UInt8.toNat_inj.1
        rw [UInt8.toNat_ofNat']
        omega
      have made := Encodes.absolute (Nat.min_le_right (b.toNat / 40) 2) low bounded
      rw [byte] at made
      exact ⟨_, made⟩
  obtain ⟨arcs, made⟩ := made
  rw [made.decode] at decoded
  obtain rfl := Except.ok.inj decoded
  exact made.encode (by rwa [String.length_toList])

theorem whole_of_encode (decoded : decode bytes relative = .ok text) (encoded : encode text = .ok bytes) :
    Whole relative bytes := by
  obtain ⟨-, arcs, harcs, made⟩ := encode_eq_ok_iff.1 encoded
  have form : isRelative text = relative := by
    cases relative with
    | true =>
      rw [decode_relative_eq (ne_nil_of_decode decoded)] at decoded
      obtain rfl := Except.ok.inj decoded
      cases h : arcsOf 0 bytes with
      | nil => rw [h] at harcs; cases harcs
      | cons n more => exact isRelative_spell n more
    | false =>
      obtain ⟨b, rest, rfl⟩ := List.exists_cons_of_ne_nil (ne_nil_of_decode decoded)
      rw [decode_absolute_eq] at decoded
      obtain rfl := Except.ok.inj decoded
      exact isRelative_spell _ _
  rw [form] at made
  cases made with
  | relative bounded => exact whole_iff.2 ⟨_, bounded, rfl⟩
  | absolute first second bounded => exact whole_iff.2 ⟨_, bounded, rfl⟩

/-- **Identifiers and their bytes.** What any spelling is encoded to is decoded to the canonical spelling of its
arcs, so texts of one form with one encoding stand for the same arcs. Bytes that are decoded, to a text of at most
128 characters with a second arc of at most 39 if it is absolute, are the encoding of that text exactly if they
are whole arcs. -/
theorem codec_canonical (text : String) (bytes : Bytes) :
    (encode text = .ok bytes →
      ∃ arcs, arcs? text = some arcs ∧ decode bytes (isRelative text) = .ok (spell (isRelative text) arcs)) ∧
    (∀ text', encode text = .ok bytes → encode text' = .ok bytes → isRelative text = isRelative text' →
      arcs? text = arcs? text') ∧
    ∀ relative, decode bytes relative = .ok text → text.length ≤ 128 →
      (relative = false → ∀ b ∈ ((arcs? text).getD [])[1]?, b ≤ 39) →
      (encode text = .ok bytes ↔ Whole relative bytes) := by
  have back {text : String} {bytes : Bytes} (h : encode text = .ok bytes) : ∃ arcs, arcs? text = some arcs ∧
      Encodes (isRelative text) arcs bytes := (encode_eq_ok_iff.1 h).2
  refine ⟨fun h => ?_, fun text' h h' form => ?_, fun relative decoded short second => ?_⟩
  · obtain ⟨arcs, harcs, made⟩ := back h
    exact ⟨arcs, harcs, made.decode⟩
  · obtain ⟨arcs, harcs, made⟩ := back h
    obtain ⟨arcs', harcs', made'⟩ := back h'
    have same : spell (isRelative text) arcs = spell (isRelative text) arcs' :=
      Except.ok.inj (made.decode.symm.trans (form ▸ made'.decode))
    rw [← form] at made'
    rw [harcs, harcs', ← made.arcs?_eq, same, made'.arcs?_eq]
  · exact ⟨whole_of_encode decoded, encode_of_whole decoded short second⟩

theorem codec_canonical_zeros :
    encode "2.016.+300" = .ok [0x60, 0x82, 0x2C] ∧ decode [0x60, 0x82, 0x2C] false = .ok "2.16.300" ∧
      arcs? "2.016.+300" = some [2, 16, 300] ∧ arcs? "2.016.+300" = arcs? "2.16.300" ∧
      (∀ b ∈ ((arcs? "2.16.300").getD [])[1]?, b ≤ 39) ∧
      encode "2.16.300" = .ok [0x60, 0x82, 0x2C] ∧ Whole false [0x60, 0x82, 0x2C] := by
  obtain ⟨reads, same, -⟩ := codec_canonical "2.016.+300" [0x60, 0x82, 0x2C]
  obtain ⟨-, -, exact⟩ := codec_canonical "2.16.300" [0x60, 0x82, 0x2C]
  have encoded : encode "2.016.+300" = .ok [0x60, 0x82, 0x2C] := Step.except_ok_of_toOption (by decide +kernel)
  have encoded' : encode "2.16.300" = .ok [0x60, 0x82, 0x2C] := Step.except_ok_of_toOption (by decide +kernel)
  have low : ∀ b ∈ ((arcs? "2.16.300").getD [])[1]?, b ≤ 39 := by decide +kernel
  obtain ⟨arcs, harcs, decoded⟩ := reads encoded
  have known : arcs? "2.016.+300" = some [2, 16, 300] := by decide +kernel
  obtain rfl := Option.some.inj (known.symm.trans harcs)
  have form : isRelative "2.016.+300" = false := by decide +kernel
  have text : spell false [2, 16, 300] = "2.16.300" := by decide +kernel
  rw [form, text] at decoded
  exact ⟨encoded, decoded, known, same _ encoded encoded' (by decide +kernel), low, encoded',
    (exact _ decoded (by decide +kernel) fun _ => low).1 encoded'⟩

/-- Bytes that are no encoding are decoded all the same: the first lack the end of their last arc, the second have
a bit too many. -/
theorem decode_lossy :
    (decode [0x02, 0x85] true = .ok ".2" ∧ encode ".2" = .ok [0x02]) ∧
      (decode [0x90, 0x80, 0x80, 0x80, 0x05] true = .ok ".5" ∧ encode ".5" = .ok [0x05]) ∧
      ¬ ∀ bytes relative text, decode bytes relative = .ok text → text.length ≤ 128 →
        (relative = false → ∀ b ∈ ((arcs? text).getD [])[1]?, b ≤ 39) → (∀ n ∈ (arcs? text).getD [], n ≤ maxArc) →
        encode text = .ok bytes := by
  have decoded : decode [0x02, 0x85] true = .ok ".2" := Step.except_ok_of_toOption (by decide +kernel)
  have encoded : encode ".2" = .ok [0x02] := Step.except_ok_of_toOption (by decide +kernel)
  have decoded' : decode [0x90, 0x80, 0x80, 0x80, 0x05] true = .ok ".5" := Step.except_ok_of_toOption (by decide +kernel)
  have encoded' : encode ".5" = .ok [0x05] := Step.except_ok_of_toOption (by decide +kernel)
  refine ⟨⟨decoded, encoded⟩, ⟨decoded', encoded'⟩, fun all => ?_⟩
  have back := all _ _ _ decoded (by decide +kernel) (fun h => nomatch h) (by decide +kernel)
  simp [encoded] at back

end Metering.Uid
