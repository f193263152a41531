import Mathlib.Data.List.Induction
import Metering.Proofs.Reader
import Metering.Service.Response

set_option autoImplicit false

/-! # The list of features

A meter that says who it is may go on with a list of features, which a zero ends. Each feature that is known tells
how long it is, and what it carries may hold any byte. Behind some features every input goes on in one of three
ways: the list ends, a code comes that is not known, or the bytes run out within a feature (`Feature.exists_list`).
Each of them is read in one way, which makes the grammar of the list exact in both directions
(`Identification.takeWithFeatures_parses`). -/

namespace Metering

/-! ## Features -/

/-- The bytes stop within `whole`. -/
def Bytes.CutFrom (part whole : Bytes) : Prop := part <+: whole ∧ part ≠ whole

/-- Bytes that one byte can count. -/
structure CountedBytes where
  bytes : Bytes
  few : bytes.length < 256

/-- The bytes behind their number. -/
def CountedBytes.field (c : CountedBytes) : Bytes := UInt8.ofNat c.bytes.length :: c.bytes

/-- A feature that is known. -/
inductive Feature where
  /-- Whether the meter authenticates, and by which cipher. -/
  | authentication (bits algorithm : UInt8)
  /-- The same, and a ticket. -/
  | ticketed (bits algorithm : UInt8) (ticket : CountedBytes)
  | deviceClass (kind : UInt8) (uid : CountedBytes)
  | identity (value : CountedBytes)

namespace Feature

/-- The bytes of a feature. -/
def bytes : Feature → Bytes
  | authentication bits algorithm => [0x01, bits, algorithm]
  | ticketed bits algorithm ticket => 0x02 :: bits :: algorithm :: ticket.field
  | deviceClass kind uid => 0x06 :: kind :: uid.field
  | identity value => 0x07 :: value.field

/-- The codes that mean something: the end of the list and the features. -/
def codes : List UInt8 := [0x00, 0x01, 0x02, 0x06, 0x07]

/-- Capability bits and cipher, if the feature has them. -/
def capability? : Feature → Option (UInt8 × UInt8)
  | authentication bits algorithm | ticketed bits algorithm _ => some (bits, algorithm)
  | _ => none

/-- The ticket, if the feature has one. -/
def ticket? : Feature → Option Bytes
  | ticketed _ _ ticket => some ticket.bytes
  | _ => none

/-- What a list of features says: the last capability bits and cipher, and the last ticket. -/
def announced (features : List Feature) : TicketFeature :=
  let last := (features.filterMap capability?).getLast?
  { canAuthenticate := (last.map fun c => decide (c.1 &&& 1 ≠ 0)).getD false
    algorithm := (last.map (·.2)).getD 0
    ticket := (features.filterMap ticket?).getLast?.getD [] }

/-- The number of bytes of a feature up to the count of what it carries; these are asked for one by one. -/
def front : Feature → Nat
  | authentication _ _ => 3
  | ticketed _ _ _ => 4
  | deviceClass _ _ => 3
  | identity _ => 2

/-- How many bytes are missed first in a feature that is cut short: one of its front, or all that are left of
what it counts. -/
def missed (f : Feature) (part : Bytes) : Nat := if part.length < f.front then 1 else f.bytes.length - part.length

end Feature

/-! ## How a list goes on -/

namespace Bytes.CutFrom

variable {b : UInt8} {part whole : Bytes}

theorem nil : CutFrom [] (b :: whole) := ⟨List.nil_prefix, List.cons_ne_nil _ _ ∘ Eq.symm⟩

theorem cons (cut : CutFrom part whole) : CutFrom (b :: part) (b :: whole) :=
  ⟨List.cons_prefix_cons.2 ⟨rfl, cut.1⟩, fun same => cut.2 (List.cons.inj same).2⟩

/-- Bytes that stop within others are none, or begin alike and stop within the rest. -/
theorem cases (cut : CutFrom part (b :: whole)) : part = [] ∨ ∃ rest, part = b :: rest ∧ CutFrom rest whole := by
  refine (List.prefix_cons_iff.1 cut.1).imp_right ?_
  rintro ⟨rest, rfl, inner⟩
  exact ⟨rest, rfl, inner, fun same => cut.2 (same ▸ rfl)⟩

theorem length_lt (cut : CutFrom part whole) : part.length < whole.length :=
  Nat.lt_of_le_of_ne cut.1.length_le fun same => cut.2 (cut.1.eq_of_length same)

end Bytes.CutFrom

theorem CountedBytes.field_of_length {bytes : Bytes} {n : UInt8} (length : bytes.length = n.toNat) :
    ∃ c : CountedBytes, c.field = n :: bytes := by
  refine ⟨⟨bytes, length ▸ n.toNat_lt⟩, ?_⟩
  simp only [field, length, UInt8.ofNat_toNat]

theorem CountedBytes.exists_field (input : Bytes) :
    (∃ (c : CountedBytes) (rest : Bytes), input = c.field ++ rest) ∨
      ∃ c : CountedBytes, Bytes.CutFrom input c.field := by
  cases input with
  | nil => exact .inr ⟨⟨[], by decide⟩, .nil⟩
  | cons n rest =>
    by_cases enough : n.toNat ≤ rest.length
    · obtain ⟨c, field⟩ := field_of_length (List.length_take_of_le enough)
      refine .inl ⟨c, rest.drop n.toNat, ?_⟩
      rw [field, List.cons_append, List.take_append_drop]
    · -- what is missing may be anything
      have size : (rest ++ List.replicate (n.toNat - rest.length) 0).length = n.toNat := by
        rw [List.length_append, List.length_replicate]
        omega
      obtain ⟨c, field⟩ := field_of_length size
      refine .inr ⟨c, ?_⟩
      rw [field]
      refine ⟨⟨_, rfl⟩, fun same => ?_⟩
      have length := congrArg List.length (List.cons.inj same).2
      omega

namespace Feature

variable {f : Feature} {fuel position : Nat} {known : TicketFeature} {part rest trailing : Bytes}

/-- What stands behind the codes of an end, of a feature or of neither. -/
theorem cases_next (input : Bytes) :
    (∃ trailing, input = 0x00 :: trailing) ∨ (∃ code trailing, input = code :: trailing ∧ code ∉ codes) ∨
      (∃ f : Feature, Bytes.CutFrom input f.bytes) ∨ ∃ (f : Feature) (rest : Bytes), input = f.bytes ++ rest := by
  cases input with
  | nil => exact .inr (.inr (.inl ⟨.authentication 0 0, .nil⟩))
  | cons code input =>
    by_cases unknown : code ∉ codes
    · exact .inr (.inl ⟨code, input, rfl, unknown⟩)
    simp only [codes, List.mem_cons, List.not_mem_nil, or_false, Decidable.not_not] at unknown
    refine unknown.elim (fun zero => .inl ⟨input, zero ▸ rfl⟩) fun feature => .inr (.inr ?_)
    rcases feature with rfl | rfl | rfl | rfl
    · match input with
      | [] => exact .inl ⟨.authentication 0 0, .cons .nil⟩
      | [bits] => exact .inl ⟨.authentication bits 0, .cons (.cons .nil)⟩
      | bits :: algorithm :: rest => exact .inr ⟨.authentication bits algorithm, rest, rfl⟩
    · match input with
      | [] => exact .inl ⟨.ticketed 0 0 ⟨[], by decide⟩, .cons .nil⟩
      | [bits] => exact .inl ⟨.ticketed bits 0 ⟨[], by decide⟩, .cons (.cons .nil)⟩
      | bits :: algorithm :: field =>
        rcases CountedBytes.exists_field field with ⟨c, rest, rfl⟩ | ⟨c, cut⟩
        · exact .inr ⟨.ticketed bits algorithm c, rest, rfl⟩
        · exact .inl ⟨.ticketed bits algorithm c, .cons (.cons (.cons cut))⟩
    · match input with
      | [] => exact .inl ⟨.deviceClass 0 ⟨[], by decide⟩, .cons .nil⟩
      | kind :: field =>
        rcases CountedBytes.exists_field field with ⟨c, rest, rfl⟩ | ⟨c, cut⟩
        · exact .inr ⟨.deviceClass kind c, rest, rfl⟩
        · exact .inl ⟨.deviceClass kind c, .cons (.cons cut)⟩
    · rcases CountedBytes.exists_field input with ⟨c, rest, rfl⟩ | ⟨c, cut⟩
      · exact .inr ⟨.identity c, rest, rfl⟩
      · exact .inl ⟨.identity c, .cons cut⟩

theorem bytes_ne_nil (f : Feature) : f.bytes ≠ [] := by cases f <;> exact List.cons_ne_nil _ _

/-- How a list of features goes on behind its features. -/
inductive Ending : Bytes → Prop where
  | closed (trailing : Bytes) : Ending (0x00 :: trailing)
  | unknown {code : UInt8} (trailing : Bytes) (unknown : code ∉ codes) : Ending (code :: trailing)
  | cut {f : Feature} {part : Bytes} (cut : part.CutFrom f.bytes) : Ending part

/-- **Every input** is a list of features that goes on in one of three ways. -/
theorem exists_list (input : Bytes) :
    ∃ (features : List Feature) (rest : Bytes), input = features.flatMap bytes ++ rest ∧ Ending rest := by
  induction size : input.length using Nat.strongRecOn generalizing input with
  | ind n ih =>
    rcases cases_next input with ⟨trailing, rfl⟩ | ⟨code, trailing, rfl, unknown⟩ | ⟨f, cut⟩ | ⟨f, rest, rfl⟩
    · exact ⟨[], _, rfl, .closed trailing⟩
    · exact ⟨[], _, rfl, .unknown trailing unknown⟩
    · exact ⟨[], _, rfl, .cut cut⟩
    · have shorter : rest.length < n := by
        have := List.length_pos_iff.2 f.bytes_ne_nil
        rw [List.length_append] at size
        omega
      obtain ⟨features, rest, rfl, ending⟩ := ih _ shorter rest rfl
      exact ⟨f :: features, rest, by rw [List.flatMap_cons, List.append_assoc], ending⟩

/-! ## What a list says -/

/-- What is known of tickets after one more feature. -/
def noted (known : TicketFeature) : Feature → TicketFeature
  | authentication bits algorithm => { known with canAuthenticate := bits &&& 1 ≠ 0, algorithm }
  | ticketed bits algorithm ticket => { canAuthenticate := bits &&& 1 ≠ 0, algorithm, ticket := ticket.bytes }
  | _ => known

/-- Later features override earlier ones, each what it carries. -/
theorem foldl_noted (features : List Feature) : features.foldl noted {} = announced features := by
  induction features using List.reverseRecOn with
  | nil => rfl
  | append_singleton features f ih =>
    rw [List.foldl_append, ih]
    cases f <;> simp [announced, noted, capability?, ticket?]

end Feature

open Reader (Onward)

namespace Identification

variable {fuel position : Nat} {known : TicketFeature} {f : Feature} {part rest trailing : Bytes}

/-! ## Reading a list -/

section Counted

variable (c : CountedBytes) (position : Nat) (rest : Bytes)

theorem toNat_count : (UInt8.ofNat c.bytes.length).toNat = c.bytes.length := by
  rw [UInt8.toNat_ofNat', Nat.mod_eq_of_lt c.few]

theorem run_count : Reader.byte.run ⟨position, c.field ++ rest⟩ =
    (.ok (UInt8.ofNat c.bytes.length), ⟨position + 1, c.bytes ++ rest⟩) :=
  Reader.run_byte _ _ _

theorem run_counted : (Reader.take (UInt8.ofNat c.bytes.length).toNat).run ⟨position, c.bytes ++ rest⟩ =
    (.ok c.bytes, ⟨position + c.bytes.length, rest⟩) := by
  rw [toNat_count]
  exact Reader.takes_take c.bytes position rest

theorem run_passed : (Reader.skip (UInt8.ofNat c.bytes.length).toNat).run ⟨position, c.bytes ++ rest⟩ =
    (.ok (), ⟨position + c.bytes.length, rest⟩) :=
  Step.run_bind_of_ok (run_counted c position rest)

end Counted

/-- A feature is taken as it is written. -/
theorem run_takeFeatures_feature (f : Feature) (fuel position : Nat) (known : TicketFeature) (rest : Bytes) :
    (takeFeatures (fuel + 1) known).run ⟨position, f.bytes ++ rest⟩ =
      (takeFeatures fuel (f.noted known)).run ⟨position + f.bytes.length, rest⟩ := by
  cases f with
  | authentication bits algorithm =>
    rw [takeFeatures, Feature.bytes, List.cons_append, Step.run_bind_of_ok (Reader.run_byte _ _ _), if_neg (by decide),
      if_pos rfl]
    rw [List.cons_append, Step.run_bind_of_ok (Reader.run_byte _ _ _)]
    rw [List.cons_append, Step.run_bind_of_ok (Reader.run_byte _ _ _)]
    rfl
  | ticketed bits algorithm ticket =>
    rw [takeFeatures, Feature.bytes, List.cons_append, Step.run_bind_of_ok (Reader.run_byte _ _ _), if_neg (by decide),
      if_neg (by decide), if_pos rfl]
    rw [List.cons_append, Step.run_bind_of_ok (Reader.run_byte _ _ _)]
    rw [List.cons_append, Step.run_bind_of_ok (Reader.run_byte _ _ _)]
    rw [Step.run_bind_of_ok (run_count ticket _ _), Step.run_bind_of_ok (run_counted ticket _ _)]
    exact congrArg (fun place => ((takeFeatures fuel _).run ⟨place, rest⟩)) (by simp [CountedBytes.field]; omega)
  | deviceClass kind uid =>
    rw [takeFeatures, Feature.bytes, List.cons_append, Step.run_bind_of_ok (Reader.run_byte _ _ _), if_neg (by decide),
      if_neg (by decide), if_neg (by decide), if_pos rfl]
    rw [List.cons_append, Step.run_bind_of_ok (Reader.run_byte _ _ _)]
    rw [Step.run_bind_of_ok (run_count uid _ _), Step.run_bind_of_ok (run_passed uid _ _)]
    exact congrArg (fun place => ((takeFeatures fuel _).run ⟨place, rest⟩)) (by simp [CountedBytes.field]; omega)
  | identity value =>
    rw [takeFeatures, Feature.bytes, List.cons_append, Step.run_bind_of_ok (Reader.run_byte _ _ _), if_neg (by decide),
      if_neg (by decide), if_neg (by decide), if_neg (by decide), if_pos rfl]
    rw [Step.run_bind_of_ok (run_count value _ _), Step.run_bind_of_ok (run_passed value _ _)]
    exact congrArg (fun place => ((takeFeatures fuel _).run ⟨place, rest⟩)) (by simp [CountedBytes.field]; omega)

/-- A list that ends is read up to what stands behind its end. -/
theorem run_takeFeatures_list (features : List Feature) (position : Nat) (known : TicketFeature) (rest : Bytes)
    (enough : (features.flatMap Feature.bytes).length ≤ fuel) :
    ∃ left, fuel ≤ left + (features.flatMap Feature.bytes).length ∧
      (takeFeatures fuel known).run ⟨position, features.flatMap Feature.bytes ++ rest⟩ =
        (takeFeatures left (features.foldl Feature.noted known)).run
          ⟨position + (features.flatMap Feature.bytes).length, rest⟩ := by
  -- on the features, each of which takes one from the fuel and at least one byte
  induction features generalizing fuel known position with
  | nil => exact ⟨fuel, Nat.le_add_right _ _, rfl⟩
  | cons f features ih =>
    have some := List.length_pos_iff.2 f.bytes_ne_nil
    rw [List.flatMap_cons, List.length_append] at enough ⊢
    obtain ⟨fuel, rfl⟩ : ∃ n, fuel = n + 1 := Nat.exists_eq_add_one.2 (by omega)
    have later : (features.flatMap Feature.bytes).length ≤ fuel := by omega
    obtain ⟨left, bound, run⟩ := ih (position + f.bytes.length) (f.noted known) later
    refine ⟨left, by omega, ?_⟩
    rw [List.append_assoc, run_takeFeatures_feature, run, List.foldl_cons, Nat.add_assoc]

theorem run_counted_cut {c : CountedBytes} {value : Bytes} (short : value.length < c.bytes.length) (position : Nat) :
    (Reader.take (UInt8.ofNat c.bytes.length).toNat).run ⟨position, value⟩ =
      (.error (.partialData (position + c.bytes.length) (position + value.length)), ⟨position, value⟩) := by
  rw [toNat_count, Reader.run_take, if_pos short]
  rfl

theorem run_passed_cut {c : CountedBytes} {value : Bytes} (short : value.length < c.bytes.length) (position : Nat) :
    (Reader.skip (UInt8.ofNat c.bytes.length).toNat).run ⟨position, value⟩ =
      (.error (.partialData (position + c.bytes.length) (position + value.length)), ⟨position, value⟩) :=
  Step.run_bind_of_error (run_counted_cut short position)

/-- Behind its front, a feature misses all that is left of it. -/
theorem short_counted {place : Nat} (behind : f.front ≤ part.length)
    (same : place = position + part.length + (f.bytes.length - part.length)) {found : Nat}
    (end_eq : found = position + part.length) :
    (Except.error (.partialData place found) : Except Fault TicketFeature) =
      .error (.partialData (position + part.length + f.missed part) (position + part.length)) := by
  rw [Feature.missed, if_neg (Nat.not_lt_of_le behind), same, end_eq]

/-- A feature that is cut short is found out at the first byte that is missed, or at what it counts. -/
theorem run_takeFeatures_cut (cut : Bytes.CutFrom part f.bytes) (enough : part.length ≤ fuel) :
    ((takeFeatures fuel known).run ⟨position, part⟩).1 =
      .error (.partialData (position + part.length + f.missed part) (position + part.length)) := by
  cases part with
  | nil =>
    have front : f.missed [] = 1 := by cases f <;> rfl
    rw [front]
    cases fuel <;> rfl
  | cons code part =>
    obtain ⟨fuel, rfl⟩ : ∃ n, fuel = n + 1 := Nat.exists_eq_add_one.2 (Nat.lt_of_lt_of_le (Nat.succ_pos _) enough)
    rw [takeFeatures]
    cases f with
    | authentication bits algorithm =>
      obtain none | ⟨_, same, inner⟩ := cut.cases
      · cases none
      obtain ⟨rfl, rfl⟩ := List.cons.inj same
      rw [Step.run_bind_of_ok (Reader.run_byte _ _ _), if_neg (by decide), if_pos rfl]
      obtain rfl | ⟨_, rfl, inner₁⟩ := inner.cases
      · rfl
      obtain rfl | ⟨_, rfl, inner₂⟩ := inner₁.cases
      · rfl
      · exact absurd inner₂.length_lt (Nat.not_lt_zero _)
    | ticketed bits algorithm c =>
      obtain none | ⟨_, same, inner⟩ := cut.cases
      · cases none
      obtain ⟨rfl, rfl⟩ := List.cons.inj same
      rw [Step.run_bind_of_ok (Reader.run_byte _ _ _), if_neg (by decide), if_neg (by decide), if_pos rfl]
      obtain rfl | ⟨_, rfl, inner₁⟩ := inner.cases
      · rfl
      obtain rfl | ⟨_, rfl, inner₂⟩ := inner₁.cases
      · rfl
      rw [Step.run_bind_of_ok (Reader.run_byte _ _ _), Step.run_bind_of_ok (Reader.run_byte _ _ _)]
      obtain rfl | ⟨value, rfl, inner₃⟩ := inner₂.cases
      · rfl
      have fewer := inner₃.length_lt
      rw [Step.run_bind_of_ok (Reader.run_byte _ _ _), Step.run_bind_of_error (run_counted_cut fewer _)]
      exact short_counted (by simp [Feature.front]) (by simp [Feature.bytes, CountedBytes.field]; omega) (by simp; omega)
    | deviceClass kind c =>
      obtain none | ⟨_, same, inner⟩ := cut.cases
      · cases none
      obtain ⟨rfl, rfl⟩ := List.cons.inj same
      rw [Step.run_bind_of_ok (Reader.run_byte _ _ _), if_neg (by decide), if_neg (by decide), if_neg (by decide),
        if_pos rfl]
      obtain rfl | ⟨_, rfl, inner₁⟩ := inner.cases
      · rfl
      rw [Step.run_bind_of_ok (Reader.run_byte _ _ _)]
      obtain rfl | ⟨value, rfl, inner₂⟩ := inner₁.cases
      · rfl
      have fewer := inner₂.length_lt
      rw [Step.run_bind_of_ok (Reader.run_byte _ _ _), Step.run_bind_of_error (run_passed_cut fewer _)]
      exact short_counted (by simp [Feature.front]) (by simp [Feature.bytes, CountedBytes.field]; omega) (by simp; omega)
    | identity c =>
      obtain none | ⟨_, same, inner⟩ := cut.cases
      · cases none
      obtain ⟨rfl, rfl⟩ := List.cons.inj same
      rw [Step.run_bind_of_ok (Reader.run_byte _ _ _), if_neg (by decide), if_neg (by decide), if_neg (by decide),
        if_neg (by decide), if_pos rfl]
      obtain rfl | ⟨value, rfl, inner₁⟩ := inner.cases
      · rfl
      have fewer := inner₁.length_lt
      rw [Step.run_bind_of_ok (Reader.run_byte _ _ _), Step.run_bind_of_error (run_passed_cut fewer _)]
      exact short_counted (by simp [Feature.front]) (by simp [Feature.bytes, CountedBytes.field]; omega) (by simp; omega)

/-! ## What every input is read as -/

section Behind

variable (features : List Feature)

/-- Behind some features, a list is read as it goes on, with fuel for every byte that is left. -/
theorem run_takeFeatures_behind (position : Nat) (rest : Bytes) :
    ∃ left, rest.length ≤ left ∧
      (takeFeatures (features.flatMap Feature.bytes ++ rest).length {}).run
          ⟨position, features.flatMap Feature.bytes ++ rest⟩ =
        (takeFeatures left (Feature.announced features)).run
          ⟨position + (features.flatMap Feature.bytes).length, rest⟩ := by
  have enough : (features.flatMap Feature.bytes).length ≤ (features.flatMap Feature.bytes ++ rest).length := by simp
  obtain ⟨left, bound, run⟩ := run_takeFeatures_list features position {} rest enough
  rw [List.length_append] at bound
  exact ⟨left, by omega, Feature.foldl_noted features ▸ run⟩

theorem run_takeFeatures_closed (position : Nat) (trailing : Bytes) :
    (takeFeatures (features.flatMap Feature.bytes ++ 0x00 :: trailing).length {}).run
        ⟨position, features.flatMap Feature.bytes ++ 0x00 :: trailing⟩ =
      (.ok (Feature.announced features), ⟨position + (features.flatMap Feature.bytes).length + 1, trailing⟩) := by
  obtain ⟨left, enough, run⟩ := run_takeFeatures_behind features position (0x00 :: trailing)
  obtain ⟨left, rfl⟩ : ∃ n, left = n + 1 := Nat.exists_eq_add_one.2 (Nat.lt_of_lt_of_le (Nat.succ_pos _) enough)
  rw [run, takeFeatures, Step.run_bind_of_ok (Reader.run_byte _ _ _), if_pos rfl]
  rfl

theorem run_takeFeatures_unknown {code : UInt8} (unknown : code ∉ Feature.codes) (position : Nat) (trailing : Bytes) :
    ((takeFeatures (features.flatMap Feature.bytes ++ code :: trailing).length {}).run
        ⟨position, features.flatMap Feature.bytes ++ code :: trailing⟩).1 =
      .error (.protocol (.unknownFeature code)) := by
  obtain ⟨left, enough, run⟩ := run_takeFeatures_behind features position (code :: trailing)
  obtain ⟨left, rfl⟩ : ∃ n, left = n + 1 := Nat.exists_eq_add_one.2 (Nat.lt_of_lt_of_le (Nat.succ_pos _) enough)
  simp only [Feature.codes, List.mem_cons, List.not_mem_nil, or_false, not_or] at unknown
  obtain ⟨h0, h1, h2, h6, h7⟩ := unknown
  rw [run, takeFeatures, Step.run_bind_of_ok (Reader.run_byte _ _ _), if_neg h0, if_neg h1, if_neg h2, if_neg h6,
    if_neg h7]
  rfl

theorem run_takeFeatures_short {part : Bytes} (cut : Bytes.CutFrom part f.bytes) (position : Nat) :
    ((takeFeatures (features.flatMap Feature.bytes ++ part).length {}).run
        ⟨position, features.flatMap Feature.bytes ++ part⟩).1 =
      .error (.partialData (position + (features.flatMap Feature.bytes ++ part).length + f.missed part)
        (position + (features.flatMap Feature.bytes ++ part).length)) := by
  obtain ⟨left, enough, run⟩ := run_takeFeatures_behind features position part
  rw [run, run_takeFeatures_cut cut enough, List.length_append, Nat.add_assoc position]

end Behind

/-- Why an input is refused that a reader at some position has left. -/
inductive Refused (position : Nat) : Bytes → Fault → Prop where
  /-- A code comes that is not known. -/
  | unknown (standard version revision : UInt8) (features : List Feature) {code : UInt8} (trailing : Bytes)
      (unknown : code ∉ Feature.codes) :
      Refused position (standard :: version :: revision :: (features.flatMap Feature.bytes ++ code :: trailing))
        (.protocol (.unknownFeature code))
  /-- The bytes run out in front of the list. -/
  | short {input : Bytes} (short : input.length < minLength) :
      Refused position input (.partialData (position + input.length + 1) (position + input.length))
  /-- The bytes run out within the list. -/
  | cut (standard version revision : UInt8) (features : List Feature) {f : Feature} {part : Bytes}
      (cut : part.CutFrom f.bytes) {input : Bytes}
      (input_eq : input = standard :: version :: revision :: (features.flatMap Feature.bytes ++ part)) :
      Refused position input (.partialData (position + input.length + f.missed part) (position + input.length))

theorem takeFeatures_onward (fuel : Nat) (known : TicketFeature) : Step.Moves Onward (takeFeatures fuel known) := by
  induction fuel generalizing known with
  | zero => exact .bind .get fun r => .throw _
  | succ fuel ih =>
    rw [takeFeatures]
    refine .bind Reader.byte_onward fun code => .ite (.pure _) (.ite ?_ (.ite ?_ (.ite ?_ (.ite ?_ (.throw _)))))
    · exact .bind Reader.byte_onward fun _ => .bind Reader.byte_onward fun _ => ih _
    · exact .bind Reader.byte_onward fun _ => .bind Reader.byte_onward fun _ => .bind Reader.byte_onward fun _ =>
        .bind (Reader.take_onward _) fun _ => ih _
    · exact .bind Reader.byte_onward fun _ => .bind Reader.byte_onward fun _ => .bind (Reader.skip_onward _) fun _ => ih _
    · exact .bind Reader.byte_onward fun _ => .bind (Reader.skip_onward _) fun _ => ih _

theorem takeWithFeatures_onward : Step.Moves Onward takeWithFeatures := by
  unfold takeWithFeatures take
  refine .bind (.bind Reader.byte_onward fun _ => .bind Reader.byte_onward fun _ => .bind Reader.byte_onward fun _ => .pure _) fun who => ?_
  exact .bind (.bind .get fun _ => .pure _) fun _ => .bind (takeFeatures_onward _ _) fun _ => .pure _

theorem run_takeWithFeatures (standard version revision : UInt8) (position : Nat) (rest : Bytes) :
    takeWithFeatures.run ⟨position, standard :: version :: revision :: rest⟩ =
      (takeFeatures rest.length {} >>= fun tickets => pure ⟨standard, version, revision, some tickets⟩).run
        ⟨position + 3, rest⟩ :=
  rfl

/-- An input that is refused is not accepted. -/
theorem Refused.run {e : Fault} {input : Bytes} (refused : Refused position input e) :
    (takeWithFeatures.run ⟨position, input⟩).1 = .error e := by
  cases refused with
  | unknown a b c features trailing unknown =>
    have run := Step.run_eq_of_fst (run_takeFeatures_unknown features unknown (position + 3) trailing)
    exact congrArg Prod.fst ((run_takeWithFeatures a b c position _).trans (Step.run_bind_of_error run))
  | short short =>
    match input, short with
    | [], _ => rfl
    | [_], _ => rfl
    | [_, _], _ => rfl
  | cut a b c features cut input_eq =>
    subst input_eq
    have run := Step.run_eq_of_fst (run_takeFeatures_short features cut (position + 3))
    have places (n : Nat) : position + 3 + n = position + (n + 3) := by omega
    rw [places] at run
    exact congrArg Prod.fst ((run_takeWithFeatures a b c position _).trans (Step.run_bind_of_error run))

theorem run_closed (standard version revision : UInt8) (features : List Feature) (position : Nat) (trailing : Bytes) :
    takeWithFeatures.run
        ⟨position, standard :: version :: revision :: (features.flatMap Feature.bytes ++ 0x00 :: trailing)⟩ =
      (.ok ⟨standard, version, revision, some (Feature.announced features)⟩,
        ⟨position + (4 + (features.flatMap Feature.bytes).length), trailing⟩) := by
  rw [run_takeWithFeatures, Step.run_bind_of_ok (run_takeFeatures_closed features (position + 3) trailing)]
  have place : position + 3 + (features.flatMap Feature.bytes).length + 1 =
      position + (4 + (features.flatMap Feature.bytes).length) := by omega
  rw [place]
  rfl

/-- Every input is accepted, or there is a reason to refuse it. -/
theorem closed_or_refused (position : Nat) (input : Bytes) :
    (∃ (standard version revision : UInt8) (features : List Feature) (trailing : Bytes),
      input = standard :: version :: revision :: (features.flatMap Feature.bytes ++ 0x00 :: trailing)) ∨
      ∃ e, Refused position input e := by
  by_cases short : input.length < minLength
  · exact .inr ⟨_, .short short⟩
  obtain ⟨a, b, c, list, rfl⟩ : ∃ a b c list, input = a :: b :: c :: list := by
    match input with
    | [] | [_] | [_, _] => simp [minLength] at short
    | a :: b :: c :: list => exact ⟨a, b, c, list, rfl⟩
  obtain ⟨features, rest, rfl, ending⟩ := Feature.exists_list list
  cases ending with
  | closed trailing => exact .inl ⟨a, b, c, features, trailing, rfl⟩
  | unknown trailing unknown => exact .inr ⟨_, .unknown a b c features trailing unknown⟩
  | cut cut => exact .inr ⟨_, .cut a b c features cut rfl⟩

/-- **The grammar of the list.** Whatever a reader has left,

* it is accepted exactly if it is three bytes, features and the zero that ends them; then what follows the zero is
  left, and what is known of tickets is what the features announce;
* it is refused exactly for the reasons there are: a code that is not known, or bytes that run out;
* in no case does the reader leave its bytes or go behind their end. -/
theorem takeWithFeatures_parses (r : Reader) :
    (∀ who left, takeWithFeatures.run r = (.ok who, left) ↔
      ∃ standard version revision features trailing,
        r.rest = standard :: version :: revision :: (features.flatMap Feature.bytes ++ 0x00 :: trailing) ∧
          who = ⟨standard, version, revision, some (Feature.announced features)⟩ ∧
          left = ⟨r.position + (4 + (features.flatMap Feature.bytes).length), trailing⟩) ∧
      (∀ e, (takeWithFeatures.run r).1 = .error e ↔ Refused r.position r.rest e) ∧
      Onward r (takeWithFeatures.run r).2 := by
  obtain ⟨position, input⟩ := r
  refine ⟨fun who left => ⟨fun run => ?_, ?_⟩, fun e => ⟨fun run => ?_, Refused.run⟩, takeWithFeatures_onward _⟩
  · obtain ⟨a, b, c, features, trailing, rfl⟩ | ⟨e, refused⟩ := closed_or_refused position input
    · obtain ⟨same, rfl⟩ := Prod.mk.inj ((run_closed a b c features position trailing).symm.trans run)
      exact ⟨a, b, c, features, trailing, rfl, (Except.ok.inj same).symm, rfl⟩
    · cases refused.run.symm.trans (congrArg Prod.fst run)
  · rintro ⟨a, b, c, features, trailing, same, rfl, rfl⟩
    obtain rfl : input = _ := same
    exact run_closed a b c features position trailing
  · obtain ⟨a, b, c, features, trailing, rfl⟩ | ⟨e', refused⟩ := closed_or_refused position input
    · cases (congrArg Prod.fst (run_closed a b c features position trailing)).symm.trans run
    · obtain rfl := Except.error.inj (refused.run.symm.trans run)
      exact refused

end Identification

end Metering
