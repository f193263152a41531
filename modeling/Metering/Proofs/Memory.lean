import Metering.Proofs.Contents

set_option autoImplicit false

/-! # Meters that are written to

A meter is known by what it accepts and what it refuses (`Meter`): a write that was accepted has changed its tables as
the request says, and one that was refused has changed nothing. -/

namespace Metering

/-- The tables of a meter: the byte at each place of each table. -/
abbrev Memory := Nat → Nat → UInt8

/-- Writes data to a table, from a place on. -/
def Memory.write (m : Memory) (table place : Nat) (data : Bytes) : Memory := fun table' place' =>
  if table' = table ∧ place ≤ place' ∧ place' < place + data.length then data.getD (place' - place) 0
  else m table' place'

namespace Memory

variable {m : Memory} {table place : Nat} {data : Bytes}

theorem write_nil (m : Memory) (table place : Nat) : m.write table place [] = m := by
  funext table' place'
  unfold write
  rw [if_neg]
  simp only [List.length_nil]
  omega

/-- What was written is there. -/
theorem write_inside {i : Nat} (h : i < data.length) : m.write table place data table (place + i) = data[i] := by
  unfold write
  rw [if_pos ⟨rfl, by omega⟩, Nat.add_sub_cancel_left, List.getD_eq_getElem?_getD, List.getElem?_eq_getElem h,
    Option.getD_some]

/-- Nothing else is touched. -/
theorem write_outside {table' place' : Nat}
    (h : table' ≠ table ∨ place' < place ∨ place + data.length ≤ place') :
    m.write table place data table' place' = m table' place' := by
  unfold write
  rw [if_neg]
  omega

/-- Data that follow each other are written as one. -/
theorem write_append (m : Memory) (table place : Nat) (data rest : Bytes) :
    (m.write table place data).write table (place + data.length) rest = m.write table place (data ++ rest) := by
  funext table' place'
  by_cases other : table' = table
  case neg => rw [write_outside (.inl other), write_outside (.inl other), write_outside (.inl other)]
  obtain rfl := other
  rcases Nat.lt_or_ge place' place with before | behind
  · rw [write_outside (.inr (.inl (by omega))), write_outside (.inr (.inl before)), write_outside (.inr (.inl before))]
  obtain ⟨i, rfl⟩ := Nat.exists_eq_add_of_le behind
  rcases Nat.lt_or_ge i data.length with first | later
  · have both : i < (data ++ rest).length := by
      rw [List.length_append]
      omega
    rw [write_outside (.inr (.inl (by omega))), write_inside first, write_inside both, List.getElem_append_left first]
  obtain ⟨j, rfl⟩ := Nat.exists_eq_add_of_le later
  rcases Nat.lt_or_ge j rest.length with second | beyond
  · have both : data.length + j < (data ++ rest).length := by
      rw [List.length_append]
      omega
    rw [← Nat.add_assoc, write_inside second, Nat.add_assoc, write_inside both,
      List.getElem_append_right (Nat.le_add_right _ _)]
    simp
  · have past : place + (data ++ rest).length ≤ place + (data.length + j) := by
      rw [List.length_append]
      omega
    rw [write_outside (.inr (.inr (by omega))), write_outside (.inr (.inr (by omega))), write_outside (.inr (.inr past))]

end Memory

/-- What a meter does that carries a request out. A write of a whole table leaves open what is behind the data. -/
def TableRequest.Applies (m m' : Memory) : TableRequest → Prop
  | .writeFull table data =>
    ∀ table' place, table' ≠ table ∨ place < data.length → m' table' place = m.write table 0 data table' place
  | .writePartial table place data => m' = m.write table place data
  | .readFull _ | .readPartial .. => m' = m

theorem TableRequest.exists_applies (m : Memory) (q : TableRequest) : ∃ m', q.Applies m m' := by
  cases q with
  | writeFull table data => exact ⟨m.write table 0 data, fun _ _ _ => rfl⟩
  | writePartial table place data => exact ⟨_, rfl⟩
  | readFull | readPartial => exact ⟨m, rfl⟩

/-- What a meter does that carries requests out, one after the other. -/
def TableRequest.ApplyAll : List TableRequest → Memory → Memory → Prop
  | [], m, m' => m' = m
  | q :: rest, m, m' => ∃ next, q.Applies m next ∧ ApplyAll rest next m'

/-- A meter whose tables were those of `m` before and are those of `m'` behind these transactions: it has carried
out what it has accepted, and nothing that it has refused. Of a request without an answer nobody knows. -/
inductive Meter : (m : Memory) → List Transaction → (m' : Memory) → Prop where
  | nothing {m : Memory} : Meter m [] m
  | applied {m next m' : Memory} {q : TableRequest} {t : Transaction} {made : List Transaction}
      (asks : TableRequest.ofBytes t.request.bytes = some q) (accepted : t.Accepted) (applies : q.Applies m next)
      (rest : Meter next made m') : Meter m (t :: made) m'
  | refused {m m' : Memory} {code : NokCode} {t : Transaction} {made : List Transaction} (refused : t.RefusedWith code)
      (rest : Meter m made m') : Meter m (t :: made) m'
  | unanswered {m next m' : Memory} {t : Transaction} {made : List Transaction} (accepted : ¬ t.Accepted)
      (refused : ∀ code, ¬ t.RefusedWith code) (rest : Meter next made m') : Meter m (t :: made) m'

namespace Meter

/-- There is such a meter for all transactions in which only requests for tables are accepted. -/
theorem exists_of_asks (m : Memory) {made : List Transaction}
    (asks : ∀ t ∈ made, ∃ q, TableRequest.ofBytes t.request.bytes = some q) : ∃ m', Meter m made m' := by
  induction made generalizing m with
  | nil => exact ⟨m, .nothing⟩
  | cons t rest ih =>
    obtain ⟨⟨q, same⟩, later⟩ := List.forall_mem_cons.1 asks
    by_cases accepted : t.Accepted
    · obtain ⟨next, applies⟩ := q.exists_applies m
      exact (ih next later).imp fun _ => .applied same accepted applies
    by_cases refused : ∃ code, t.RefusedWith code
    · obtain ⟨code, refused⟩ := refused
      exact (ih m later).imp fun _ => .refused refused
    · exact (ih m later).imp fun _ => .unanswered accepted (not_exists.1 refused)

variable {m m' : Memory} {q : TableRequest} {t : Transaction} {busy made : List Transaction} {code : NokCode}

theorem of_refused (h : Meter m (t :: made) m') (refused : t.RefusedWith code) : Meter m made m' := by
  cases h with
  | applied _ accepted => exact absurd accepted refused.not_accepted
  | refused _ rest => exact rest
  | unanswered _ unheard => exact absurd refused (unheard code)

theorem of_accepted (h : Meter m (t :: made) m') (asks : TableRequest.ofBytes t.request.bytes = some q)
    (accepted : t.Accepted) : ∃ next, q.Applies m next ∧ Meter next made m' := by
  cases h with
  | applied asks' _ applies rest =>
    obtain rfl := Option.some.inj (asks.symm.trans asks')
    exact ⟨_, applies, rest⟩
  | refused refused => exact absurd accepted refused.not_accepted
  | unanswered unheard => exact absurd accepted unheard

/-- A busy meter changes nothing. -/
theorem of_busy (h : Meter m (busy ++ made) m') (waited : ∀ u ∈ busy, u.FoundBusy) : Meter m made m' := by
  induction busy with
  | nil => exact h
  | cons u rest ih =>
    obtain ⟨found, later⟩ := List.forall_mem_cons.1 waited
    exact ih (found.elim h.of_refused h.of_refused) later

end Meter

end Metering
