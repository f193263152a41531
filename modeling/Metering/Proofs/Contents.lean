import Metering.Proofs.Calls
import Metering.Proofs.Requests

set_option autoImplicit false

/-! # Table contents on the wire

How a meter takes the requests for tables apart (`TableRequest.ofBytes`), and what of a table its answers carry
(`Response.carried`). Contents are counted and summed here as a meter does it. A request that is built says to the
meter what it was built for, with every number whole (`ofBytes_readPartial`, `ofBytes_writePartial`). -/

namespace Metering

/-! ## Contents -/

/-- The sum of bytes. -/
def Bytes.total (bytes : Bytes) : Nat := bytes.foldr (fun byte total => byte.toNat + total) 0

/-- Table contents as a meter takes them: a count, so many bytes, and one more that makes their sum zero. -/
def contents? : Bytes → Option Bytes
  | high :: low :: rest =>
    let count := Bytes.ofBigEndian [high, low]
    if rest.length = count + 1 ∧ Bytes.total rest % 256 = 0 then some (rest.take count) else none
  | _ => none

theorem total_concat (bytes : Bytes) (last : UInt8) : Bytes.total (bytes ++ [last]) = bytes.total + last.toNat := by
  induction bytes with
  | nil => simp [Bytes.total]
  | cons b rest ih =>
    simp only [Bytes.total, List.cons_append, List.foldr_cons] at ih ⊢
    omega

theorem foldl_add_toNat (bytes : Bytes) (first : UInt8) :
    (bytes.foldl (· + ·) first).toNat = (first.toNat + bytes.total) % 256 := by
  induction bytes generalizing first with
  | nil => simp [Bytes.total, Nat.mod_eq_of_lt first.toNat_lt]
  | cons b rest ih =>
    rw [List.foldl_cons, ih, UInt8.toNat_add]
    simp only [Bytes.total, List.foldr_cons]
    omega

/-- **The checksum** is the byte that makes the sum zero. -/
theorem eq_tableChecksum_iff {data : Bytes} {checksum : UInt8} :
    checksum = tableChecksum data ↔ Bytes.total (data ++ [checksum]) % 256 = 0 := by
  have sum : (data.foldl (· + ·) 0).toNat = data.total % 256 := by
    simpa using foldl_add_toNat data 0
  have low := checksum.toNat_lt
  rw [← UInt8.toNat_inj, tableChecksum, UInt8.toNat_sub, sum, UInt8.toNat_zero, total_concat]
  omega

/-- A number that fits its field is read back. -/
theorem ofBigEndian_two {n : Nat} (h : n ≤ 0xFFFF) : Bytes.ofBigEndian (Bytes.bigEndian 2 n) = n := by
  rw [Bytes.ofBigEndian_bigEndian]
  exact Nat.mod_eq_of_lt (Nat.lt_succ_of_le h)

theorem ofBigEndian_three {n : Nat} (h : n ≤ maxTableOffset) : Bytes.ofBigEndian (Bytes.bigEndian 3 n) = n := by
  rw [Bytes.ofBigEndian_bigEndian]
  exact Nat.mod_eq_of_lt (Nat.lt_succ_of_le h)

/-- **Contents that are built** are taken back. -/
theorem contents?_of_tableContents {data contents : Bytes} (made : Request.tableContents data = .ok contents) :
    contents? contents = some data := by
  unfold Request.tableContents at made
  split at made
  · cases made
  next short =>
    obtain rfl := Except.ok.inj made
    have taken : contents? (Bytes.bigEndian 2 data.length ++ data ++ [tableChecksum data]) =
        if (data ++ [tableChecksum data]).length = Bytes.ofBigEndian (Bytes.bigEndian 2 data.length) + 1 ∧
            Bytes.total (data ++ [tableChecksum data]) % 256 = 0 then
          some ((data ++ [tableChecksum data]).take (Bytes.ofBigEndian (Bytes.bigEndian 2 data.length))) else none := rfl
    rw [taken, ofBigEndian_two (Nat.le_of_not_gt short), if_pos ⟨by simp, eq_tableChecksum_iff.1 rfl⟩, List.take_left]

/-! ## Requests -/

/-- A request for a table, as a meter takes it. -/
inductive TableRequest where
  | readFull (table : Nat)
  | readPartial (table place count : Nat)
  | writeFull (table : Nat) (data : Bytes)
  | writePartial (table place : Nat) (data : Bytes)
  deriving DecidableEq, Repr

namespace TableRequest

/-- Takes a request apart. -/
def ofBytes : Bytes → Option TableRequest
  | code :: high :: low :: rest =>
    let table := Bytes.ofBigEndian [high, low]
    match code.toNat, rest with
    | 0x30, [] => some (.readFull table)
    | 0x3F, [p2, p1, p0, c1, c0] =>
      some (.readPartial table (Bytes.ofBigEndian [p2, p1, p0]) (Bytes.ofBigEndian [c1, c0]))
    | 0x40, contents => (contents? contents).map (.writeFull table)
    | 0x4F, p2 :: p1 :: p0 :: contents =>
      (contents? contents).map (.writePartial table (Bytes.ofBigEndian [p2, p1, p0]))
    | _, _ => none
  | _ => none

variable {table : UInt16} {place count : Nat} {data contents field : Bytes} {r : Request}

theorem table_whole (table : UInt16) : Bytes.ofBigEndian (Bytes.bigEndian 2 table.toNat) = table.toNat :=
  ofBigEndian_two (Nat.le_of_lt_succ table.toNat_lt)

theorem offsetBytes_ok (placed : Request.offsetBytes place = .ok field) :
    place ≤ maxTableOffset ∧ field = Bytes.bigEndian 3 place := by
  unfold Request.offsetBytes at placed
  split at placed
  · cases placed
  next near => exact ⟨Nat.le_of_not_gt near, (Except.ok.inj placed).symm⟩

theorem ofBytes_readFull (table : UInt16) : ofBytes (Request.readFull table).bytes = some (.readFull table.toNat) := by
  rw [← table_whole table]
  rfl

theorem ofBytes_readPartial (made : Request.readPartial table place count = .ok r) (short : count ≤ 0xFFFF) :
    ofBytes r.bytes = some (.readPartial table.toNat place count) := by
  obtain ⟨field, placed, made⟩ := Step.except_bind_ok.1 made
  obtain rfl := Except.ok.inj made
  obtain ⟨near, rfl⟩ := offsetBytes_ok placed
  have taken : ofBytes (Request.bytes ⟨.readPartial,
      Bytes.bigEndian 2 table.toNat ++ Bytes.bigEndian 3 place ++ Bytes.bigEndian 2 count⟩) =
    some (.readPartial (Bytes.ofBigEndian (Bytes.bigEndian 2 table.toNat))
      (Bytes.ofBigEndian (Bytes.bigEndian 3 place)) (Bytes.ofBigEndian (Bytes.bigEndian 2 count))) := rfl
  rw [taken, table_whole, ofBigEndian_three near, ofBigEndian_two short]

theorem ofBytes_writeFull (made : Request.writeFull table data = .ok r) :
    ofBytes r.bytes = some (.writeFull table.toNat data) := by
  obtain ⟨contents, built, made⟩ := Step.except_bind_ok.1 made
  obtain rfl := Except.ok.inj made
  have taken : ofBytes (Request.bytes ⟨.writeFull, Bytes.bigEndian 2 table.toNat ++ contents⟩) =
    (contents? contents).map (.writeFull (Bytes.ofBigEndian (Bytes.bigEndian 2 table.toNat))) := rfl
  rw [taken, table_whole, contents?_of_tableContents built, Option.map_some]

theorem ofBytes_writePartial (made : Request.writePartial table place data = .ok r) :
    ofBytes r.bytes = some (.writePartial table.toNat place data) := by
  obtain ⟨field, placed, made⟩ := Step.except_bind_ok.1 made
  obtain ⟨contents, built, made⟩ := Step.except_bind_ok.1 made
  obtain rfl := Except.ok.inj made
  obtain ⟨near, rfl⟩ := offsetBytes_ok placed
  have taken : ofBytes (Request.bytes ⟨.writePartial,
      Bytes.bigEndian 2 table.toNat ++ Bytes.bigEndian 3 place ++ contents⟩) =
    (contents? contents).map (.writePartial (Bytes.ofBigEndian (Bytes.bigEndian 2 table.toNat))
      (Bytes.ofBigEndian (Bytes.bigEndian 3 place))) := rfl
  rw [taken, table_whole, ofBigEndian_three near, contents?_of_tableContents built, Option.map_some]

/-! ### What can be asked for -/

theorem offsetBytes_made (near : place ≤ maxTableOffset) : ∃ field, Request.offsetBytes place = .ok field :=
  ⟨_, if_neg (Nat.not_lt_of_le near)⟩

theorem tableContents_made (short : data.length ≤ 0xFFFF) : ∃ contents, Request.tableContents data = .ok contents :=
  ⟨_, if_neg (Nat.not_lt_of_le short)⟩

theorem readPartial_made (table : UInt16) (near : place ≤ maxTableOffset) (short : count ≤ 0xFFFF) :
    ∃ r, Request.readPartial table place count = .ok r ∧ ofBytes r.bytes = some (.readPartial table.toNat place count) := by
  obtain ⟨field, placed⟩ := offsetBytes_made near
  obtain ⟨r, made⟩ : ∃ r, Request.readPartial table place count = .ok r :=
    ⟨_, Step.except_bind_ok.2 ⟨field, placed, rfl⟩⟩
  exact ⟨r, made, ofBytes_readPartial made short⟩

theorem writeFull_made (table : UInt16) (short : data.length ≤ 0xFFFF) :
    ∃ r, Request.writeFull table data = .ok r ∧ ofBytes r.bytes = some (.writeFull table.toNat data) := by
  obtain ⟨contents, built⟩ := tableContents_made short
  obtain ⟨r, made⟩ : ∃ r, Request.writeFull table data = .ok r :=
    ⟨_, Step.except_bind_ok.2 ⟨contents, built, rfl⟩⟩
  exact ⟨r, made, ofBytes_writeFull made⟩

theorem writePartial_made (table : UInt16) (near : place ≤ maxTableOffset) (short : data.length ≤ 0xFFFF) :
    ∃ r, Request.writePartial table place data = .ok r ∧
      ofBytes r.bytes = some (.writePartial table.toNat place data) := by
  obtain ⟨field, placed⟩ := offsetBytes_made near
  obtain ⟨contents, built⟩ := tableContents_made short
  obtain ⟨r, made⟩ : ∃ r, Request.writePartial table place data = .ok r :=
    ⟨_, Step.except_bind_ok.2 ⟨field, placed, Step.except_bind_ok.2 ⟨contents, built, rfl⟩⟩⟩
  exact ⟨r, made, ofBytes_writePartial made⟩

end TableRequest

/-! ## Answers -/

/-- The table data at the front of the results of a read: a count, so many bytes, and at least one more. -/
def leading? : Bytes → Option Bytes
  | high :: low :: rest =>
    let count := Bytes.ofBigEndian [high, low]
    if count < rest.length then some (rest.take count) else none
  | _ => none

theorem leading?_of_contents? {contents data : Bytes} (h : contents? contents = some data) :
    leading? contents = some data := by
  unfold contents? at h
  split at h
  next high low rest =>
    dsimp only at h
    split at h
    next holds => exact (if_pos (by omega)).trans h
    next => cases h
  next => cases h

section Taken

variable (number : UInt16) (offset : Option UInt32) {results data : Bytes}

theorem parse_take_some (h : leading? results = some data) :
    Reader.parse (TableData.take number offset) results =
      .ok ⟨number, offset, data, data.length, results.getD (data.length + 2) 0 = tableChecksum data⟩ := by
  unfold leading? at h
  split at h
  next high low rest =>
    have counted : (Reader.number 2).run ⟨0, high :: low :: rest⟩ =
        (.ok (Bytes.ofBigEndian [high, low]), ⟨2, rest⟩) := rfl
    unfold Reader.parse Reader.ofBytes TableData.take
    rw [Step.run_bind_of_ok counted, Step.run_bind_of_ok (Reader.run_remaining _)]
    revert h
    generalize Bytes.ofBigEndian [high, low] = count
    intro h
    dsimp only at h ⊢
    split at h
    next enough =>
      obtain rfl := Option.some.inj h
      have taken : (Reader.take count).run ⟨2, rest⟩ = (.ok (rest.take count), ⟨2 + count, rest.drop count⟩) := by
        rw [Reader.run_take, if_neg (Nat.not_lt_of_lt enough)]
      rw [if_neg (by omega), Step.run_bind_of_ok taken, List.drop_eq_getElem_cons enough,
        Step.run_bind_of_ok (Reader.run_byte _ _ _)]
      simp [Nat.min_eq_left (Nat.le_of_lt enough), enough]
    next => cases h
  next => cases h

theorem parse_take_none (h : leading? results = none) :
    ∃ wanted had, Reader.parse (TableData.take number offset) results = .error (.partialData wanted had) := by
  unfold leading? at h
  split at h
  next high low rest =>
    dsimp only at h
    split at h
    · cases h
    next few =>
      have counted : (Reader.number 2).run ⟨0, high :: low :: rest⟩ =
          (.ok (Bytes.ofBigEndian [high, low]), ⟨2, rest⟩) := rfl
      unfold Reader.parse Reader.ofBytes TableData.take
      rw [Step.run_bind_of_ok counted, Step.run_bind_of_ok (Reader.run_remaining _),
        if_pos (Nat.lt_succ_of_le (Nat.le_of_not_lt few))]
      exact ⟨_, _, rfl⟩
  next short =>
    rcases results with _ | ⟨high, _ | ⟨low, rest⟩⟩
    · exact ⟨_, _, rfl⟩
    · exact ⟨_, _, rfl⟩
    · exact absurd rfl (short high low rest)

end Taken

namespace Transaction

/-- What the answer has behind a code that says that the service was carried out. -/
def results (t : Transaction) : Except Fault Bytes := t.result >>= Response.results

/-- The answer says that the service was carried out. -/
def Accepted (t : Transaction) : Prop := ∃ results, t.results = .ok results

/-- The table data that the answer carries. -/
def supply? (t : Transaction) : Option Bytes :=
  match t.results with
  | .ok results => leading? results
  | .error _ => none

/-- The table data that transactions have brought, in their order. -/
def supplied (made : List Transaction) : Bytes := made.flatMap fun t => t.supply?.getD []

/-- What a client makes of the answer to a read. -/
def table (t : Transaction) (number : UInt16) (offset : Option UInt32) : Except Fault TableData :=
  t.results >>= Reader.parse (TableData.take number offset)

variable {t : Transaction} {number : UInt16} {offset : Option UInt32} {table : TableData} {e : Fault} {data : Bytes}

theorem accepted_iff : t.Accepted ↔ t.results.toOption.isSome = true := by
  unfold Accepted
  rcases t.results with e | results <;> simp [Except.toOption]

instance (t : Transaction) : Decidable t.Accepted := decidable_of_iff' _ accepted_iff

/-- **What a client takes** from an answer is what the answer carries. -/
theorem table_ok (h : t.table number offset = .ok table) :
    t.Accepted ∧ t.supply? = some table.data ∧ table.offset = offset := by
  obtain ⟨results, accepted, taken⟩ := Step.except_bind_ok.1 h
  refine ⟨⟨results, accepted⟩, ?_⟩
  unfold supply?
  rw [accepted]
  dsimp only
  rcases hl : leading? results with _ | data
  · obtain ⟨wanted, had, short⟩ := parse_take_none number offset hl
    cases short.symm.trans taken
  · obtain rfl := Except.ok.inj ((parse_take_some number offset hl).symm.trans taken)
    exact ⟨rfl, rfl⟩

theorem table_error (h : t.table number offset = .error e) :
    t.supply? = none ∧ (t.Accepted → ∃ wanted had, e = .partialData wanted had) := by
  unfold Transaction.table at h
  unfold supply? Accepted
  rcases answered : t.results with e' | results
  · exact ⟨rfl, fun ⟨_, ok⟩ => nomatch ok⟩
  · rw [answered] at h
    replace h : Reader.parse (TableData.take number offset) results = .error e := h
    dsimp only
    rcases hl : leading? results with _ | data
    · obtain ⟨wanted, had, short⟩ := parse_take_none number offset hl
      exact ⟨rfl, fun _ => ⟨wanted, had, Except.error.inj (h.symm.trans short)⟩⟩
    · cases (parse_take_some number offset hl).symm.trans h

theorem accepted_of_supply? (h : t.supply? = some data) : t.Accepted := by
  unfold supply? at h
  rcases answered : t.results with e | results
  · rw [answered] at h
    cases h
  · exact ⟨results, answered⟩

theorem RefusedWith.not_accepted {code : NokCode} (h : t.RefusedWith code) : ¬ t.Accepted := by
  obtain ⟨response, extra, result, refused⟩ := h
  rintro ⟨results, accepted⟩
  obtain ⟨response', result', accepted⟩ := Step.except_bind_ok.1 accepted
  obtain rfl := Except.ok.inj (result.symm.trans result')
  cases accepted.symm.trans refused

theorem FoundBusy.not_accepted (h : t.FoundBusy) : ¬ t.Accepted := h.elim RefusedWith.not_accepted RefusedWith.not_accepted

/-- A refusal that repetition does not change is not that of a busy meter. -/
theorem not_busy_of_refused {code : NokCode} (h : t.RefusedWith code) (lasting : code.isRetryable = false) :
    ¬ t.FoundBusy := by
  obtain ⟨response, extra, result, refused⟩ := h
  rintro (⟨response', extra', result', again⟩ | ⟨response', extra', result', again⟩)
  all_goals
    obtain rfl := Except.ok.inj (result.symm.trans result')
    obtain ⟨rfl, -⟩ := Fault.nok.inj (Except.error.inj (refused.symm.trans again))
    cases lasting

theorem FoundBusy.supply?_eq (h : t.FoundBusy) : t.supply? = none :=
  Option.eq_none_iff_forall_ne_some.2 fun _ some => h.not_accepted (accepted_of_supply? some)

/-- An answer behind which a read fails has brought nothing. If it was accepted, its contents were cut short. -/
theorem not_supplied (reason : t.table number offset = .error e ∨ t.FoundBusy) :
    t.supply? = none ∧ (t.Accepted → ∃ wanted had, e = .partialData wanted had) := by
  rcases reason with answered | found
  · exact table_error answered
  · exact ⟨found.supply?_eq, fun accepted => absurd accepted found.not_accepted⟩

end Transaction

end Metering
