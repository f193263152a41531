import Metering.Proofs.Reading

set_option autoImplicit false

/-! # Exact reads of a range

A read of a range returns what the meter has supplied, from the offset that was asked for. It is exact, so many bytes
and no fewer without a fault, exactly as far as the meter's answers add up to what was asked for: in pieces a read goes
on until it has enough, and in one piece it takes what comes (`Client.readTable_exact_iff`). -/

namespace Metering

namespace Client

open Transaction (Tries supplied)

namespace PieceRead

variable {r : PieceRead} {read : PiecesRead} {made : List Transaction} {out : Except Fault PiecesRead} {t : Transaction}
  {piece : TableData}

/-- Where nothing is missing, nothing is asked for. -/
theorem Reads.of_whole (reads : r.Reads read made out) (all : r.count ≤ read.1.length) : made = [] ∧ out = .ok read := by
  cases reads with
  | whole => exact ⟨rfl, rfl⟩
  | failed missing => exact absurd all (Nat.not_le_of_lt missing)
  | short missing => exact absurd all (Nat.not_le_of_lt missing)
  | more missing => exact absurd all (Nat.not_le_of_lt missing)
  | givenUp missing => exact absurd all (Nat.not_le_of_lt missing)

theorem supplied_of_answer {busy : List Transaction} {q : TableRequest} (tries : Tries q busy t)
    (answered : r.answer read t = .ok piece) :
    t.supply? = some piece.data ∧ (extend read piece).1 = read.1 ++ supplied (busy ++ [t]) := by
  obtain ⟨-, supply, -⟩ := Transaction.table_ok answered
  refine ⟨supply, ?_⟩
  rw [tries.supplied_eq, supply]
  rfl

/-- What a read of a range in pieces has shown when it ends. -/
structure Ended (r : PieceRead) (read : PiecesRead) (made : List Transaction) (out : Except Fault PiecesRead)
    (t : Transaction) : Prop where
  last : made.getLast? = some t
  /-- All that came is returned, and it is enough. -/
  whole : ∀ all, out = .ok all →
    all.1 = read.1 ++ supplied made ∧ r.count ≤ all.1.length ∧ ∃ data, t.supply? = some data
  /-- An answer behind which the read fails did not bring enough, or no contents. -/
  short : ∀ e, out = .error e → t.Accepted → r.limit ≠ 0 → (∃ wanted had, e = .partialData wanted had) ∧
    ∀ data, t.supply? = some data → (read.1 ++ supplied made).length < r.count

theorem Ended.of_error {e : Fault} (last : made.getLast? = some t)
    (short : t.Accepted → r.limit ≠ 0 → (∃ wanted had, e = .partialData wanted had) ∧
      ∀ data, t.supply? = some data → (read.1 ++ supplied made).length < r.count) :
    r.Ended read made (.error e) t where
  last := last
  whole _ same := by cases same
  short _ same := Except.error.inj same ▸ short

theorem Ended.of_ok {all : PiecesRead} (last : made.getLast? = some t)
    (whole : all.1 = read.1 ++ supplied made ∧ r.count ≤ all.1.length ∧ ∃ data, t.supply? = some data) :
    r.Ended read made (.ok all) t where
  last := last
  whole _ same := Except.ok.inj same ▸ whole
  short _ same := by cases same

/-- **A range in pieces** is returned with all that came for it, or it fails for want of data. -/
theorem Reads.ended (reads : r.Reads read made out) (isRange : r.isRange = true) (missing : read.1.length < r.count) :
    ∃ t, r.Ended read made out t := by
  induction reads with
  | whole all => exact absurd all (Nat.not_le_of_lt missing)
  | @failed read busy t e _ tries reason =>
    obtain ⟨nothing, short⟩ := Transaction.not_supplied reason
    refine ⟨t, .of_error (by simp) fun accepted _ => ⟨short accepted, fun data supply => ?_⟩⟩
    cases nothing.symm.trans supply
  | @short read busy t piece _ tries answered few =>
    obtain ⟨-, all⟩ := supplied_of_answer tries answered
    rw [if_pos isRange]
    refine ⟨t, .of_error (by simp) fun accepted _ => ⟨⟨_, _, rfl⟩, fun data _ => ?_⟩⟩
    rw [← all]
    simp only [extend, size, List.length_append] at few ⊢
    omega
  | @more read busy rest t piece out _ tries answered full reads ih =>
    obtain ⟨supply, all⟩ := supplied_of_answer tries answered
    by_cases left : (extend read piece).1.length < r.count
    · obtain ⟨t', ended⟩ := ih left
      have same : (extend read piece).1 ++ supplied rest = read.1 ++ supplied (busy ++ [t] ++ rest) := by
        rw [all, Transaction.supplied_append (busy ++ [t]), List.append_assoc]
      refine ⟨t', ?_, same ▸ ended.whole, same ▸ ended.short⟩
      rw [List.getLast?_append, ended.last]
      rfl
    · obtain ⟨rfl, rfl⟩ := reads.of_whole (Nat.le_of_not_lt left)
      rw [List.append_nil]
      exact ⟨t, .of_ok (by simp) ⟨all, Nat.le_of_not_lt left, _, supply⟩⟩
  | @givenUp read busy t piece _ tries answered noRoom =>
    exact ⟨t, .of_error (by simp) fun _ room => absurd noRoom room⟩

end PieceRead

end Client

namespace Client

open Transaction (Tries supplied)

variable {c c' : Client} {d : Descriptor} {offset count : UInt32} {limit : Nat} {made : List Transaction}
  {r : Except Fault TableData} {t : Transaction}

/-- What a read of a range has shown when it ends with this answer. -/
structure RangeRead (offset count : UInt32) (limit : Nat) (made : List Transaction) (r : Except Fault TableData)
    (t : Transaction) : Prop where
  last : made.getLast? = some t
  /-- All that came is returned; a read in pieces goes on until it is enough. -/
  whole : ∀ table, r = .ok table → table.offset = some offset ∧ table.data = supplied made ∧
    (limit < count.toNat → count.toNat ≤ (supplied made).length) ∧ ∃ data, t.supply? = some data
  /-- An answer behind which the read fails brought no contents, or too few of them for a read in pieces. -/
  short : ∀ e, r = .error e → t.Accepted → limit ≠ 0 → (∃ wanted had, e = .partialData wanted had) ∧
    ∀ data, t.supply? = some data → limit < count.toNat ∧ (supplied made).length < count.toNat

theorem ReadsTable.rangeRead (h : ReadsTable d limit made r) (range : d.access = .range offset count)
    (least : 0 < count.toNat) : ∃ t, RangeRead offset count limit made r t := by
  cases h with
  | whole full => cases full.symm.trans range
  | wholeInPieces full => cases full.symm.trans range
  | range range' fits reads =>
    obtain ⟨rfl, rfl⟩ := TableAccess.range.inj (range.symm.trans range')
    cases reads with
    | @failed busy t e tries reason =>
      obtain ⟨nothing, short⟩ := Transaction.not_supplied reason
      refine ⟨t, by simp, nofun, fun e' same accepted _ => ?_⟩
      obtain rfl := Except.error.inj same
      refine ⟨short accepted, fun data supply => ?_⟩
      cases nothing.symm.trans supply
    | @answered busy t table tries answered =>
      obtain ⟨-, supply, place⟩ := Transaction.table_ok answered
      refine ⟨t, by simp, fun table' same => ?_, nofun⟩
      obtain rfl := Except.ok.inj same
      have all : supplied (busy ++ [t]) = table.data := by
        rw [tries.supplied_eq, supply]
        rfl
      exact ⟨place, all.symm, fun large => absurd fits (Nat.not_le_of_lt large), _, supply⟩
  | @rangeInPieces offset' count' made out range' large reads =>
    obtain ⟨rfl, rfl⟩ := TableAccess.range.inj (range.symm.trans range')
    obtain ⟨t, ended⟩ := reads.ended rfl least
    refine ⟨t, ended.last, fun table same => ?_, fun e same accepted room => ?_⟩
    · cases out with
      | error e => cases same
      | ok all =>
        obtain ⟨came, enough, supply⟩ := ended.whole all rfl
        obtain rfl := Except.ok.inj same
        rw [List.nil_append] at came
        exact ⟨rfl, came, fun _ => came ▸ enough, supply⟩
    · cases out with
      | ok all => cases same
      | error e' =>
        obtain rfl := Except.error.inj same
        obtain ⟨short, few⟩ := ended.short _ rfl accepted room
        exact ⟨short, fun data supply => ⟨large, few data supply⟩⟩

/-- A read of a range is exact: it returns the bytes that were asked for, as many as there should be, and where the
meter does not supply as many it fails for want of data. -/
structure Exact (c : Client) (offset count : UInt32) (made : List Transaction) (r : Except Fault TableData) : Prop where
  whole : ∀ table, r = .ok table → table.offset = some offset ∧ table.data.length = count.toNat
  short : ∀ t, made.getLast? = some t → t.Accepted → (supplied made).length < count.toNat →
    ∃ wanted had, Reports c (.partialData wanted had) r

/-- **A read of a range** returns what the meter has supplied, from the offset that was asked for. So it is exact
unless the last answer carries contents and with them more was supplied than was asked for, or, where one request is
enough, less. -/
theorem readTable_exact_iff {number : UInt32} (active : c.phase = .active)
    (valid : (Descriptor.range number offset count).validate = .ok ())
    (run : (readTable (.range number offset count)).run c = (r, c')) :
    ∃ made, c'.exchanges = made.reverse ++ c.exchanges ∧
      (∀ table, r = .ok table → table.offset = some offset ∧ table.data = supplied made) ∧
      (0 < c.maxRead → (Exact c offset count made r ↔
        ∀ t data, made.getLast? = some t → t.supply? = some data → (supplied made).length ≤ count.toNat ∧
          (count.toNat ≤ c.maxRead → count.toNat ≤ (supplied made).length))) := by
  have least := ((Descriptor.valid_of_validate valid).range offset count rfl).1
  obtain ⟨made, exchanges, reads⟩ := readActive_reads active valid
  obtain ⟨t, read⟩ := reads.rangeRead rfl least
  obtain ⟨kept, same⟩ := settle_exchanges run
  rcases hx : (readActive (.range number offset count)).run c with ⟨e | table, d⟩
  all_goals rw [hx] at exchanges kept read
  · -- the read fails, and so nothing is returned
    have failed (table : TableData) : r ≠ .ok table := fun ok => by cases hx.symm.trans (same table ok)
    refine ⟨made, kept.trans exchanges, fun table ok => absurd ok (failed table), fun room => ?_⟩
    have short := read.short e rfl
    constructor
    · intro _ t' data last supply
      obtain rfl : t = t' := Option.some.inj (read.last.symm.trans last)
      obtain ⟨large, few⟩ := (short (Transaction.accepted_of_supply? supply) (Nat.ne_of_gt room)).2 data supply
      exact ⟨Nat.le_of_lt few, fun fits => absurd fits (Nat.not_le_of_lt large)⟩
    · intro _
      refine ⟨fun table ok => absurd ok (failed table), fun t' last accepted _ => ?_⟩
      obtain rfl : t = t' := Option.some.inj (read.last.symm.trans last)
      obtain ⟨⟨wanted, had, rfl⟩, -⟩ := short accepted (Nat.ne_of_gt room)
      exact ⟨wanted, had, (settle_reports (readActive_unrushed _) run hx rfl).1⟩
  · obtain ⟨rfl, rfl⟩ := Prod.mk.inj (run.symm.trans (settle_run_ok hx))
    obtain ⟨place, all, enough, data, supply⟩ := read.whole table rfl
    refine ⟨made, exchanges, fun table' ok => ?_, fun room => ⟨fun exact t' data' _ _ => ?_, fun fair => ?_⟩⟩
    · obtain rfl := Except.ok.inj ok
      exact ⟨place, all⟩
    · have length := (exact.whole table rfl).2
      rw [all] at length
      exact ⟨Nat.le_of_eq length, fun _ => Nat.le_of_eq length.symm⟩
    · obtain ⟨most, least'⟩ := fair t data read.last supply
      have length : (supplied made).length = count.toNat := by
        refine Nat.le_antisymm most ?_
        rcases Nat.lt_or_ge c.maxRead count.toNat with large | fits
        · exact enough large
        · exact least' fits
      refine ⟨fun table' ok => ?_, fun _ _ _ few => absurd few (by omega)⟩
      obtain rfl := Except.ok.inj ok
      exact ⟨place, all ▸ length⟩

/-- A range that does not fit one packet, from a meter that has all of it. -/
def splitRange : Client := terseSession [bringing (ascending 20), bringing [20, 21, 22]]

/-- It is asked for in two pieces and comes whole. -/
theorem readTable_exact_split : ∃ c' made,
    (readTable (.range 3 4 23)).run splitRange = (.ok ⟨3, some 4, ascending 23, 23, true⟩, c') ∧ made.length = 2 ∧
      Exact splitRange 4 23 made (.ok ⟨3, some 4, ascending 23, 23, true⟩) := by
  have facts : 0 < splitRange.maxRead ∧
      ((readTable (.range 3 4 23)).run splitRange).1 = .ok ⟨3, some 4, ascending 23, 23, true⟩ ∧
      ((readTable (.range 3 4 23)).run splitRange).2.exchanges.length = 2 ∧
      (supplied ((readTable (.range 3 4 23)).run splitRange).2.exchanges.reverse).length = 23 := by
    decide +kernel
  obtain ⟨room, returned, two, came⟩ := facts
  have run := Step.run_eq_of_fst returned
  obtain ⟨made, exchanges, -, exact⟩ := readTable_exact_iff rfl (by decide) run
  rw [← exchanged_terseSession exchanges] at came
  refine ⟨_, made, run, ?_, (exact room).2 fun t data _ _ => ?_⟩
  · rw [exchanged_terseSession exchanges, List.length_reverse, two]
  · rw [came]
    decide

/-- **A range that comes short in one piece is returned as it is**, and so is one that comes long, in one piece or in
several. -/
theorem readTable_inexact :
    (∀ responses, ReachedBy .c1218 terse (startedSession responses)) ∧
      (startedSession [bringing [1, 2]]).phase = .active ∧
      (Descriptor.range 3 0 4).validate = .ok () ∧ (Descriptor.range 3 0 21).validate = .ok () ∧
      (∃ c' table, (readTable (.range 3 0 4)).run (startedSession [bringing [1, 2]]) = (.ok table, c') ∧
        table.data.length < 4) ∧
      (∃ c' table, (readTable (.range 3 0 4)).run (startedSession [bringing (ascending 6)]) = (.ok table, c') ∧
        4 < table.data.length) ∧
      ∃ c' table, (readTable (.range 3 0 21)).run (startedSession [bringing (ascending 20), bringing [20, 21]]) =
        (.ok table, c') ∧ 21 < table.data.length := by
  have facts : (startedSession [bringing [1, 2]]).phase = .active ∧
      ((readTable (.range 3 0 4)).run (startedSession [bringing [1, 2]])).1 = .ok ⟨3, some 0, [1, 2], 2, true⟩ ∧
      ((readTable (.range 3 0 4)).run (startedSession [bringing (ascending 6)])).1 =
        .ok ⟨3, some 0, ascending 6, 6, true⟩ ∧
      ((readTable (.range 3 0 21)).run (startedSession [bringing (ascending 20), bringing [20, 21]])).1 =
        .ok ⟨3, some 0, ascending 22, 22, true⟩ := by
    decide +kernel
  obtain ⟨active, short, long, longInPieces⟩ := facts
  exact ⟨reachedBy_startedSession, active, by decide, by decide, ⟨_, _, Step.run_eq_of_fst short, by decide⟩,
    ⟨_, _, Step.run_eq_of_fst long, by decide⟩, ⟨_, _, Step.run_eq_of_fst longInPieces, by decide⟩⟩

end Client

end Metering
