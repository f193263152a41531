import Metering.Proofs.Reading

set_option autoImplicit false

/-! # Reads of a faithful meter

A meter that holds tables answers each read with the part of them that it is for (`Transaction.Faithful`). Reads in
pieces give what a read of the whole gives, whatever the limit of a piece is, and the pieces of a range are its tiles
(`Client.readTable_faithful`). -/

namespace Metering

/-! ## Tiles -/

/-- The pieces, each with its place and its size, that so many bytes are cut into. -/
def tiles (limit total : Nat) : List (Nat × Nat) :=
  (List.range ((total + limit - 1) / limit)).map fun i => (i * limit, min limit (total - i * limit))

section Tiles

variable {limit total : Nat} (room : 0 < limit)

include room

theorem tiles_zero : tiles limit 0 = [] := by
  have none : (0 + limit - 1) / limit = 0 := Nat.div_eq_of_lt (by omega)
  rw [tiles, none]
  rfl

theorem tiles_pos (some : 0 < total) :
    tiles limit total = (0, min limit total) :: (tiles limit (total - limit)).map fun tile => (tile.1 + limit, tile.2) := by
  have more : (total + limit - 1) / limit = (total - limit + limit - 1) / limit + 1 := by
    rcases Nat.lt_or_ge total limit with small | large
    · rw [Nat.sub_eq_zero_of_le (Nat.le_of_lt small), Nat.div_eq_of_lt (by omega : 0 + limit - 1 < limit)]
      exact Nat.div_eq_of_lt_le (by omega) (by omega)
    · rw [Nat.sub_add_cancel large, ← Nat.add_div_right _ room]
      congr 1
      omega
  have later (i : Nat) : ((i + 1) * limit, min limit (total - (i + 1) * limit)) =
      (i * limit + limit, min limit (total - limit - i * limit)) := by
    rw [Nat.add_mul, Nat.one_mul, Nat.sub_sub, Nat.add_comm limit]
  rw [tiles, more, List.range_succ_eq_map, List.map_cons, List.map_map, tiles, List.map_map]
  simp only [Nat.zero_mul, Nat.sub_zero]
  congr 1
  exact List.map_congr_left fun i _ => later i

end Tiles

/-! ## Meters that hold tables -/

/-- The part of the tables that a read is for. -/
def TableRequest.part (tables : Nat → Bytes) : TableRequest → Option Bytes
  | .readFull table => some (tables table)
  | .readPartial table place count => some (((tables table).drop place).take count)
  | _ => none

/-- A meter that holds these tables has answered a read with the part of them that it is for. -/
def Transaction.Faithful (tables : Nat → Bytes) (t : Transaction) : Prop :=
  ∃ q contents part, TableRequest.ofBytes t.request.bytes = some q ∧ q.part tables = some part ∧
    t.results = .ok contents ∧ contents? contents = some part

theorem Transaction.faithful_iff {tables : Nat → Bytes} {t : Transaction} :
    t.Faithful tables ↔ ∃ q ∈ TableRequest.ofBytes t.request.bytes, ∃ part ∈ q.part tables,
      ∃ contents ∈ t.results.toOption, contents? contents = some part := by
  constructor
  · rintro ⟨q, contents, part, same, asked, results, built⟩
    exact ⟨q, same, part, asked, contents, by rw [results]; rfl, built⟩
  · rintro ⟨q, same, part, asked, contents, results, built⟩
    refine ⟨q, contents, part, same, asked, ?_, built⟩
    rcases answered : t.results with e | found
    · rw [answered] at results
      cases results
    · rw [answered] at results
      rw [Option.some.inj results]

instance (tables : Nat → Bytes) (t : Transaction) : Decidable (t.Faithful tables) :=
  decidable_of_iff' _ Transaction.faithful_iff

theorem parse_take_contents (number : UInt16) (offset : Option UInt32) {contents data : Bytes}
    (h : contents? contents = some data) :
    Reader.parse (TableData.take number offset) contents = .ok ⟨number, offset, data, data.length, true⟩ := by
  rw [parse_take_some number offset (leading?_of_contents? h)]
  unfold contents? at h
  split at h
  next high low rest =>
    dsimp only at h
    split at h
    next holds =>
      obtain ⟨length, zero⟩ := holds
      generalize Bytes.ofBigEndian [high, low] = count at h length
      obtain rfl := Option.some.inj h
      have enough : count < rest.length := by omega
      have taken : (rest.take count).length = count := by
        rw [List.length_take]
        omega
      have last : rest.drop count = [rest[count]] := by
        rw [List.drop_eq_getElem_cons enough, List.drop_eq_nil_of_le (by omega)]
      have cut : rest = rest.take count ++ [rest[count]] := by rw [← last, List.take_append_drop]
      have sum : rest[count] = tableChecksum (rest.take count) := eq_tableChecksum_iff.2 (cut ▸ zero)
      have behind : (high :: low :: rest).getD ((rest.take count).length + 2) 0 = rest[count] := by
        rw [taken]
        simp [List.getD, enough]
      rw [behind, sum]
      simp
    next => cases h
  next => cases h

namespace Transaction

variable {tables : Nat → Bytes} {t : Transaction} {q : TableRequest}

theorem Faithful.not_busy (h : t.Faithful tables) : ¬ t.FoundBusy := by
  obtain ⟨-, contents, -, -, -, results, -⟩ := h
  exact fun found => found.not_accepted ⟨contents, results⟩

/-- What a client makes of a faithful answer. -/
theorem Faithful.table (h : t.Faithful tables) (asks : TableRequest.ofBytes t.request.bytes = some q) :
    ∃ part, q.part tables = some part ∧
      ∀ number offset, t.table number offset = .ok ⟨number, offset, part, part.length, true⟩ := by
  obtain ⟨q', contents, part, same, asked, results, built⟩ := h
  obtain rfl := Option.some.inj (asks.symm.trans same)
  refine ⟨part, asked, fun number offset => ?_⟩
  unfold Transaction.table
  rw [results]
  exact parse_take_contents number offset built

end Transaction

namespace Client.PieceRead

open Transaction (Tries)

variable {r : PieceRead} {read : PiecesRead} {made busy : List Transaction} {out : Except Fault PiecesRead}
  {tables : Nat → Bytes} {t : Transaction} {piece : TableData}

/-- The part of its table that a read in pieces is for. -/
def target (r : PieceRead) (tables : Nat → Bytes) : Bytes := (tables r.number.toNat).drop r.offset.toNat

/-- A faithful answer continues what was read. -/
theorem piece_of_faithful (tries : Tries (r.asks read) busy t) (faithful : t.Faithful tables)
    (answered : r.answer read t = .ok piece) :
    piece.data = ((r.target tables).drop read.1.length).take (r.size read) ∧ piece.checksumValid = true := by
  obtain ⟨part, asked, taken⟩ := faithful.table (tries.same t (by simp))
  obtain rfl := Except.ok.inj ((taken _ _).symm.trans answered)
  refine ⟨?_, rfl⟩
  rw [target, List.drop_drop]
  exact (Option.some.inj asked).symm

/-- The requests for the tiles of what is missing. -/
def tiled (r : PieceRead) (read : PiecesRead) : List TableRequest :=
  (tiles r.limit (r.count - read.1.length)).map fun tile => .readPartial r.number.toNat (r.place read + tile.1) tile.2

theorem tiled_whole (room : 0 < r.limit) (all : r.count ≤ read.1.length) : r.tiled read = [] := by
  rw [tiled, Nat.sub_eq_zero_of_le all, tiles_zero room]
  rfl

/-- The next piece is the first tile. -/
theorem tiled_more {next : PiecesRead} (room : 0 < r.limit) (missing : read.1.length < r.count)
    (length : next.1.length = read.1.length + r.size read) : r.tiled read = r.asks read :: r.tiled next := by
  have left : r.count - next.1.length = r.count - read.1.length - r.limit := by
    simp only [size] at length
    omega
  rw [tiled, tiles_pos room (Nat.sub_pos_of_lt missing), List.map_cons, List.map_map, tiled, left, asks, size,
    Nat.min_comm]
  congr 1
  rcases Nat.lt_or_ge (r.count - read.1.length) r.limit with last | whole
  · rw [Nat.sub_eq_zero_of_le (Nat.le_of_lt last), tiles_zero room]
    rfl
  · have moved (place' : Nat) : r.place read + (place' + r.limit) = r.place next + place' := by
      simp only [place, size] at length ⊢
      omega
    exact List.map_congr_left fun tile _ => congrArg (TableRequest.readPartial _ · _) (moved tile.1)

/-- A full piece continues what was read. -/
theorem extend_of_full (known : read.1 <+: r.target tables)
    (data : piece.data = ((r.target tables).drop read.1.length).take (r.size read))
    (full : r.size read ≤ piece.data.length) :
    (extend read piece).1 <+: r.target tables ∧ (extend read piece).1.length = read.1.length + r.size read := by
  constructor
  · rw [extend, data, ← List.prefix_iff_eq_append.1 known]
    simp only [List.drop_append_of_le_length (Nat.le_refl _), List.drop_length, List.nil_append]
    exact (List.prefix_append_right_inj read.1).2 (List.take_prefix _ _)
  · have length : piece.data.length = r.size read := by
      refine Nat.le_antisymm ?_ full
      rw [data]
      exact List.length_take_le _ _
    rw [extend, List.length_append, length]

/-- A piece is short only where the table ends. -/
theorem extend_of_short (known : read.1 <+: r.target tables)
    (data : piece.data = ((r.target tables).drop read.1.length).take (r.size read))
    (few : piece.data.length < r.size read) :
    (extend read piece).1 = r.target tables ∧ (r.target tables).length < read.1.length + r.size read := by
  have ended : ((r.target tables).drop read.1.length).length < r.size read := by
    rw [data, List.length_take] at few
    omega
  constructor
  · rw [extend, data, List.take_of_length_le (Nat.le_of_lt ended)]
    exact List.prefix_iff_eq_append.1 known
  · rw [List.length_drop] at ended
    omega

/-- **A read in pieces from a faithful meter** returns the part that it is for, and asks for it tile by tile. -/
theorem Reads.faithful (reads : r.Reads read made out) (room : 0 < r.limit) (faithful : ∀ t ∈ made, t.Faithful tables)
    (known : read.1 <+: r.target tables) (few : read.1.length ≤ r.count) (sums : read.2 = true)
    (inside : if r.isRange then r.count ≤ (r.target tables).length else (r.target tables).length ≤ r.count) :
    out = .ok ((r.target tables).take r.count, true) ∧
      (r.isRange = true → made.map (fun t => TableRequest.ofBytes t.request.bytes) = (r.tiled read).map some) := by
  induction reads with
  | @whole read all =>
    have length : read.1.length = r.count := Nat.le_antisymm few all
    constructor
    · rw [← length, ← List.prefix_iff_eq_take.1 known, ← sums]
    · rw [tiled_whole room all]
      exact fun _ => rfl
  | @failed read busy t e missing tries reason =>
    have answers := faithful t (by simp)
    obtain ⟨part, -, taken⟩ := answers.table (tries.same t (by simp))
    rcases reason with answered | found
    · cases (taken _ _).symm.trans answered
    · exact absurd found answers.not_busy
  | @short read busy t piece missing tries answered less =>
    obtain ⟨data, valid⟩ := piece_of_faithful tries (faithful t (by simp)) answered
    obtain ⟨rest, ended⟩ := extend_of_short known data less
    have size : r.size read ≤ r.count - read.1.length := Nat.min_le_left _ _
    cases range : r.isRange with
    | true =>
      rw [if_pos range] at inside
      omega
    | false =>
      rw [range, if_neg Bool.false_ne_true] at inside
      rw [if_neg Bool.false_ne_true]
      have all : extend read piece = ((r.target tables).take r.count, true) := by
        rw [List.take_of_length_le inside, ← rest, ← valid, ← Bool.true_and piece.checksumValid, ← sums]
        rfl
      exact ⟨congrArg _ all, nofun⟩
  | @more read busy rest t piece out missing tries answered full reads ih =>
    obtain ⟨here, later⟩ := List.forall_mem_append.1 faithful
    obtain ⟨data, valid⟩ := piece_of_faithful tries (here t (by simp)) answered
    obtain rfl := tries.alone fun u mem => (here u mem).not_busy
    obtain ⟨known', length⟩ := extend_of_full known data full
    have size : r.size read ≤ r.count - read.1.length := Nat.min_le_left _ _
    obtain ⟨result, asked⟩ := ih later known' (by omega) (by rw [extend, sums, valid]; rfl)
    refine ⟨result, fun range => ?_⟩
    rw [tiled_more room missing length, List.map_append, asked range, List.map_cons, ← tries.same t (by simp)]
    rfl
  | givenUp missing tries answered noRoom => omega

end Client.PieceRead

namespace Descriptor

/-- The table has what is read: a range lies in it, and the size that is expected is not too small. -/
def Inside (d : Descriptor) (table : Bytes) : Prop :=
  match d.access with
  | .full => ∀ size ∈ d.expectedSize, table.length ≤ size.toNat
  | .range offset count => offset.toNat + count.toNat ≤ table.length

/-- The part of a table that is read. -/
def part (d : Descriptor) (table : Bytes) : Bytes :=
  match d.access with
  | .full => table
  | .range offset count => (table.drop offset.toNat).take count.toNat

/-- The offset that is asked for. -/
def offset? (d : Descriptor) : Option UInt32 :=
  match d.access with
  | .full => none
  | .range offset _ => some offset

end Descriptor

namespace Client

open Transaction (Tries supplied)

variable {c c' : Client} {d : Descriptor} {limit : Nat} {made : List Transaction} {r : Except Fault TableData}
  {tables : Nat → Bytes}

theorem ReadsOnce.faithful {q : TableRequest} {number : UInt16} {offset : Option UInt32}
    (h : ReadsOnce q number offset made r) (faithful : ∀ t ∈ made, t.Faithful tables) :
    ∃ part, q.part tables = some part ∧ r = .ok ⟨number, offset, part, part.length, true⟩ ∧
      made.map (fun t => TableRequest.ofBytes t.request.bytes) = [some q] := by
  cases h with
  | @failed busy t e tries reason =>
    have answers := faithful t (by simp)
    obtain ⟨part, -, taken⟩ := answers.table (tries.same t (by simp))
    rcases reason with answered | found
    · cases (taken _ _).symm.trans answered
    · exact absurd found answers.not_busy
  | @answered busy t table tries answered =>
    obtain ⟨part, asked, taken⟩ := (faithful t (by simp)).table (tries.same t (by simp))
    obtain rfl := tries.alone fun u mem => (faithful u mem).not_busy
    refine ⟨part, asked, answered.symm.trans (taken _ _), ?_⟩
    simpa using tries.same t (by simp)

/-- **A read of a table** that a meter answers faithfully. -/
theorem ReadsTable.faithful (h : ReadsTable d limit made r) (valid : d.Valid) (room : 0 < limit)
    (faithful : ∀ t ∈ made, t.Faithful tables) (inside : d.Inside (tables d.number.toNat)) :
    r = .ok ⟨d.wireNumber, d.offset?, d.part (tables d.number.toNat), (d.part (tables d.number.toNat)).length, true⟩ ∧
      ∀ offset count, d.access = .range offset count →
        made.map (fun t => TableRequest.ofBytes t.request.bytes) =
          (tiles limit count.toNat).map fun tile =>
            some (.readPartial d.number.toNat (offset.toNat + tile.1) tile.2) := by
  cases h with
  | whole full fits reads =>
    obtain ⟨part, asked, result, -⟩ := reads.faithful faithful
    obtain rfl := Option.some.inj asked
    simp only [Descriptor.part, Descriptor.offset?, full]
    exact ⟨result, nofun⟩
  | @wholeInPieces made out full large reads =>
    have expects : (tables d.number.toNat).length ≤ d.expected := by
      simp only [Descriptor.Inside, full] at inside
      rcases size : d.expectedSize with _ | size
      · simp only [Descriptor.expected, size] at large
        exact absurd large (Nat.not_lt_zero _)
      · simp only [Descriptor.expected, size]
        exact inside _ size
    obtain ⟨result, -⟩ := reads.faithful room faithful List.nil_prefix (Nat.zero_le _) rfl
      (by simpa [PieceRead.target, valid.wireNumber] using expects)
    simp only [Descriptor.part, Descriptor.offset?, full]
    refine ⟨?_, nofun⟩
    rw [result]
    simp [PieceRead.target, valid.wireNumber, PieceRead.result, Except.map, List.take_of_length_le expects]
  | @range offset count made out range fits reads =>
    obtain ⟨part, asked, result, only⟩ := reads.faithful faithful
    obtain rfl := Option.some.inj asked
    have least := (valid.range offset count range).1
    simp only [Descriptor.part, Descriptor.offset?, range]
    refine ⟨result, fun offset' count' same => ?_⟩
    obtain ⟨rfl, rfl⟩ := TableAccess.range.inj same
    rw [only, tiles_pos room least, Nat.sub_eq_zero_of_le fits, tiles_zero room, Nat.min_eq_right fits]
    rfl
  | @rangeInPieces offset count made out range large reads =>
    have within : count.toNat ≤ ((tables d.number.toNat).drop offset.toNat).length := by
      simp only [Descriptor.Inside, range] at inside
      rw [List.length_drop]
      omega
    obtain ⟨result, asked⟩ := reads.faithful room faithful List.nil_prefix (Nat.zero_le _) rfl
      (by simpa [PieceRead.target, valid.wireNumber] using within)
    simp only [Descriptor.part, Descriptor.offset?, range]
    constructor
    · rw [result]
      simp [PieceRead.target, valid.wireNumber, PieceRead.result, Except.map]
    · intro offset' count' same
      obtain ⟨rfl, rfl⟩ := TableAccess.range.inj same
      rw [asked rfl, PieceRead.tiled]
      simp [valid.wireNumber, PieceRead.place]

/-- **Reads in pieces equal whole reads.** -/
theorem readTable_faithful (active : c.phase = .active) (room : 0 < c.maxRead) (valid : d.validate = .ok ())
    (run : (readTable d).run c = (r, c')) :
    ∃ made : List Transaction, c'.exchanges = made.reverse ++ c.exchanges ∧
      (∀ t ∈ made, ∃ q, TableRequest.ofBytes t.request.bytes = some q ∧ d.Asks c.maxRead q) ∧
      ∀ tables, (∀ t ∈ made, t.Faithful tables) → d.Inside (tables d.number.toNat) →
        r = .ok ⟨d.wireNumber, d.offset?, d.part (tables d.number.toNat), (d.part (tables d.number.toNat)).length, true⟩ ∧
        ∀ offset count, d.access = .range offset count →
          made.map (fun t => TableRequest.ofBytes t.request.bytes) =
              ((tiles c.maxRead count.toNat).map fun tile =>
                some (.readPartial d.number.toNat (offset.toNat + tile.1) tile.2)) ∧
            made.length = (count.toNat + c.maxRead - 1) / c.maxRead := by
  have holds := Descriptor.valid_of_validate valid
  obtain ⟨made, exchanges, reads⟩ := readActive_reads active valid
  refine ⟨made, (settle_exchanges run).1.trans exchanges, (reads.asks holds).2, fun tables faithful inside => ?_⟩
  obtain ⟨result, asked⟩ := reads.faithful holds room faithful inside
  have settled := settle_run_ok (Step.run_eq_of_fst result)
  refine ⟨congrArg Prod.fst (run.symm.trans settled), fun offset count range => ?_⟩
  have tiled := asked offset count range
  refine ⟨tiled, ?_⟩
  have length := congrArg List.length tiled
  simpa [tiles] using length

/-- A meter whose table 3 has 30 bytes, and no other table any. -/
def oneTable (table : Nat) : Bytes := if table = 3 then ascending 30 else []

/-- Its answers to a read of 23 bytes in packets of 32. -/
def faithfulSession : Client := terseSession [bringing ((ascending 24).drop 4), bringing ((ascending 27).drop 24)]

/-- The range comes in two pieces, as it is in the table. -/
theorem readTable_faithful_split : ∃ (made : List Transaction) (c' : Client),
    (readTable (.range 3 4 23)).run faithfulSession = (.ok ⟨3, some 4, (ascending 27).drop 4, 23, true⟩, c') ∧
      c'.exchanges = made.reverse ∧ (∀ t ∈ made, t.Faithful oneTable) ∧ made.length = 2 ∧
      made.map (fun t => TableRequest.ofBytes t.request.bytes) =
        [some (.readPartial 3 4 20), some (.readPartial 3 24 3)] := by
  have room : 0 < faithfulSession.maxRead := by decide +kernel
  have answers : ∀ t ∈ ((readTable (.range 3 4 23)).run faithfulSession).2.exchanges.reverse, t.Faithful oneTable := by
    decide +kernel
  rcases run : (readTable (.range 3 4 23)).run faithfulSession with ⟨r, c'⟩
  rw [run] at answers
  obtain ⟨made, exchanges, -, faithful⟩ := readTable_faithful rfl room (by decide) run
  rw [← exchanged_terseSession exchanges] at answers
  have inside : (4 : UInt32).toNat + (23 : UInt32).toNat ≤ (oneTable 3).length := by decide
  obtain ⟨result, asked⟩ := faithful oneTable answers inside
  obtain ⟨tiled, count⟩ := asked 4 23 rfl
  have limit : faithfulSession.maxRead = 20 := by decide +kernel
  rw [limit] at tiled count
  refine ⟨made, c', ?_, ?_, answers, count, tiled⟩
  · rw [result]
    rfl
  · rw [exchanges]
    exact List.append_nil _

end Client

end Metering
