import Metering.Proofs.ClientAlarms
import Metering.Proofs.Outcomes

set_option autoImplicit false

/-! # Reads of tables

A read of a table asks once, or for one piece after the other (`Client.ReadsTable`, `Client.PieceRead.Reads`): a relation
between what was handed over and what comes of it, with one case for each way a piece can end. It holds of the client's
reads (`readActive_reads`), whose loop is not cut off while there is room for a byte. What is asked for lies within what
is to be read, with every number whole (`ReadsTable.asks`). -/

namespace Metering

/-! ## Reads in pieces -/

namespace Client

open Transaction (Tries supplied)

namespace PieceRead

/-- The place of the next piece. -/
def place (r : PieceRead) (read : PiecesRead) : Nat := r.offset.toNat + read.1.length

/-- The most bytes of the next piece. -/
def size (r : PieceRead) (read : PiecesRead) : Nat := min (r.count - read.1.length) r.limit

/-- What is asked for next. -/
def asks (r : PieceRead) (read : PiecesRead) : TableRequest := .readPartial r.number.toNat (r.place read) (r.size read)

/-- What the client makes of the answer to it. -/
def answer (r : PieceRead) (read : PiecesRead) (t : Transaction) : Except Fault TableData :=
  t.table r.number (some (r.offset + UInt32.ofNat read.1.length))

/-- What is read behind a further piece. -/
def extend (read : PiecesRead) (piece : TableData) : PiecesRead := (read.1 ++ piece.data, read.2 && piece.checksumValid)

/-- The pieces lie where a request can reach. -/
structure Reaches (r : PieceRead) : Prop where
  room : r.offset.toNat + r.count ≤ maxTableOffset + 1
  small : r.limit ≤ 0xFFFF

/-- A read, one piece after the other. Pieces without room for a byte may be given up. -/
inductive Reads (r : PieceRead) : PiecesRead → List Transaction → Except Fault PiecesRead → Prop where
  /-- Nothing is missing. -/
  | whole {read : PiecesRead} (all : r.count ≤ read.1.length) : Reads r read [] (.ok read)
  /-- The meter does not give a piece. -/
  | failed {read : PiecesRead} {busy : List Transaction} {t : Transaction} {e : Fault} (missing : read.1.length < r.count)
      (tries : Tries (r.asks read) busy t) (reason : r.answer read t = .error e ∨ t.FoundBusy) :
      Reads r read (busy ++ [t]) (.error e)
  /-- The piece is short, which ends a table of unknown length. -/
  | short {read : PiecesRead} {busy : List Transaction} {t : Transaction} {piece : TableData}
      (missing : read.1.length < r.count) (tries : Tries (r.asks read) busy t) (answered : r.answer read t = .ok piece)
      (few : piece.data.length < r.size read) :
      Reads r read (busy ++ [t])
        (if r.isRange then .error (.partialData r.count (extend read piece).1.length) else .ok (extend read piece))
  | more {read : PiecesRead} {busy rest : List Transaction} {t : Transaction} {piece : TableData}
      {out : Except Fault PiecesRead} (missing : read.1.length < r.count) (tries : Tries (r.asks read) busy t)
      (answered : r.answer read t = .ok piece) (full : r.size read ≤ piece.data.length)
      (reads : Reads r (extend read piece) rest out) : Reads r read (busy ++ [t] ++ rest) out
  | givenUp {read : PiecesRead} {busy : List Transaction} {t : Transaction} {piece : TableData}
      (missing : read.1.length < r.count) (tries : Tries (r.asks read) busy t) (answered : r.answer read t = .ok piece)
      (noRoom : r.limit = 0) : Reads r read (busy ++ [t]) (.error (.readTimeout 0))

/-- What is handed over for one piece, by what comes of it: the read ends, or goes on behind a piece that is not
short. -/
def Round (r : PieceRead) (read : PiecesRead) (made : List Transaction) : Except Fault (PiecesRead ⊕ PiecesRead) → Prop
  | .error e => r.Reads read made (.error e)
  | .ok (.inr all) => r.Reads read made (.ok all)
  | .ok (.inl next) => ∃ busy t piece, made = busy ++ [t] ∧ read.1.length < r.count ∧ Tries (r.asks read) busy t ∧
      r.answer read t = .ok piece ∧ r.size read ≤ piece.data.length ∧ next = extend read piece

end PieceRead

open PieceRead (Reads)

variable {c : Client} {r : PieceRead} {read : PiecesRead}

theorem place_eq (reaches : r.Reaches) (missing : read.1.length < r.count) :
    (r.offset + UInt32.ofNat read.1.length).toNat = r.place read ∧ r.place read ≤ maxTableOffset ∧
      r.size read % 0x10000 = r.size read ∧ r.size read ≤ 0xFFFF := by
  have room := reaches.room
  have small := reaches.small
  simp only [PieceRead.place, PieceRead.size, maxTableOffset] at room ⊢
  refine ⟨?_, by omega, by omega, by omega⟩
  rw [UInt32.toNat_add, UInt32.toNat_ofNat']
  omega

/-- A request that is answered with table data, up to what is done with them. -/
theorem answer_run {α : Type} {request : Request} {q : TableRequest} (asks : TableRequest.ofBytes request.bytes = some q)
    (number : UInt16) (offset : Option UInt32) (f : TableData → Step Client α) (c : Client) :
    ∃ busy t d, Tries q busy t ∧ d.exchanges = (busy ++ [t]).reverse ++ c.exchanges ∧
      ((∃ e, (t.table number offset = .error e ∨ t.FoundBusy) ∧ (do
          let results ← transactReporting request
          let table ← Step.ofExcept (Reader.parse (TableData.take number offset) results)
          f table).run c = (.error e, d)) ∨
        ∃ table, t.table number offset = .ok table ∧ (do
          let results ← transactReporting request
          let table ← Step.ofExcept (Reader.parse (TableData.take number offset) results)
          f table).run c = (f table).run d) := by
  obtain ⟨busy, t, called⟩ := transactReporting_called request c
  rcases hx : (transactReporting request).run c with ⟨r, d⟩
  rw [hx] at called
  refine ⟨busy, t, d, called.tries asks, called.exchanges, ?_⟩
  rcases called.ended with ⟨result, -⟩ | ⟨found, e, failed⟩
  · -- what is taken is what the last answer has
    obtain rfl : r = t.results := result
    rcases hr : t.results with e | results
    · rw [hr] at hx
      refine .inl ⟨e, .inl ?_, Step.run_bind_of_error hx⟩
      unfold Transaction.table
      rw [hr]
      rfl
    · rw [hr] at hx
      have taken : t.table number offset = Reader.parse (TableData.take number offset) results := by
        unfold Transaction.table
        rw [hr]
        rfl
      rw [taken, Step.run_bind_of_ok hx]
      rcases Reader.parse (TableData.take number offset) results with e | table
      · exact .inl ⟨e, .inl rfl, rfl⟩
      · exact .inr ⟨table, rfl, rfl⟩
  · obtain rfl : r = .error e := failed
    exact .inl ⟨e, .inr found, Step.run_bind_of_error hx⟩

/-- **A piece** of a read. -/
theorem readPiece_round (reaches : r.Reaches) (read : PiecesRead) (c : Client) :
    ∃ made, ((readPiece r read).run c).2.exchanges = made.reverse ++ c.exchanges ∧
      r.Round read made ((readPiece r read).run c).1 := by
  unfold readPiece
  dsimp only
  split
  next all => exact ⟨[], rfl, Reads.whole all⟩
  next missing =>
    replace missing : read.1.length < r.count := Nat.lt_of_not_le missing
    obtain ⟨place, near, whole, small⟩ := place_eq reaches missing
    obtain ⟨request, made, asks⟩ := TableRequest.readPartial_made r.number near small
    have built : Request.readPartial r.number (r.offset + UInt32.ofNat read.1.length).toNat
        (min (r.count - read.1.length) r.limit % 0x10000) = .ok request := by
      rw [place]
      exact (congrArg (Request.readPartial r.number (r.place read)) whole).trans made
    rw [built, Step.run_bind_of_ok (Step.run_ofExcept _ _)]
    obtain ⟨busy, t, d, tries, exchanges, ⟨e, reason, run⟩ | ⟨piece, answered, run⟩⟩ :=
      answer_run asks r.number (some (r.offset + UInt32.ofNat read.1.length)) _ c
    · rw [run]
      exact ⟨busy ++ [t], exchanges, Reads.failed missing tries reason⟩
    · rw [run, Step.run_modify_bind]
      refine ⟨busy ++ [t], ?_⟩
      split
      next few =>
        have ended := Reads.short missing tries answered few
        split
        next range =>
          rw [if_pos range] at ended
          exact ⟨exchanges, ended⟩
        next table =>
          rw [if_neg table] at ended
          exact ⟨exchanges, ended⟩
      next full =>
        exact ⟨exchanges, busy, t, piece, rfl, missing, tries, answered, Nat.le_of_not_lt full, rfl⟩

variable {c' : Client} {next : PiecesRead}

/-- A round that goes on leaves less to be read, if there is room for a byte. -/
theorem PieceRead.Round.shrinks {made : List Transaction} (round : r.Round read made (.ok (.inl next))) :
    r.limit = 0 ∨ r.count - next.1.length < r.count - read.1.length := by
  obtain ⟨busy, t, piece, rfl, missing, tries, answered, full, rfl⟩ := round
  simp only [size, extend, List.length_append] at full ⊢
  omega

theorem reads_of_loops (reaches : r.Reaches) {out : Except Fault PiecesRead}
    (loops : Step.Loops (r.limit = 0) (readPiece r) read c out c') :
    ∃ made, c'.exchanges = made.reverse ++ c.exchanges ∧ r.Reads read made out := by
  induction loops with
  | @last read c c' all run =>
    obtain ⟨made, exchanges, round⟩ := readPiece_round reaches read c
    rw [run] at exchanges round
    exact ⟨made, exchanges, round⟩
  | @failed read c c' e run =>
    obtain ⟨made, exchanges, round⟩ := readPiece_round reaches read c
    rw [run] at exchanges round
    exact ⟨made, exchanges, round⟩
  | @more read next c d c' out run rest ih =>
    obtain ⟨made, exchanges, round⟩ := readPiece_round reaches read c
    rw [run] at exchanges round
    obtain ⟨busy, t, piece, rfl, missing, tries, answered, full, rfl⟩ := round
    obtain ⟨later, exchanges', reads⟩ := ih
    refine ⟨busy ++ [t] ++ later, ?_, .more missing tries answered full reads⟩
    rw [List.reverse_append, List.append_assoc, exchanges']
    exact congrArg _ exchanges
  | @givenUp read next c c' run noRoom =>
    obtain ⟨made, exchanges, round⟩ := readPiece_round reaches read c
    rw [run] at exchanges round
    obtain ⟨busy, t, piece, rfl, missing, tries, answered, full, rfl⟩ := round
    exact ⟨busy ++ [t], exchanges, .givenUp missing tries answered noRoom⟩

/-- The loop may take as many rounds as bytes are to come and are missing, so it is given up only where pieces have no
room for a byte. -/
theorem readRounds_loops (reaches : r.Reaches) (c : Client) :
    Step.Loops (r.limit = 0) (readPiece r) ([], true) c
      ((Step.repeatWhileFed answersLeft (fun c => c.waiting + r.count) (readPiece r) (answersLeft c) ([], true)).run c).1
      ((Step.repeatWhileFed answersLeft (fun c => c.waiting + r.count) (readPiece r) (answersLeft c) ([], true)).run c).2 := by
  have shrinks {read next : PiecesRead} {c d : Client} (run : (readPiece r read).run c = (.ok (.inl next), d)) :
      r.limit = 0 ∨ r.count - next.1.length < r.count - read.1.length := by
    obtain ⟨made, -, round⟩ := readPiece_round reaches read c
    rw [run] at round
    exact round.shrinks
  exact Step.repeatWhileFed_loops shrinks (Nat.le_refl _) fun read _ => Nat.le_trans (Nat.sub_le _ _) (Nat.le_add_left _ _)

/-- **A read in pieces** takes one piece after the other. -/
theorem readPieces_reads (reaches : r.Reaches) (c : Client) :
    ∃ made out, ((readPieces r).run c).2.exchanges = made.reverse ++ c.exchanges ∧ r.Reads ([], true) made out ∧
      ((readPieces r).run c).1 = out.map r.result := by
  unfold readPieces beginProgress
  rw [Step.run_modify_bind, Step.run_get_bind]
  generalize hd : ({ c with progress := { watched := c.watched, total := r.count } } : Client) = d
  obtain ⟨made, exchanges, reads⟩ := reads_of_loops reaches (readRounds_loops reaches d)
  have same : d.exchanges = c.exchanges := by rw [← hd]
  rw [same] at exchanges
  rw [Step.run_bind]
  rcases hl : (Step.repeatWhileFed answersLeft (fun c => c.waiting + r.count) (readPiece r) (answersLeft d)
    ([], true)).run d with ⟨e | all, d'⟩
  all_goals rw [hl] at exchanges reads
  · exact ⟨made, _, exchanges, reads, rfl⟩
  · exact ⟨made, _, exchanges, reads, rfl⟩

end Client

/-! ## Reads of tables -/

namespace Descriptor

variable {d : Descriptor}

/-- The size to expect of a full read, zero if it is not known. -/
def expected (d : Descriptor) : Nat := (d.expectedSize.map (·.toNat)).getD 0

/-- What a descriptor that is valid can name. -/
structure Valid (d : Descriptor) : Prop where
  number : d.number.toNat ≤ maxTableNumber
  range : ∀ offset count, d.access = .range offset count →
    1 ≤ count.toNat ∧ count.toNat ≤ maxTableCount ∧ offset.toNat + count.toNat ≤ maxTableOffset + 1
  expected : d.expected ≤ maxTableOffset + 1

/-- A size to expect that was checked fits. -/
theorem fits_of_checked {size : Option UInt32} (h : (do
      if let some size := size then
        if size.toNat > maxTableOffset + 1 then
          throw (.numberOutOfRange .expectedTableSize size.toNat 0 (maxTableOffset + 1)) : Except Fault Unit) = .ok ()) :
    (size.map (·.toNat)).getD 0 ≤ maxTableOffset + 1 := by
  rcases size with _ | size
  · exact Nat.zero_le _
  · dsimp only at h
    split at h
    · cases h
    next fits => exact Nat.le_of_not_gt fits

theorem valid_of_validate (h : d.validate = .ok ()) : d.Valid := by
  obtain ⟨number, access, indexed, size⟩ := d
  unfold validate at h
  dsimp only at h
  split at h
  · cases h
  next numbered =>
    replace numbered : number.toNat ≤ maxTableNumber := Nat.le_of_not_gt numbered
    cases access with
    | full => exact ⟨numbered, fun _ _ same => (by cases same), fits_of_checked h⟩
    | range offset count =>
      dsimp only at h
      split at h
      · cases h
      split at h
      · cases h
      next counted =>
        split at h
        · cases h
        next near =>
          refine ⟨numbered, fun offset' count' same => ?_, fits_of_checked h⟩
          obtain ⟨rfl, rfl⟩ := TableAccess.range.inj same
          rw [not_or, ← UInt32.toNat_inj] at counted
          exact ⟨Nat.pos_of_ne_zero counted.1, Nat.le_of_not_gt counted.2, Nat.le_of_not_gt near⟩

theorem Valid.wireNumber (h : d.Valid) : d.wireNumber.toNat = d.number.toNat := by
  have := h.number
  simp only [maxTableNumber] at this
  unfold Descriptor.wireNumber
  rw [UInt32.toNat_toUInt16]
  omega

end Descriptor

namespace Client

open Transaction (Tries supplied)

/-- A read with one request. -/
inductive ReadsOnce (q : TableRequest) (number : UInt16) (offset : Option UInt32) :
    List Transaction → Except Fault TableData → Prop where
  | failed {busy : List Transaction} {t : Transaction} {e : Fault} (tries : Tries q busy t)
      (reason : t.table number offset = .error e ∨ t.FoundBusy) : ReadsOnce q number offset (busy ++ [t]) (.error e)
  | answered {busy : List Transaction} {t : Transaction} {table : TableData} (tries : Tries q busy t)
      (answered : t.table number offset = .ok table) : ReadsOnce q number offset (busy ++ [t]) (.ok table)

/-- A read of a table: with one request where that is enough, and in pieces where it is not. -/
inductive ReadsTable (d : Descriptor) (limit : Nat) : List Transaction → Except Fault TableData → Prop where
  | whole {made : List Transaction} {out : Except Fault TableData} (full : d.access = .full) (fits : d.expected ≤ limit)
      (reads : ReadsOnce (.readFull d.number.toNat) d.wireNumber none made out) : ReadsTable d limit made out
  | wholeInPieces {made : List Transaction} {out : Except Fault PiecesRead} (full : d.access = .full)
      (large : limit < d.expected)
      (reads : PieceRead.Reads ⟨d.wireNumber, 0, d.expected, limit, false⟩ ([], true) made out) :
      ReadsTable d limit made (out.map (PieceRead.result ⟨d.wireNumber, 0, d.expected, limit, false⟩))
  | range {offset count : UInt32} {made : List Transaction} {out : Except Fault TableData}
      (range : d.access = .range offset count) (fits : count.toNat ≤ limit)
      (reads : ReadsOnce (.readPartial d.number.toNat offset.toNat count.toNat) d.wireNumber (some offset) made out) :
      ReadsTable d limit made out
  | rangeInPieces {offset count : UInt32} {made : List Transaction} {out : Except Fault PiecesRead}
      (range : d.access = .range offset count) (large : limit < count.toNat)
      (reads : PieceRead.Reads ⟨d.wireNumber, offset, count.toNat, limit, true⟩ ([], true) made out) :
      ReadsTable d limit made (out.map (PieceRead.result ⟨d.wireNumber, offset, count.toNat, limit, true⟩))

variable {c c' : Client} {d : Descriptor}

theorem readAtOnce_once {request : Request} {q : TableRequest} (asks : TableRequest.ofBytes request.bytes = some q)
    (number : UInt16) (offset : Option UInt32) (total : Nat) (c : Client) :
    ∃ made, ((readAtOnce number offset total request).run c).2.exchanges = made.reverse ++ c.exchanges ∧
      ReadsOnce q number offset made ((readAtOnce number offset total request).run c).1 := by
  unfold readAtOnce beginProgress
  rw [Step.run_modify_bind]
  generalize hd : ({ c with progress := { watched := c.watched, total } } : Client) = d
  have same : d.exchanges = c.exchanges := by rw [← hd]
  obtain ⟨busy, t, d', tries, exchanges, ⟨e, reason, run⟩ | ⟨table, answered, run⟩⟩ := answer_run asks number offset
    (fun table => do
      follow Progress.complete
      return table) d
  all_goals
    rw [same] at exchanges
    rw [run]
  · exact ⟨busy ++ [t], exchanges, .failed tries reason⟩
  · exact ⟨busy ++ [t], exchanges, .answered tries answered⟩

/-- What a request may carry fits the field for its size. -/
theorem limits_le (c : Client) : c.maxRead ≤ 0xFFFF ∧ c.maxWrite ≤ 0xFFFF ∧ c.maxPartialWrite ≤ 0xFFFF := by
  unfold maxRead maxWrite maxPartialWrite
  rcases c.wire with link | a
  · exact ⟨Nat.min_le_right _ _, Nat.min_le_right _ _, Nat.min_le_right _ _⟩
  · have small (size overhead : Nat) : min size 0xFFFF - overhead ≤ 0xFFFF :=
      Nat.le_trans (Nat.sub_le _ _) (Nat.min_le_right _ _)
    exact ⟨small _ _, small _ _, small _ _⟩

theorem ensureActive_ok (active : c.phase = .active) : ensureActive.run c = (.ok (), c) := by
  unfold ensureActive
  rw [Step.run_get_bind, active]
  rfl

/-- **A read of a table** of an active session. -/
theorem readActive_reads (active : c.phase = .active) (valid : d.validate = .ok ()) :
    ∃ made, ((readActive d).run c).2.exchanges = made.reverse ++ c.exchanges ∧
      ReadsTable d c.maxRead made ((readActive d).run c).1 := by
  have holds := Descriptor.valid_of_validate valid
  unfold readActive
  rw [valid, Step.run_bind_of_ok (Step.run_ofExcept _ _), Step.run_bind_of_ok (ensureActive_ok active)]
  dsimp only
  rw [Step.run_get_bind]
  rcases access : d.access with _ | ⟨offset, count⟩
  · dsimp only
    split
    next large =>
      have reaches : PieceRead.Reaches ⟨d.wireNumber, 0, d.expected, c.maxRead, false⟩ :=
        ⟨by simpa using holds.expected, (limits_le c).1⟩
      obtain ⟨made, out, exchanges, reads, result⟩ := readPieces_reads reaches c
      exact ⟨made, exchanges, result ▸ .wholeInPieces access large reads⟩
    next fits =>
      have asks := TableRequest.ofBytes_readFull d.wireNumber
      rw [holds.wireNumber] at asks
      obtain ⟨made, exchanges, reads⟩ := readAtOnce_once asks d.wireNumber none d.expected c
      exact ⟨made, exchanges, .whole access (Nat.le_of_not_lt fits) reads⟩
  · obtain ⟨least, few, near⟩ := holds.range offset count access
    simp only [maxTableCount] at few
    dsimp only
    split
    next large =>
      have reaches : PieceRead.Reaches ⟨d.wireNumber, offset, count.toNat, c.maxRead, true⟩ := ⟨near, (limits_le c).1⟩
      obtain ⟨made, out, exchanges, reads, result⟩ := readPieces_reads reaches c
      exact ⟨made, exchanges, result ▸ .rangeInPieces access large reads⟩
    next fits =>
      have place : offset.toNat ≤ maxTableOffset := by omega
      obtain ⟨request, built, asks⟩ := TableRequest.readPartial_made d.wireNumber place few
      rw [holds.wireNumber] at asks
      have kept : count.toNat % 0x10000 = count.toNat := by omega
      rw [kept, built, Step.run_bind_of_ok (Step.run_ofExcept _ _)]
      obtain ⟨made, exchanges, reads⟩ := readAtOnce_once asks d.wireNumber (some offset) count.toNat c
      exact ⟨made, exchanges, .range access (Nat.le_of_not_lt fits) reads⟩

end Client

/-! ## What a read asks for -/

namespace Descriptor

/-- The place of the first byte. -/
def first (d : Descriptor) : Nat :=
  match d.access with
  | .full => 0
  | .range offset _ => offset.toNat

/-- The number of bytes that are asked for, or to be expected. -/
def asked (d : Descriptor) : Nat :=
  match d.access with
  | .full => d.expected
  | .range _ count => count.toNat

/-- What a read of a table may ask for: the whole table, or a piece within it. -/
inductive Asks (d : Descriptor) (limit : Nat) : TableRequest → Prop where
  | whole (full : d.access = .full) (fits : d.asked ≤ limit) : Asks d limit (.readFull d.number.toNat)
  | piece {place size : Nat} (behind : d.first ≤ place) (before : place < d.first + d.asked)
      (within : place + size ≤ d.first + d.asked) (short : size ≤ limit) (some : 0 < limit → 0 < size) :
      Asks d limit (.readPartial d.number.toNat place size)

end Descriptor

namespace Client

open Transaction (Tries supplied)

namespace PieceRead

variable {r : PieceRead} {read : PiecesRead} {made busy : List Transaction} {out : Except Fault PiecesRead}
  {t : Transaction}

/-- A piece lies within what is read, and is not empty where there is room for a byte. -/
def Within (r : PieceRead) (q : TableRequest) : Prop :=
  ∃ place size, q = .readPartial r.number.toNat place size ∧ r.offset.toNat ≤ place ∧
    place < r.offset.toNat + r.count ∧ place + size ≤ r.offset.toNat + r.count ∧ size ≤ r.limit ∧ (0 < r.limit → 0 < size)

theorem within_asks (missing : read.1.length < r.count) : r.Within (r.asks read) := by
  refine ⟨_, _, rfl, ?_⟩
  simp only [place, size]
  omega

theorem Reads.asks (reads : r.Reads read made out) :
    ∀ t ∈ made, ∃ q, TableRequest.ofBytes t.request.bytes = some q ∧ r.Within q := by
  induction reads with
  | whole => exact List.forall_mem_nil _
  | failed missing tries | short missing tries | givenUp missing tries =>
    exact fun t mem => ⟨_, tries.same t mem, within_asks missing⟩
  | more missing tries answered full reads ih =>
    exact List.forall_mem_append.2 ⟨fun t mem => ⟨_, tries.same t mem, within_asks missing⟩, ih⟩

theorem Reads.ne_nil (reads : r.Reads read made out) (missing : read.1.length < r.count) : made ≠ [] := by
  cases reads with
  | whole all => exact absurd all (Nat.not_le_of_lt missing)
  | failed | short | givenUp | more => simp

end PieceRead

variable {d : Descriptor} {limit : Nat} {made : List Transaction} {r : Except Fault TableData}

theorem ReadsOnce.asks {q : TableRequest} {number : UInt16} {offset : Option UInt32} (h : ReadsOnce q number offset made r) :
    made ≠ [] ∧ ∀ t ∈ made, TableRequest.ofBytes t.request.bytes = some q := by
  cases h with
  | failed tries | answered tries => exact ⟨by simp, tries.same⟩

theorem PieceRead.Within.asks {p : PieceRead} {q : TableRequest} (h : p.Within q)
    (number : p.number.toNat = d.number.toNat) (first : p.offset.toNat = d.first) (asked : p.count = d.asked) :
    d.Asks p.limit q := by
  obtain ⟨place, size, rfl, behind, before, within, short, some⟩ := h
  rw [first] at behind
  rw [first, asked] at before within
  rw [number]
  exact .piece behind before within short some

/-- **A read of a table** asks for the table or for pieces within it, with every number whole. -/
theorem ReadsTable.asks (valid : d.Valid) (h : ReadsTable d limit made r) :
    made ≠ [] ∧ ∀ t ∈ made, ∃ q, TableRequest.ofBytes t.request.bytes = some q ∧ d.Asks limit q := by
  cases h with
  | whole full fits reads =>
    obtain ⟨some, same⟩ := reads.asks
    have asked : d.asked = d.expected := by rw [Descriptor.asked, full]
    exact ⟨some, fun t mem => ⟨_, same t mem, .whole full (asked ▸ fits)⟩⟩
  | @range offset count made out range fits reads =>
    obtain ⟨some, same⟩ := reads.asks
    have least := (valid.range offset count range).1
    have first : d.first = offset.toNat := by rw [Descriptor.first, range]
    have asked : d.asked = count.toNat := by rw [Descriptor.asked, range]
    exact ⟨some, fun t mem => ⟨_, same t mem, .piece (by omega) (by omega) (by omega) fits fun _ => least⟩⟩
  | wholeInPieces full large reads =>
    have first : 0 = d.first := by rw [Descriptor.first, full]
    have asked : d.expected = d.asked := by rw [Descriptor.asked, full]
    refine ⟨reads.ne_nil (Nat.lt_of_le_of_lt (Nat.zero_le _) large), fun t mem => ?_⟩
    obtain ⟨q, same, within⟩ := reads.asks t mem
    exact ⟨q, same, within.asks valid.wireNumber first asked⟩
  | @rangeInPieces offset count made out range large reads =>
    have first : offset.toNat = d.first := by rw [Descriptor.first, range]
    have asked : count.toNat = d.asked := by rw [Descriptor.asked, range]
    refine ⟨reads.ne_nil (Nat.lt_of_le_of_lt (Nat.zero_le _) large), fun t mem => ?_⟩
    obtain ⟨q, same, within⟩ := reads.asks t mem
    exact ⟨q, same, within.asks valid.wireNumber first asked⟩

end Client

/-! ## Sessions with short packets -/

namespace Client

/-- The configuration of a client that neither negotiates nor sends a password, with packets of 32 bytes, one for each
message. -/
def terse : Config := { packetSize := 32, maxPackets := 1, issueNegotiate := false, issueSecurity := false }

/-- The far end gives one response after the other, each in a packet that the client acknowledges. -/
def responding : (toggle : Bool) → List Bytes → List FarAnswer
  | _, [] => []
  | toggle, response :: rest =>
    saying ⟨0, ⟨if toggle then 0x20 else 0⟩, 0, response⟩ :: (fun _ => []) :: responding (!toggle) rest

/-- A session of this client that has handed over nothing yet, with the responses that its meter has left. -/
def terseSession (responses : List Bytes) : Client where
  dialect := .c1218
  config := terse
  channel := { line := { isClosed := false, answers := responding false responses }, connected := true }
  phase := .active
  wire := .packets (.ofParameters (.ofConfig terse))

/-- What was handed over is all that it has recorded. -/
theorem exchanged_terseSession {responses : List Bytes} {c' : Client} {made : List Transaction}
    (h : c'.exchanges = made.reverse ++ (terseSession responses).exchanges) : made = c'.exchanges.reverse := by
  rw [h, show (terseSession responses).exchanges = [] from rfl, List.append_nil, List.reverse_reverse]

/-- A new client of it, on a line with a meter that answers identify and logon. -/
def terseClient : Client where
  dialect := .c1218
  config := { terse with telephone := { authenticationKey := [] }, network := { securityKey := [] } }
  channel := .ofLine answering
  wire := .packets (.ofParameters (.ofConfig terse))

/-- The session that it starts, with the responses that its meter has left. -/
def startedSession (responses : List Bytes) : Client :=
  let started := (startSession.run terseClient).2
  { started with
    channel := { started.channel with line := { started.channel.line with answers := responding false responses } } }

theorem reachedBy_startedSession (responses : List Bytes) : ReachedBy .c1218 terse (startedSession responses) := by
  have made : ofConfig (.ofLine answering) .c1218 terse 0 (fun _ => 0) = .ok terseClient := rfl
  have started : ReachedBy .c1218 terse (startSession.run terseClient).2 := .after (.new made) .start
  exact .meanwhile started _ (startSession.run terseClient).2.watched

/-- The response to a read that brings this data. -/
def bringing (data : Bytes) : Bytes :=
  match Request.tableContents data with
  | .ok contents => 0 :: contents
  | .error _ => []

/-- Numbers in their order. -/
def ascending (count : Nat) : Bytes := (List.range count).map UInt8.ofNat

end Client

end Metering
