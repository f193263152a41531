import Metering.Proofs.Asking
import Metering.Proofs.Reading

set_option autoImplicit false

/-! # Progress of reads

Every piece of a read brings its end nearer, if there is room for a byte (`Client.PieceRead.Reads.few`). Packets always
have room; APDUs have it unless they are too small for their envelope (`Client.ReachedBy.maxRead_pos_iff`), and then a
read asks for pieces of no bytes (`Client.readTable_progress_iff`). -/

namespace Metering

/-! ## How often a read asks -/

namespace Client

open Link (Sizes)
open Step (Moves)
open Transaction (Tries supplied)

namespace PieceRead

variable {r : PieceRead} {read : PiecesRead} {made busy : List Transaction} {out : Except Fault PiecesRead}

/-- **Every piece brings the end nearer**, if the meter is never busy and there is room for a byte. -/
theorem Reads.few (reads : r.Reads read made out) (room : 0 < r.limit) (idle : ∀ t ∈ made, ¬ t.FoundBusy) :
    made.length ≤ r.count - read.1.length := by
  induction reads with
  | whole all => exact Nat.zero_le _
  | failed missing tries | short missing tries =>
    obtain rfl := tries.alone idle
    exact Nat.sub_pos_of_lt missing
  | @more read busy rest t piece out missing tries answered full reads ih =>
    obtain ⟨idle, idle'⟩ := List.forall_mem_append.1 idle
    obtain rfl := tries.alone idle
    have later := ih idle'
    simp only [extend, size, List.length_append, List.length_cons, List.length_nil] at full later ⊢
    omega
  | givenUp missing tries answered noRoom => omega

/-- Where every answer carries contents, a read in pieces returns them or runs short of data. -/
theorem Reads.ends (reads : r.Reads read made out) (room : 0 < r.limit)
    (brings : ∀ t ∈ made, ∃ data, t.supply? = some data) :
    (∃ all, out = .ok all) ∨ ∃ wanted had, out = .error (.partialData wanted had) := by
  induction reads with
  | @whole read all => exact .inl ⟨read, rfl⟩
  | @failed read busy t e missing tries reason =>
    obtain ⟨data, supply⟩ := brings t (by simp)
    cases (Transaction.not_supplied reason).1.symm.trans supply
  | short missing tries answered few =>
    split
    · exact .inr ⟨_, _, rfl⟩
    · exact .inl ⟨_, rfl⟩
  | more missing tries answered full reads ih => exact ih (List.forall_mem_append.1 brings).2
  | givenUp missing tries answered noRoom => omega

end PieceRead

variable {c c' : Client} {d : Descriptor} {limit : Nat} {made : List Transaction} {r : Except Fault TableData}
  {dialect : Dialect} {config : Config}

theorem ReadsOnce.few {q : TableRequest} {number : UInt16} {offset : Option UInt32}
    (h : ReadsOnce q number offset made r) (idle : ∀ t ∈ made, ¬ t.FoundBusy) : made.length = 1 := by
  cases h with
  | failed tries | answered tries =>
    obtain rfl := tries.alone idle
    rfl

theorem ReadsTable.few (h : ReadsTable d limit made r) (room : d.asked = 0 ∨ 0 < limit)
    (idle : ∀ t ∈ made, ¬ t.FoundBusy) : made.length ≤ max 1 d.asked := by
  cases h with
  | whole full fits reads | range range fits reads =>
    rw [reads.few idle]
    exact Nat.le_max_left _ _
  | wholeInPieces full large reads =>
    have asked : d.asked = d.expected := by rw [Descriptor.asked, full]
    rw [asked] at room ⊢
    exact Nat.le_trans (reads.few (room.resolve_left (Nat.ne_of_gt (Nat.zero_lt_of_lt large))) idle)
      (Nat.le_max_right _ _)
  | @rangeInPieces offset count made out range large reads =>
    have asked : d.asked = count.toNat := by rw [Descriptor.asked, range]
    rw [asked] at room ⊢
    exact Nat.le_trans (reads.few (room.resolve_left (Nat.ne_of_gt (Nat.zero_lt_of_lt large))) idle)
      (Nat.le_max_right _ _)

theorem ReadsTable.ends (h : ReadsTable d limit made r) (room : 0 < limit)
    (brings : ∀ t ∈ made, ∃ data, t.supply? = some data) :
    (∃ table, r = .ok table) ∨ ∃ wanted had, r = .error (.partialData wanted had) := by
  have once {q : TableRequest} {number : UInt16} {offset : Option UInt32} (reads : ReadsOnce q number offset made r) :
      ∃ table, r = .ok table := by
    cases reads with
    | @failed busy t e tries reason =>
      obtain ⟨data, supply⟩ := brings t (by simp)
      cases (Transaction.not_supplied reason).1.symm.trans supply
    | @answered busy t table tries answered => exact ⟨table, rfl⟩
  cases h with
  | whole full fits reads | range range fits reads => exact .inl (once reads)
  | wholeInPieces full large reads | rangeInPieces range large reads =>
    rcases reads.ends room brings with ⟨all, rfl⟩ | ⟨wanted, had, rfl⟩
    · exact .inl ⟨_, rfl⟩
    · exact .inr ⟨wanted, had, rfl⟩

end Client

/-! ## Room for a byte -/

namespace Client

open Link (Sizes)
open Step (Moves)

variable {dialect : Dialect} {config : Config} {c c' : Client} {d : Descriptor} {r : Except Fault TableData}

/-- A new client of a dialect with packets has the sizes that were configured. -/
theorem meets_of_ofConfig {channel : Channel} {clock : UInt64} {entropy : Nat → UInt32}
    (framing : dialect.capabilities.framing = .packet) (made : ofConfig channel dialect config clock entropy = .ok c) :
    config.validate = .ok () ∧ c.Meets (Sizes.Within config) := by
  unfold ofConfig at made
  obtain ⟨_, valid, made⟩ := Step.except_bind_ok.1 made
  obtain ⟨wire, wired, made⟩ := Step.except_bind_ok.1 made
  have packets : wire = .packets (.ofParameters (.ofConfig config)) := by
    unfold wireFor at wired
    rw [framing] at wired
    exact (Except.ok.inj wired).symm
  refine ⟨valid, _, ?_, Link.within_ofConfig valid⟩
  dsimp only at made
  split at made
  all_goals
    obtain ⟨key, -, made⟩ := Step.except_bind_ok.1 made
    obtain rfl := Except.ok.inj made
    rw [packets]
    rfl

/-- **Packets have room** in every run of a configuration. -/
theorem ReachedBy.meets (h : ReachedBy dialect config c) (framing : dialect.capabilities.framing = .packet) :
    config.validate = .ok () ∧ c.Meets (Sizes.Within config) := by
  induction h with
  | new made => exact meets_of_ofConfig framing made
  | meanwhile _ _ _ ih => exact ih
  | @after c before o ih =>
    obtain ⟨valid, meets⟩ := ih
    refine ⟨valid, ?_⟩
    cases o with
    | start => exact (startSession_frame (startFrame_asked valid) (timingSetup_asked valid) c meets).1
    | finish => exact (endSession_frame (startFrame_asked valid) c meets).1
    | transfer t timeout =>
      obtain ⟨s, sizes, within⟩ := meets
      have asked := transfer_frame (operationFrame_asked within) t timeout fun _ _ _ => asked_of_silent rfl rfl
      obtain ⟨⟨_, kept, rfl⟩, -⟩ := asked c ⟨s, sizes, rfl⟩
      exact ⟨_, kept, within⟩

/-- **A read has room for a byte**, except over a network with APDUs that are too small. -/
theorem ReachedBy.maxRead_pos_iff (h : ReachedBy dialect config c) :
    0 < c.maxRead ↔ (dialect = .c1222 → 132 < config.network.effectiveMaxIncoming.toNat) := by
  have wired := h.goesBy.wired
  rcases hw : c.wire with link | a
  · rw [hw] at wired
    have framing : dialect.capabilities.framing = .packet := wired
    obtain ⟨-, s, sizes, within⟩ := h.meets framing
    have least := within.least_le_capacity
    have room : 0 < c.limits.maxRead := by
      rw [limits_of_sizes sizes]
      simp only [Sizes.limits, LinkLimits.ofPackets, Sizes.capacity, minPacketSize, packetOverhead, readOverhead] at least ⊢
      omega
    refine iff_of_true room ?_
    rintro rfl
    cases framing
  · rw [hw] at wired
    obtain ⟨framing, serves⟩ := wired
    have network : dialect = .c1222 := by
      cases dialect with
      | c1222 => rfl
      | c1218 | c1221 => cases framing
    have limit : c.maxRead = min (config.network.effectiveMaxIncoming.toNat - 128) 0xFFFF - 4 := by
      simp only [maxRead, hw, Association.maxResponse, serves.parameters]
      rfl
    rw [limit]
    refine ⟨fun room _ => by omega, fun room => ?_⟩
    have large := room network
    omega

/-- **A read of a table makes progress** where its requests have room for a byte. If the meter is never busy, it asks
no more often than the number of bytes that are asked for or expected, each time for one byte at least, and where every
answer carries contents it comes to an end with them. Where there is no room, it asks for pieces of no bytes. -/
theorem readTable_progress_iff (reached : ReachedBy dialect config c) (active : c.phase = .active)
    (valid : d.validate = .ok ()) (run : (readTable d).run c = (r, c')) :
    ∃ made : List Transaction, c'.exchanges = made.reverse ++ c.exchanges ∧ ((∀ t ∈ made, ¬ t.FoundBusy) →
      ((made.length ≤ max 1 d.asked ∧ ∀ t ∈ made, ∀ table place count,
          TableRequest.ofBytes t.request.bytes = some (.readPartial table place count) → 1 ≤ count) ↔
        (d.asked = 0 ∨ (dialect = .c1222 → 132 < config.network.effectiveMaxIncoming.toNat))) ∧
      (0 < c.maxRead → (∀ t ∈ made, ∃ data, t.supply? = some data) →
        (∃ table, r = .ok table) ∨ ∃ wanted had, Reports c (.partialData wanted had) r)) := by
  obtain ⟨made, exchanges, reads⟩ := readActive_reads active valid
  obtain ⟨some, asks⟩ := reads.asks (Descriptor.valid_of_validate valid)
  have room := reached.maxRead_pos_iff
  refine ⟨made, (settle_exchanges run).1.trans exchanges, fun idle => ⟨⟨fun ⟨_, one⟩ => ?_, fun fits => ⟨?_, ?_⟩⟩, ?_⟩⟩
  · -- the first request shows whether there is room
    by_contra none
    obtain ⟨missing, small⟩ := not_or.1 none
    rw [← room, Nat.not_lt] at small
    obtain ⟨t, rest, rfl⟩ := List.exists_cons_of_ne_nil some
    obtain ⟨q, same, asked⟩ := asks t List.mem_cons_self
    cases asked with
    | whole full fits => omega
    | piece behind before within short some =>
      have := one t List.mem_cons_self _ _ _ same
      omega
  · exact reads.few (fits.imp_right room.2) idle
  · intro t mem table place count same
    obtain ⟨q, same', asked⟩ := asks t mem
    obtain rfl := Option.some.inj (same.symm.trans same')
    cases asked with
    | piece behind before within short some =>
      rcases fits with none | fits
      · omega
      · exact some (room.2 fits)
  · intro room brings
    rcases hx : (readActive d).run c with ⟨e | table, t⟩
    all_goals rw [hx] at reads
    · rcases reads.ends room brings with ⟨table, none⟩ | ⟨wanted, had, same⟩
      · cases none
      · obtain rfl := Except.error.inj same
        exact .inr ⟨wanted, had, (settle_reports (readActive_unrushed _) run hx rfl).1⟩
    · obtain ⟨rfl, -⟩ := Prod.mk.inj (run.symm.trans (settle_run_ok hx))
      exact .inl ⟨table, rfl⟩

/-! ### Two reads -/

/-- A range that does not fit one packet, from a meter that has all of it. -/
def startedRange : Client := startedSession [bringing (ascending 20), bringing [20, 21, 22]]

/-- It is asked for in two pieces. -/
theorem readTable_progress_split : ∃ (made : List Transaction) (c' : Client),
    (readTable (.range 3 4 23)).run startedRange = (.ok ⟨3, some 4, ascending 23, 23, true⟩, c') ∧
      c'.exchanges = made.reverse ++ startedRange.exchanges ∧ made.length ≤ 23 ∧
      ∀ t ∈ made, ∀ table place count,
        TableRequest.ofBytes t.request.bytes = some (.readPartial table place count) → 1 ≤ count := by
  have facts : startedRange.phase = .active ∧
      ((readTable (.range 3 4 23)).run startedRange).1 = .ok ⟨3, some 4, ascending 23, 23, true⟩ ∧
      ∀ t ∈ ((readTable (.range 3 4 23)).run startedRange).2.exchanges, t.Accepted := by
    decide +kernel
  obtain ⟨active, returned, accepted⟩ := facts
  have run := Step.run_eq_of_fst returned
  obtain ⟨made, exchanges, progress⟩ := readTable_progress_iff (reachedBy_startedSession _) active (by decide) run
  rw [exchanges] at accepted
  have idle (t : Transaction) (mem : t ∈ made) (found : t.FoundBusy) : False :=
    found.not_accepted (accepted t (List.mem_append_left _ (List.mem_reverse.2 mem)))
  obtain ⟨few, some⟩ := (progress idle).1.2 (.inr nofun)
  exact ⟨made, _, run, exchanges, few, some⟩

/-- Requests that stand alone, answered in APDUs of up to 132 bytes. -/
def cramped : Config :=
  { between "" "" .always with network := { (between "" "" .always).network with maxIncoming := 132 } }

/-- What brings no bytes of a table, in answer to a request with this id. -/
def emptyAnswer (id : UInt8) : FarAnswer := fun _ => [(10, .arrival (.data
  [0x60, 0x16, 0xA4, 0x03, 0x02, 0x01, id, 0xA8, 0x03, 0x02, 0x01, 0x07, 0xBE, 0x0A, 0x28, 0x08, 0x81, 0x06, 0x80,
    0x04, 0x00, 0x00, 0x00, 0x00]))]

/-- A client of it whose meter brings no bytes twice, and no answer after that. -/
def crampedSession : Option Client :=
  (standing cramped).map fun c =>
    { c with channel := { c.channel with line := { c.channel.line with answers := [emptyAnswer 6, emptyAnswer 5] } } }

/-- **A read of one byte asks for no byte**, and asks again as long as the meter answers that, if the APDUs that it
accepts leave no room for data. -/
theorem readTable_stalls : ∃ c, ReachedBy .c1222 cramped c ∧ cramped.validate = .ok () ∧ c.phase = .active ∧
    (Descriptor.range 3 0 1).validate = .ok () ∧ c.exchanges = [] ∧
    ((readTable (.range 3 0 1)).run c).2.exchanges.map (fun t => (TableRequest.ofBytes t.request.bytes, t.result)) =
      [(some (.readPartial 3 0 0), .error (.readTimeout 0)), (some (.readPartial 3 0 0), .ok [0, 0, 0, 0]),
        (some (.readPartial 3 0 0), .ok [0, 0, 0, 0])] := by
  obtain ⟨c, started, facts⟩ : ∃ c ∈ crampedSession, c.phase = .active ∧ c.exchanges.length = 0 ∧
      ((readTable (.range 3 0 1)).run c).2.exchanges.map (fun t => (TableRequest.ofBytes t.request.bytes, t.result)) =
        [(some (.readPartial 3 0 0), .error (.readTimeout 0)), (some (.readPartial 3 0 0), .ok [0, 0, 0, 0]),
          (some (.readPartial 3 0 0), .ok [0, 0, 0, 0])] := by
    decide +kernel
  obtain ⟨active, none, asked⟩ := facts
  obtain ⟨before, standing, rfl⟩ := Option.map_eq_some_iff.1 started
  have reached : ReachedBy .c1222 cramped before := reachedBy_standing standing
  exact ⟨_, .meanwhile reached _ before.watched, by decide +kernel, active, by decide, List.length_eq_zero_iff.1 none,
    asked⟩

end Client

end Metering
