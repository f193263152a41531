import Metering.Proofs.Written

set_option autoImplicit false

/-! # Runs of procedures

A procedure is started by a write of table 7 and awaited by reads of table 8. The meter repeats the first three bytes of
what was written (`ProcedureRequest.head`), so that the client tells its answer from one that is left from an earlier
procedure (`Client.Awaits`): only an answer that is not completed yet is read again, and one to something else ends the
session (`Client.runProcedure_answered`). Every procedure of an active session takes the next sequence byte
(`Client.Counted`), also one that fails. -/

namespace Metering

open Step (Moves Same)

/-! ## Requests and answers -/

/-- What a meter repeats: the number as it was written, and the sequence byte. -/
def ProcedureRequest.head (r : ProcedureRequest) (littleEndian : Bool) : Bytes :=
  (if littleEndian then Bytes.littleEndian 2 r.number.toNat else Bytes.bigEndian 2 r.number.toNat) ++ [r.sequence]

theorem ProcedureRequest.bytes_eq (r : ProcedureRequest) (littleEndian : Bool) :
    r.bytes littleEndian = r.head littleEndian ++ r.parameters := by
  simp [bytes, head]

theorem ProcedureRequest.head_eq (r : ProcedureRequest) (littleEndian : Bool) :
    ∃ a b, r.head littleEndian = [a, b, r.sequence] := by
  cases littleEndian <;> exact ⟨_, _, rfl⟩

namespace ProcedureResult

theorem isSuccess_ofByte {b : UInt8} : (ofByte b).isSuccess = true ↔ b = 0 := by
  rw [← UInt8.toNat_inj]
  unfold ofByte
  split <;> simp_all [isSuccess]

theorem isRetryable_ofByte {b : UInt8} : (ofByte b).isRetryable = true ↔ b = 1 := by
  rw [← UInt8.toNat_inj]
  unfold ofByte
  split <;> simp_all [isRetryable]

end ProcedureResult

namespace ProcedureRequest

/-- What a client makes of table 8: an answer to something else is no answer. -/
def judge (r : ProcedureRequest) (littleEndian : Bool) (table : Bytes) : Except Fault (Except Fault Bytes) := do
  let response ← ProcedureResponse.ofTable table
  if response.number ≠ (r.bytes littleEndian).take 2 ∨ response.sequence ≠ r.sequence then
    throw (.protocol (.procedureMismatch (response.number.getD 0 0) (response.number.getD 1 0)
      response.sequence r.number.toNat r.sequence.toNat))
  return response.completedData

variable {r : ProcedureRequest} {littleEndian : Bool} {table data : Bytes} {result : UInt8}

/-- The answer to a request begins with its head. -/
theorem judge_answer (r : ProcedureRequest) (littleEndian : Bool) (result : UInt8) (data : Bytes) :
    r.judge littleEndian (r.head littleEndian ++ result :: data) =
      .ok (if result = 0 then .ok data else .error (.badProcedure (.ofByte result))) := by
  obtain ⟨a, b, head⟩ := r.head_eq littleEndian
  have taken : (r.bytes littleEndian).take 2 = [a, b] := by rw [bytes_eq, head]; rfl
  have read : ProcedureResponse.ofTable (r.head littleEndian ++ result :: data) =
      .ok ⟨[a, b], r.sequence, .ofByte result, data⟩ := by
    rw [head]
    rfl
  unfold judge ProcedureResponse.completedData
  rw [read]
  simp only [bind, Except.bind, taken, ne_eq, not_true_eq_false, or_self, if_false, pure, Except.pure,
    ProcedureResult.isSuccess_ofByte]

/-- What begins otherwise, or ends too soon, is against the protocol. -/
theorem judge_unlike (unlike : ∀ result data, table ≠ r.head littleEndian ++ result :: data) :
    ∃ cause, r.judge littleEndian table = .error (.protocol cause) := by
  obtain ⟨a, b, head⟩ := r.head_eq littleEndian
  have taken : (r.bytes littleEndian).take 2 = [a, b] := by rw [bytes_eq, head]; rfl
  rw [head] at unlike
  unfold judge
  rcases table with _ | ⟨a', _ | ⟨b', _ | ⟨sequence, _ | ⟨result, data⟩⟩⟩⟩
  all_goals try exact ⟨_, rfl⟩
  have other : [a', b'] ≠ [a, b] ∨ sequence ≠ r.sequence := by
    by_contra same
    simp only [ne_eq, not_or, not_not] at same
    obtain ⟨number, rfl⟩ := same
    obtain ⟨rfl, rest⟩ := List.cons.inj number
    obtain ⟨rfl, -⟩ := List.cons.inj rest
    exact unlike result data rfl
  refine ⟨.procedureMismatch a' b' sequence r.number.toNat r.sequence.toNat, ?_⟩
  simp only [ProcedureResponse.ofTable, bind, Except.bind, taken]
  rw [if_pos other]
  rfl

end ProcedureRequest

/-! ## Waiting for the result -/

namespace Client

open Transaction (Tries supplied)

variable {c c' d : Client} {r : ProcedureRequest} {littleEndian : Bool} {made : List Transaction}
  {reads : List (List Transaction)} {out : Except Fault Bytes} {retries : Nat} {data : Bytes}

/-- One read of table 8. -/
abbrev ReadsResult : List Transaction → Except Fault TableData → Prop := ReadsOnce (.readFull 8) 8 none

/-- Reads of table 8, one after the other, until there is a result. Nothing but an answer that is not completed yet
leads to a further read. -/
inductive Awaits (head : Bytes) : (retries : Nat) → List (List Transaction) → Except Fault Bytes → Prop where
  /-- The table cannot be read. -/
  | failed {retries : Nat} {made : List Transaction} {e : Fault} (read : ReadsResult made (.error e)) :
      Awaits head retries [made] (.error e)
  /-- The table shows something else. -/
  | unlike {retries : Nat} {made : List Transaction} {table : TableData} (read : ReadsResult made (.ok table))
      (unlike : ∀ result data, table.data ≠ head ++ result :: data) (cause : ProtocolCause) :
      Awaits head retries [made] (.error (.protocol cause))
  | completed {retries : Nat} {made : List Transaction} {table : TableData} {data : Bytes}
      (read : ReadsResult made (.ok table)) (shows : table.data = head ++ 0 :: data) :
      Awaits head retries [made] (.ok data)
  /-- The procedure failed, or it is still not completed after the last retry. -/
  | refused {retries : Nat} {made : List Transaction} {table : TableData} {result : UInt8} {data : Bytes}
      (read : ReadsResult made (.ok table)) (shows : table.data = head ++ result :: data) (ended : result ≠ 0)
      (last : result = 1 → retries = 0) : Awaits head retries [made] (.error (.badProcedure (.ofByte result)))
  /-- The wait for the next read is cut short. -/
  | interrupted {retries : Nat} {made : List Transaction} {table : TableData} {data : Bytes} {e : Fault}
      (read : ReadsResult made (.ok table)) (shows : table.data = head ++ 1 :: data) :
      Awaits head (retries + 1) [made] (.error e)
  | again {retries : Nat} {made : List Transaction} {table : TableData} {data : Bytes}
      {reads : List (List Transaction)} {out : Except Fault Bytes} (read : ReadsResult made (.ok table))
      (shows : table.data = head ++ 1 :: data) (later : Awaits head retries reads out) :
      Awaits head (retries + 1) (made :: reads) out

/-- What one read of table 8 comes to: it ends the wait, or the table shows how the procedure went. -/
def Looked (head : Bytes) (made : List Transaction) : Except Fault (Except Fault Bytes) → Prop
  | .error e => ∀ retries, Awaits head retries [made] (.error e)
  | .ok verdict => ∃ table result data, ReadsResult made (.ok table) ∧ table.data = head ++ result :: data ∧
      verdict = if result = 0 then .ok data else .error (.badProcedure (.ofByte result))

theorem readActive_result (active : c.phase = .active) :
    ∃ made, ((readActive (.full procedureResponseTable)).run c).2.exchanges = made.reverse ++ c.exchanges ∧
      ReadsResult made ((readActive (.full procedureResponseTable)).run c).1 := by
  obtain ⟨made, exchanges, reads⟩ := readActive_reads active (d := .full procedureResponseTable) (by decide)
  refine ⟨made, exchanges, ?_⟩
  -- nothing is known of the size of the table, so it is never read in pieces
  generalize ((readActive (.full procedureResponseTable)).run c).1 = out at reads
  cases reads with
  | whole full fits reads => exact reads
  | wholeInPieces full large => exact absurd large (Nat.not_lt_zero _)
  | range range | rangeInPieces range => cases range

theorem procedureResult_run (r : ProcedureRequest) (littleEndian : Bool) (c : Client) :
    (procedureResult r.number r.sequence (r.bytes littleEndian)).run c =
      (((readActive (.full procedureResponseTable)).run c).1 >>= fun table => r.judge littleEndian table.data,
        ((readActive (.full procedureResponseTable)).run c).2) := by
  unfold procedureResult
  rw [Step.run_bind]
  rcases (readActive (.full procedureResponseTable)).run c with ⟨e | table, d⟩
  · rfl
  · have judged : (Except.ok table >>= fun table => r.judge littleEndian table.data) = r.judge littleEndian table.data := rfl
    rw [judged]
    unfold ProcedureRequest.judge
    dsimp only
    rw [Step.run_bind, Step.run_ofExcept]
    generalize ProcedureResponse.ofTable table.data = read
    rcases read with e | response
    · rfl
    · simp only [bind, Except.bind]
      split <;> rfl

/-- **One look at table 8.** -/
theorem procedureResult_reads (r : ProcedureRequest) (littleEndian : Bool) (active : c.phase = .active) :
    ∃ made, ((procedureResult r.number r.sequence (r.bytes littleEndian)).run c).2.exchanges =
        made.reverse ++ c.exchanges ∧
      Looked (r.head littleEndian) made ((procedureResult r.number r.sequence (r.bytes littleEndian)).run c).1 := by
  obtain ⟨made, exchanges, read⟩ := readActive_result active
  rw [procedureResult_run]
  refine ⟨made, exchanges, ?_⟩
  dsimp only
  generalize ((readActive (.full procedureResponseTable)).run c).1 = out at read ⊢
  rcases out with e | table
  · exact fun _ => .failed read
  by_cases like : ∃ result data, table.data = r.head littleEndian ++ result :: data
  · obtain ⟨result, data, shows⟩ := like
    have judged := r.judge_answer littleEndian result data
    rw [← shows] at judged
    simp only [bind, Except.bind, judged]
    exact ⟨table, result, data, read, shows, rfl⟩
  · have unlike (result : UInt8) (data : Bytes) : table.data ≠ r.head littleEndian ++ result :: data :=
      fun shows => like ⟨result, data, shows⟩
    obtain ⟨cause, judged⟩ := ProcedureRequest.judge_unlike unlike
    simp only [bind, Except.bind, judged]
    exact fun _ => .unlike read unlike cause

theorem procedureResult_phase (number : UInt16) (sequence : UInt8) (request : Bytes) (active : c.phase = .active) :
    ((procedureResult number sequence request).run c).2.phase = .active :=
  (core_eq_iff.1 (procedureResult_frame frame_core.transfers.tables number sequence request c)).1.trans active

/-- **The result of a procedure** is awaited by reads of table 8. -/
theorem awaitProcedure_awaits (r : ProcedureRequest) (littleEndian : Bool) (retries : Nat) (active : c.phase = .active) :
    ∃ reads, ((awaitProcedure r.number r.sequence (r.bytes littleEndian) retries).run c).2.exchanges =
        reads.flatten.reverse ++ c.exchanges ∧
      Awaits (r.head littleEndian) retries reads
        ((awaitProcedure r.number r.sequence (r.bytes littleEndian) retries).run c).1 := by
  induction retries generalizing c with
  | zero =>
    obtain ⟨made, exchanges, looked⟩ := procedureResult_reads r littleEndian active
    unfold awaitProcedure
    rw [Step.run_bind]
    rcases hx : (procedureResult r.number r.sequence (r.bytes littleEndian)).run c with ⟨e | verdict, d⟩
    all_goals rw [hx] at exchanges looked
    · exact ⟨[made], by simpa using exchanges, looked 0⟩
    · obtain ⟨table, result, data, read, shows, rfl⟩ := looked
      dsimp only
      rw [Step.run_ofExcept]
      refine ⟨[made], by simpa using exchanges, ?_⟩
      split
      next done => exact .completed read (done ▸ shows)
      next ended => exact .refused read shows ended fun _ => rfl
  | succ retries ih =>
    obtain ⟨made, exchanges, looked⟩ := procedureResult_reads r littleEndian active
    have stays := procedureResult_phase r.number r.sequence (r.bytes littleEndian) active
    unfold awaitProcedure
    rw [Step.run_bind]
    rcases hx : (procedureResult r.number r.sequence (r.bytes littleEndian)).run c with ⟨e | verdict, d⟩
    all_goals rw [hx] at exchanges looked stays
    · exact ⟨[made], by simpa using exchanges, looked _⟩
    obtain ⟨table, result, data, read, shows, rfl⟩ := looked
    dsimp only at exchanges stays ⊢
    by_cases done : result = 0
    · rw [if_pos done]
      exact ⟨[made], by simpa using exchanges, .completed read (done ▸ shows)⟩
    rw [if_neg done]
    dsimp only
    have waits : (Fault.badProcedure (.ofByte result)).isRetryable = true ↔ result = 1 :=
      ProcedureResult.isRetryable_ofByte
    by_cases busy : result = 1
    case neg =>
      rw [if_pos (by simpa using mt waits.1 busy)]
      exact ⟨[made], by simpa using exchanges, .refused read shows done fun still => absurd still busy⟩
    rw [if_neg (by simpa using waits.2 busy), Step.run_get_bind, Step.run_bind]
    have slept : ((onChannel (Channel.sleep d.config.procedureRetryDelay)).run d).2.exchanges = d.exchanges := rfl
    have kept : ((onChannel (Channel.sleep d.config.procedureRetryDelay)).run d).2.phase = d.phase := rfl
    rcases hs : (onChannel (Channel.sleep d.config.procedureRetryDelay)).run d with ⟨e | _, d'⟩
    all_goals rw [hs] at slept kept
    · exact ⟨[made], by simpa using slept.trans exchanges, .interrupted read (busy ▸ shows)⟩
    · obtain ⟨reads, later, awaits⟩ := ih (kept.trans stays)
      refine ⟨made :: reads, ?_, .again read (busy ▸ shows) awaits⟩
      rw [List.flatten_cons, List.reverse_append, List.append_assoc, ← exchanges, ← slept]
      exact later

/-! ### What a wait has shown -/

namespace ReadsOnce

variable {q : TableRequest} {number : UInt16} {offset : Option UInt32} {table : TableData} {e : Fault}
  {made : List Transaction}

theorem tries {out : Except Fault TableData} (h : ReadsOnce q number offset made out) :
    ∃ busy t, made = busy ++ [t] ∧ Tries q busy t := by
  cases h with
  | failed tries | answered tries => exact ⟨_, _, rfl, tries⟩

/-- A read that succeeds has brought the table, and nothing else. -/
theorem supplied_ok (h : ReadsOnce q number offset made (.ok table)) :
    supplied made = table.data ∧ ∀ t ∈ made, ∀ data, t.supply? = some data → data = table.data := by
  cases h with
  | @answered busy t _ tries answered =>
    obtain ⟨-, supply, -⟩ := Transaction.table_ok answered
    refine ⟨by rw [tries.supplied_eq, supply]; rfl, fun u mem data brings => ?_⟩
    rcases List.mem_append.1 mem with waited | last
    · cases (tries.waited u waited).supply?_eq.symm.trans brings
    · obtain rfl := List.mem_singleton.1 last
      exact Option.some.inj (brings.symm.trans supply)

/-- A read that fails has brought nothing. -/
theorem supplied_error (h : ReadsOnce q number offset made (.error e)) : ∀ t ∈ made, t.supply? = none := by
  cases h with
  | @failed busy t _ tries reason =>
    exact List.forall_mem_append.2 ⟨fun u mem => (tries.waited u mem).supply?_eq,
      List.forall_mem_singleton.2 (Transaction.not_supplied reason).1⟩

end ReadsOnce

namespace Awaits

variable {head : Bytes}

theorem length_le (h : Awaits head retries reads out) : reads.length ≤ retries + 1 := by
  induction h with
  | again read shows later ih => exact Nat.succ_le_succ ih
  | failed | unlike | completed | refused | interrupted => exact Nat.succ_le_succ (Nat.zero_le _)

theorem ne_nil (h : Awaits head retries reads out) : reads ≠ [] := by
  cases h <;> exact List.cons_ne_nil _ _

/-- Every read asks for table 8. -/
theorem asks (h : Awaits head retries reads out) :
    ∀ made ∈ reads, ∃ busy t, made = busy ++ [t] ∧ Tries (.readFull 8) busy t := by
  induction h with
  | again read shows later ih => exact List.forall_mem_cons.2 ⟨read.tries, ih⟩
  | failed read | unlike read | completed read | refused read | interrupted read =>
    exact List.forall_mem_singleton.2 read.tries

/-- Behind an answer to the request that is not completed yet, and behind no other, the table is read again. -/
theorem pending (h : Awaits head retries reads out) :
    ∀ made ∈ reads.dropLast, ∃ data, supplied made = head ++ 1 :: data := by
  induction h with
  | @again retries made table data reads out read shows later ih =>
    rw [List.dropLast_cons_of_ne_nil later.ne_nil]
    exact List.forall_mem_cons.2 ⟨⟨data, read.supplied_ok.1.trans shows⟩, ih⟩
  | failed | unlike | completed | refused | interrupted => exact List.forall_mem_nil _

/-- A wait succeeds exactly with the data behind a completed answer, which is the last one. -/
theorem eq_ok_iff (h : Awaits head retries reads out) :
    out = .ok data ↔ ∃ made, reads.getLast? = some made ∧ supplied made = head ++ 0 :: data := by
  -- of a single read: what its table shows decides
  have single {made : List Transaction} {table : TableData} (read : ReadsResult made (.ok table)) :
      (∃ made', [made].getLast? = some made' ∧ supplied made' = head ++ 0 :: data) ↔ table.data = head ++ 0 :: data := by
    rw [← read.supplied_ok.1]
    simp
  induction h with
  | @failed retries made e read =>
    have nothing : supplied made = [] := List.flatMap_eq_nil_iff.2 fun t mem => by rw [read.supplied_error t mem]; rfl
    simp [nothing]
  | unlike read unlike cause =>
    rw [single read]
    simp [unlike 0 data]
  | completed read shows =>
    rw [single read, shows]
    simp
  | refused read shows ended last =>
    rw [single read, shows]
    simp [ended]
  | interrupted read shows =>
    rw [single read, shows]
    simp
  | @again retries made table data' reads out read shows later ih =>
    have last : (made :: reads).getLast? = reads.getLast? := by
      rw [List.getLast?_cons, List.getLast?_eq_some_getLast later.ne_nil]
      rfl
    rw [last]
    exact ih

/-- Where the table shows something else, the wait fails as it does against the protocol. -/
theorem error_of_unlike (h : Awaits head retries reads out) {t : Transaction} {table : Bytes}
    (mem : t ∈ reads.flatten) (shows : t.supply? = some table)
    (unlike : ∀ result data, table ≠ head ++ result :: data) : ∃ cause, out = .error (.protocol cause) := by
  -- an answer to the request does not show anything else
  have like {made : List Transaction} {table' : TableData} {result : UInt8} {data : Bytes}
      (read : ReadsResult made (.ok table')) (alike : table'.data = head ++ result :: data) : t ∉ made := fun mem =>
    unlike result data (((read.supplied_ok.2 t mem table shows)).trans alike)
  induction h with
  | @failed retries made e read =>
    rw [List.flatten_singleton] at mem
    cases (read.supplied_error t mem).symm.trans shows
  | unlike read unlike cause => exact ⟨cause, rfl⟩
  | completed read alike | refused read alike | interrupted read alike =>
    rw [List.flatten_singleton] at mem
    exact absurd mem (like read alike)
  | again read alike later ih =>
    rw [List.flatten_cons] at mem
    exact ih ((List.mem_append.1 mem).resolve_left (like read alike))

end Awaits

/-! ## The write -/

/-- A write of a table: it is not begun where the data do not fit, and else the requests of a plan are handed over. -/
inductive WritesTable (d : Descriptor) (data : Bytes) (maxWrite limit : Nat) :
    List (List Transaction) → Except Fault Unit → Prop where
  | unsent {e : Fault} : WritesTable d data maxWrite limit [] (.error e)
  | sent {plan : List TableRequest} {calls : List (List Transaction)} {out : Except Fault Unit}
      (planned : d.Plan data maxWrite limit plan) (writes : Writes plan calls out) : WritesTable d data maxWrite limit calls out

/-- Where pieces have no room for a byte, only a whole table that fits is written. -/
theorem writeActive_cramped {d : Descriptor} (active : c.phase = .active) (cramped : c.maxPartialWrite = 0)
    (valid : d.validateWrite data = .ok ()) :
    (∃ e, (writeActive d data).run c = (.error e, c)) ∨ ∃ plan calls, d.Plan data c.maxWrite c.maxPartialWrite plan ∧
      Sent plan c calls ((writeActive d data).run c).1 ((writeActive d data).run c).2 := by
  obtain ⟨holds, -, some⟩ := Descriptor.takes_of_validateWrite valid
  have noRoom (number : UInt16) (offset : Nat) :
      (writeInPieces number offset data c.maxPartialWrite).run c = (.error (.invalidState .noRoomForData), c) := by
    unfold writeInPieces
    rw [if_pos cramped]
    rfl
  unfold writeActive
  rw [valid, Step.run_bind_of_ok (Step.run_ofExcept _ _), Step.run_bind_of_ok (ensureActive_ok active)]
  dsimp only
  rw [Step.run_get_bind]
  rcases access : d.access with _ | ⟨offset, count⟩
  · dsimp only
    split
    next fits =>
      obtain ⟨request, built, asks⟩ := TableRequest.writeFull_made d.wireNumber (Nat.le_trans fits (limits_le c).2.1)
      rw [holds.wireNumber] at asks
      rw [built, Step.run_bind_of_ok (Step.run_ofExcept _ _)]
      obtain ⟨calls, sent⟩ := transact_only asks c
      exact .inr ⟨_, calls, .whole access fits, sent⟩
    next => exact .inl ⟨_, noRoom _ _⟩
  · have filled : data ≠ [] := some fun full => by cases full.symm.trans access
    dsimp only
    split
    next fits => exact absurd (List.length_eq_zero_iff.1 (Nat.le_zero.1 (cramped ▸ fits))) filled
    next => exact .inl ⟨_, noRoom _ _⟩

theorem writeActive_writes (active : c.phase = .active) (d : Descriptor) (data : Bytes) :
    ∃ calls, ((writeActive d data).run c).2.exchanges = calls.flatten.reverse ++ c.exchanges ∧
      WritesTable d data c.maxWrite c.maxPartialWrite calls ((writeActive d data).run c).1 := by
  have unsent {e : Fault} (run : (writeActive d data).run c = (.error e, c)) :
      ∃ calls, ((writeActive d data).run c).2.exchanges = calls.flatten.reverse ++ c.exchanges ∧
        WritesTable d data c.maxWrite c.maxPartialWrite calls ((writeActive d data).run c).1 := by
    rw [run]
    exact ⟨[], rfl, .unsent⟩
  rcases valid : d.validateWrite data with e | _
  · have checked : (Step.ofExcept (d.validateWrite data)).run c = (.error e, c) := by rw [valid, Step.run_ofExcept]
    exact unsent (Step.run_bind_of_error checked)
  rcases Nat.eq_zero_or_pos c.maxPartialWrite with cramped | room
  · obtain ⟨e, run⟩ | ⟨plan, calls, planned, sent⟩ := writeActive_cramped active cramped valid
    · exact unsent run
    · exact ⟨calls, sent.exchanges, .sent planned sent.writes⟩
  · obtain ⟨plan, calls, planned, sent⟩ := writeActive_sent active room valid
    exact ⟨calls, sent.exchanges, .sent planned sent.writes⟩

/-- A meter that has carried out a write that succeeded holds the data. -/
theorem WritesTable.holds {d : Descriptor} {maxWrite limit : Nat} {calls : List (List Transaction)} {m m' : Memory}
    (h : WritesTable d data maxWrite limit calls (.ok ())) (meter : Meter m calls.flatten m') (i : Nat)
    (inside : i < data.length) : m' d.number.toNat (d.first + i) = data[i] := by
  cases h with
  | sent planned writes => exact (planned.holds ((writes.applied meter).1 rfl)).1 i inside

/-! ## Calls -/

/-- A procedure that was run: the write of its request, and if that succeeded the reads of its result. -/
structure RunsProcedure (r : ProcedureRequest) (c : Client) (calls reads : List (List Transaction))
    (written : Except Fault Unit) (out : Except Fault Bytes) : Prop where
  writes : WritesTable (.full procedureRequestTable) (r.bytes c.config.procedureNumberLittleEndian) c.maxWrite
    c.maxPartialWrite calls written
  failed : ∀ e, written = .error e → reads = [] ∧ out = .error e
  awaits : written = .ok () →
    Awaits (r.head c.config.procedureNumberLittleEndian) c.config.procedureRetries.toNat reads out

/-- **A procedure** takes the next sequence byte. -/
theorem procedureActive_runs (active : c.phase = .active) (number : UInt16) (parameters : Bytes) :
    ∃ calls reads written,
      ((procedureActive number parameters).run c).2.exchanges = (calls.flatten ++ reads.flatten).reverse ++ c.exchanges ∧
      RunsProcedure ⟨number, c.procedureSequence, parameters⟩ c calls reads written
        ((procedureActive number parameters).run c).1 := by
  unfold procedureActive
  rw [Step.run_bind_of_ok (ensureActive_ok active), Step.run_get_bind]
  dsimp only
  rw [Step.run_set_bind]
  generalize hr : (⟨number, c.procedureSequence, parameters⟩ : ProcedureRequest) = r
  generalize hd : ({ c with procedureSequence := c.procedureSequence + 1 } : Client) = d
  have up : d.phase = .active := by rw [← hd]; exact active
  obtain ⟨calls, exchanges, writes⟩ := writeActive_writes up (.full procedureRequestTable)
    (r.bytes c.config.procedureNumberLittleEndian)
  have stays := (core_eq_iff.1 (writeActive_frame frame_core.transfers.tables (.full procedureRequestTable)
    (r.bytes c.config.procedureNumberLittleEndian) d)).1.trans up
  have same : d.exchanges = c.exchanges ∧ d.maxWrite = c.maxWrite ∧ d.maxPartialWrite = c.maxPartialWrite := by
    rw [← hd]
    exact ⟨rfl, rfl, rfl⟩
  rw [same.1] at exchanges
  rw [same.2.1, same.2.2] at writes
  rw [Step.run_bind]
  rcases hw : (writeActive (.full procedureRequestTable) (r.bytes c.config.procedureNumberLittleEndian)).run d with
    ⟨e | _, d'⟩
  all_goals rw [hw] at exchanges writes stays
  · refine ⟨calls, [], .error e, by simpa using exchanges, writes, fun e' same => ⟨rfl, ?_⟩, nofun⟩
    rw [Except.error.inj same]
  · have sequence : c.procedureSequence = r.sequence := by rw [← hr]
    have number' : number = r.number := by rw [← hr]
    dsimp only
    rw [number', sequence]
    obtain ⟨reads, later, awaits⟩ := awaitProcedure_awaits r c.config.procedureNumberLittleEndian
      c.config.procedureRetries.toNat stays
    refine ⟨calls, reads, .ok (), ?_, writes, nofun, fun _ => awaits⟩
    rw [List.reverse_append, List.append_assoc, ← exchanges]
    exact later

/-! ### Sequence bytes -/

variable {α : Type}

theorem aloof_sequence : Aloof procedureSequence := fun _ _ _ _ _ => rfl

theorem shutdown_sequence : Moves (Same procedureSequence) shutdown := by
  intro c
  rw [shutdown_run]

theorem startFrame_sequence : StartFrame (fun _ => True) (Same procedureSequence) where
  toSessionFrame := (frame_same aloof_sequence).session
  moved _ _ _ := rfl
  recognised _ _ := rfl
  begun := onAssociated_same aloof_sequence _
  loggedOn := onAssociated_same aloof_sequence _
  opened := fun _ => rfl
  closed := shutdown_sequence

theorem operationFrame_sequence : OperationFrame (fun _ => True) (Same procedureSequence) where
  toTableFrame := (frame_same aloof_sequence).transfers.tables
  waits _ := trivial
  forgot := changeLink_same aloof_sequence _
  bounded _ := .modify fun _ => rfl
  closed := shutdown_sequence

/-- Settling leaves the number of procedures alone. -/
theorem settle_sequence (x : Step Client α) (c : Client) :
    ((settle x).run c).2.procedureSequence = (x.run c).2.procedureSequence := by
  rcases hx : x.run c with ⟨e | a, t⟩
  · obtain ⟨e', t', excused, -⟩ := excuse_eq e t
    have kept : t'.procedureSequence = t.procedureSequence :=
      (excuse_frame (changeLink_same aloof_sequence _) e).of_run excused
    rw [settle_run_excused hx excused]
    dsimp only
    split
    · exact (shutdown_sequence t').trans kept
    · exact kept
  · rw [settle_run_ok hx]

/-- **A procedure of an active session** is counted, whatever comes of it, and without a session it is not. -/
theorem procedure_sequence (number : UInt16) (parameters : Bytes) (timeout : Option Duration) (c : Client) :
    ((Operation.transfer (.procedure number parameters) timeout).step.run c).2.procedureSequence =
      if c.phase = .active then c.procedureSequence + 1 else c.procedureSequence := by
  have plain (c : Client) : ((Transfer.procedure number parameters).step.run c).2.procedureSequence =
      if c.phase = .active then c.procedureSequence + 1 else c.procedureSequence := by
    unfold Transfer.step runProcedure
    rw [ignored_run]
    refine (settle_sequence _ c).trans ?_
    split
    next active =>
      unfold procedureActive
      rw [Step.run_bind_of_ok (ensureActive_ok active), Step.run_get_bind]
      dsimp only
      rw [Step.run_set_bind]
      have tables := operationFrame_sequence.toTableFrame
      exact (Moves.bind (writeActive_frame tables _ _) fun _ => awaitProcedure_frame tables _ _ _ _) _
    next down =>
      have idle : c.phase.isActive = false := by
        rw [Phase.isActive]
        simpa using down
      unfold procedureActive
      rw [Step.run_bind_of_error (ensureActive_run idle)]
  cases timeout with
  | none => exact plain c
  | some timeout =>
    obtain ⟨limited, -, run⟩ := within_run timeout (Transfer.procedure number parameters).step c
    unfold Operation.step
    rw [run]
    exact plain { c with channel := limited }

/-- What does not run a procedure does not count one. -/
theorem operation_sequence (o : Operation) (other : ∀ t timeout, o = .transfer t timeout → ¬ t.IsProcedure) :
    Moves (Same procedureSequence) o.step := by
  cases o with
  | start => exact startSession_frame startFrame_sequence (timingSetup_same aloof_sequence)
  | transfer t timeout => exact transfer_frame operationFrame_sequence t timeout fun runs => absurd runs (other t timeout rfl)
  | finish => exact endSession_frame startFrame_sequence

/-- What comes of a client in use, with the number of procedures that were run on an active session. Between operations
the line does what it wants, and the caller may reset the channel or ask for progress. -/
inductive Counted (base : Client) : Nat → Client → Prop
  | start : Counted base 0 base
  | meanwhile {n : Nat} {c : Client} (before : Counted base n c) (channel : Channel) (watched : Bool) :
      Counted base n { c with channel, watched }
  | procedure {n : Nat} {c : Client} (before : Counted base n c) (active : c.phase = .active) (number : UInt16)
      (parameters : Bytes) (timeout : Option Duration) :
      Counted base (n + 1) ((Operation.transfer (.procedure number parameters) timeout).step.run c).2
  | other {n : Nat} {c : Client} (before : Counted base n c) (o : Operation)
      (other : ∀ t timeout, o = .transfer t timeout → t.IsProcedure → c.phase ≠ .active) :
      Counted base n (o.step.run c).2

/-- **The sequence byte** is the number of procedures so far. -/
theorem Counted.sequence {base : Client} {n : Nat} (h : Counted base n c) :
    c.procedureSequence = base.procedureSequence + UInt8.ofNat n := by
  induction h with
  | start => exact (UInt8.add_zero _).symm
  | meanwhile _ _ _ ih => exact ih
  | procedure _ active number parameters timeout ih =>
    rw [procedure_sequence, if_pos active, ih, UInt8.add_assoc, ← UInt8.ofNat_one, ← UInt8.ofNat_add]
  | @other n c _ o other ih =>
    by_cases runs : ∃ t timeout, o = .transfer t timeout ∧ t.IsProcedure
    · obtain ⟨_, timeout, rfl, number, parameters, rfl⟩ := runs
      rw [procedure_sequence, if_neg (other _ timeout rfl ⟨number, parameters, rfl⟩), ih]
    · exact (operation_sequence o (fun t timeout same is => runs ⟨t, timeout, same, is⟩) c).trans ih

/-! ### What comes of a call -/

/-- A fault that ends the session does so, unless a deadline had passed. -/
theorem settle_ends {x : Step Client α} {t : Client} {r : Except Fault α} {e : Fault}
    (run : (settle x).run c = (r, c')) (failed : x.run c = (.error e, t)) (ends : e.disposition = .disconnect) :
    (∃ e', r = .error e') ∧ (c'.channel.deadlineHit = false → c'.phase = .disconnected) := by
  obtain ⟨e', t', excused, channel, -, judged⟩ := excuse_eq e t
  obtain ⟨rfl, rfl⟩ := Prod.mk.inj (run.symm.trans (settle_run_excused failed excused))
  refine ⟨⟨e', rfl⟩, fun unhit => ?_⟩
  split at unhit
  next down =>
    rw [if_pos down, shutdown_run]
  next stays =>
    rw [channel] at unhit
    rw [unhit, Bool.false_and, if_neg Bool.false_ne_true] at judged
    rw [if_neg stays]
    by_contra up
    exact stays ⟨judged ▸ ends, up⟩

/-- What comes of a procedure: the calls that write its request, and the reads of its result. -/
structure Executed (request : ProcedureRequest) (c : Client) (calls reads : List (List Transaction))
    (r : Except Fault Bytes) (c' : Client) : Prop where
  /-- That is all that is handed over. -/
  exchanges : c'.exchanges = (calls.flatten ++ reads.flatten).reverse ++ c.exchanges
  /-- The request is written to table 7, and table 8 is read only behind a write that succeeded. -/
  written : ∃ out, WritesTable (.full 7) (request.bytes c.config.procedureNumberLittleEndian) c.maxWrite
    c.maxPartialWrite calls out ∧ (reads ≠ [] → out = .ok ())
  /-- A meter that has carried out what it accepted then holds number, sequence byte and parameters. -/
  holds : reads ≠ [] → ∀ m m', Meter m calls.flatten m' →
    ∀ i (inside : i < (request.bytes c.config.procedureNumberLittleEndian).length),
      m' 7 i = (request.bytes c.config.procedureNumberLittleEndian)[i]
  /-- Each read asks for table 8, again only where the meter was busy. -/
  asks : ∀ made ∈ reads, ∃ busy t, made = busy ++ [t] ∧ Tries (.readFull 8) busy t
  few : reads.length ≤ c.config.procedureRetries.toNat + 1
  /-- Another read follows only an answer to this request that is not completed. -/
  pending : ∀ made ∈ reads.dropLast, ∃ data,
    supplied made = request.head c.config.procedureNumberLittleEndian ++ 1 :: data
  /-- What is returned are the data of a completed answer to this request, the last that was read. -/
  completed : ∀ data, r = .ok data ↔ ∃ made, reads.getLast? = some made ∧
    supplied made = request.head c.config.procedureNumberLittleEndian ++ 0 :: data
  /-- An answer to something else fails the call and ends the session, unless a deadline had passed. -/
  unlike : ∀ t ∈ reads.flatten, ∀ table, t.supply? = some table →
    (∀ result data, table ≠ request.head c.config.procedureNumberLittleEndian ++ result :: data) →
      (∃ e, r = .error e) ∧ (c'.channel.deadlineHit = false → c'.phase = .disconnected)

/-- **A procedure is answered** by the meter that was asked for it, and takes the sequence byte that is next, whatever
comes of it. -/
theorem runProcedure_answered {base : Client} {n : Nat} {number : UInt16} {parameters : Bytes} {r : Except Fault Bytes}
    (counted : Counted base n c) (active : c.phase = .active)
    (run : (runProcedure number parameters).run c = (r, c')) :
    Counted base (n + 1) c' ∧ ∃ calls reads,
      Executed ⟨number, base.procedureSequence + UInt8.ofNat n, parameters⟩ c calls reads r c' := by
  have counts : Counted base (n + 1) c' := by
    have same : ((Operation.transfer (.procedure number parameters) none).step.run c).2 = c' := by
      unfold Operation.step Transfer.step
      rw [ignored_run, run]
    exact same ▸ .procedure counted active number parameters none
  refine ⟨counts, ?_⟩
  rw [← counted.sequence]
  obtain ⟨calls, reads, out, exchanges, runs⟩ := procedureActive_runs active number parameters
  obtain ⟨settled, done⟩ := settle_exchanges run
  have awaits (some : reads ≠ []) : out = .ok () := by
    rcases out with e | _
    · exact absurd (runs.failed e rfl).1 some
    · rfl
  have same (data : Bytes) : r = .ok data ↔ ((procedureActive number parameters).run c).1 = .ok data := by
    refine ⟨fun ok => congrArg Prod.fst (done data ok), fun ok => ?_⟩
    exact congrArg Prod.fst (run.symm.trans (settle_run_ok (Step.run_eq_of_fst ok)))
  refine ⟨calls, reads, settled.trans exchanges, ⟨out, runs.writes, awaits⟩, ?holds, ?asks, ?few, ?pending, ?completed,
    ?unlike⟩
  case holds =>
    intro some m m' meter i inside
    have writes := runs.writes
    rw [awaits some] at writes
    have holds := writes.holds meter i inside
    rwa [show (Descriptor.full procedureRequestTable).first = 0 from rfl, Nat.zero_add] at holds
  all_goals rcases out with e | _
  case asks.error | pending.error =>
    rw [(runs.failed e rfl).1]
    exact List.forall_mem_nil _
  case few.error =>
    rw [(runs.failed e rfl).1]
    exact Nat.zero_le _
  case completed.error =>
    obtain ⟨rfl, failed⟩ := runs.failed e rfl
    intro data
    rw [same, failed]
    simp
  case unlike.error =>
    obtain ⟨rfl, -⟩ := runs.failed e rfl
    exact List.forall_mem_nil _
  case asks.ok => exact (runs.awaits rfl).asks
  case few.ok => exact (runs.awaits rfl).length_le
  case pending.ok => exact (runs.awaits rfl).pending
  case completed.ok => exact fun data => (same data).trans (runs.awaits rfl).eq_ok_iff
  case unlike.ok =>
    intro t mem table shows unlike
    obtain ⟨cause, failed⟩ := (runs.awaits rfl).error_of_unlike mem shows unlike
    exact settle_ends run (Step.run_eq_of_fst failed) rfl

/-- A procedure that is completed at the second look, and one whose answer is left from another procedure. -/
theorem runProcedure_answered_twice :
    (∃ c' calls reads, (runProcedure 6 [1]).run (terseSession [[0], bringing [0, 6, 0, 1], bringing [0, 6, 0, 0, 0xAB]]) =
        (.ok [0xAB], c') ∧ c'.exchanges.length = 3 ∧ c'.phase = .active ∧
      Executed ⟨6, 0, [1]⟩ (terseSession [[0], bringing [0, 6, 0, 1], bringing [0, 6, 0, 0, 0xAB]]) calls reads
        (.ok [0xAB]) c') ∧
    ∃ e c', (runProcedure 6 [1]).run (terseSession [[0], bringing [0, 6, 9, 0, 0xAB]]) = (.error e, c') ∧
      c'.phase = .disconnected := by
  constructor
  · have facts : ((runProcedure 6 [1]).run (terseSession [[0], bringing [0, 6, 0, 1], bringing [0, 6, 0, 0, 0xAB]])).1 =
          .ok [0xAB] ∧
        ((runProcedure 6 [1]).run (terseSession [[0], bringing [0, 6, 0, 1], bringing [0, 6, 0, 0, 0xAB]])).2.phase =
          .active ∧
        ((runProcedure 6 [1]).run (terseSession [[0], bringing [0, 6, 0, 1], bringing [0, 6, 0, 0, 0xAB]])).2.exchanges.length =
          3 := by decide +kernel
    have run := Step.run_eq_of_fst facts.1
    obtain ⟨-, calls, reads, executed⟩ := runProcedure_answered (n := 0) .start rfl run
    exact ⟨_, calls, reads, run, facts.2.2, facts.2.1, executed⟩
  · have facts : ((runProcedure 6 [1]).run (terseSession [[0], bringing [0, 6, 9, 0, 0xAB]])).1.toBool = false ∧
        ((runProcedure 6 [1]).run (terseSession [[0], bringing [0, 6, 9, 0, 0xAB]])).2.phase = .disconnected := by
      decide +kernel
    rcases run : (runProcedure 6 [1]).run (terseSession [[0], bringing [0, 6, 9, 0, 0xAB]]) with ⟨e | data, c'⟩
    all_goals rw [run] at facts
    · exact ⟨e, c', rfl, facts.2⟩
    · cases facts.1

/-! ## Sequence bytes that are left out -/

end Client

/-- The sequence byte of the procedure that a service starts on the line. A service that fails before it has sent
anything starts none. -/
def Transaction.started? (t : Transaction) : Option UInt8 :=
  if t.after.1.statistics.sent = t.before.1.statistics.sent then none
  else match TableRequest.ofBytes t.request.bytes with
    | some (.writeFull 7 data) => data[2]?
    | _ => none

namespace Client

/-- The sequence bytes that were sent, oldest first. -/
def sequencesSent (c : Client) : Bytes := c.exchanges.reverse.filterMap Transaction.started?

/-- Three procedures. The deadline of the second passes while the line is left alone before it is written to. -/
def procedures : List Operation :=
  [.transfer (.procedure 6 []) none, .transfer (.procedure 6 []) (some (Duration.ofMillis 10)),
    .transfer (.procedure 6 []) none]

/-- What operations make of a client, one after the other. -/
def operate (c : Client) (operations : List Operation) : Client := operations.foldl (fun c o => (o.step.run c).2) c

/-- All three are procedures of an active session, which they keep, but the byte of the second is not sent. -/
theorem sequencesSent_not_consecutive :
    let c := terseSession [[0], bringing [0, 6, 0, 0], [0], bringing [0, 6, 2, 0]]
    (∀ k < 4, (operate c (procedures.take k)).phase = .active) ∧ (operate c procedures).sequencesSent = [0, 2] ∧
      ¬ (operate c procedures).sequencesSent.IsChain (fun a b => b = a + 1) := by
  decide +kernel

end Client

end Metering
