import Metering.Proofs.Memory
import Metering.Proofs.Reading

set_option autoImplicit false

/-! # Writes of tables

A write of a table is one request, or pieces that follow each other (`Descriptor.Plan`). Each request is handed over in a
call of its own, behind one that was accepted (`Client.Writes`), so that a meter that carries out what it accepts holds
the data in the end, and has carried out just the requests before one that it refuses
(`Client.writeTable_written`). -/

namespace Metering

/-! ## Plans -/

/-- Writes of pieces one after the other, from a place on. -/
def TableRequest.writesFrom (table : Nat) : (place : Nat) → List Bytes → List TableRequest
  | _, [] => []
  | place, piece :: rest => .writePartial table place piece :: writesFrom table (place + piece.length) rest

/-- The requests that a write of a table is made of: one for the whole table, or pieces that follow each other without
gap or overlap, none of them empty or longer than the limit. -/
inductive Descriptor.Plan (d : Descriptor) (data : Bytes) (maxWrite limit : Nat) : List TableRequest → Prop where
  | whole (full : d.access = .full) (fits : data.length ≤ maxWrite) :
      Plan d data maxWrite limit [.writeFull d.number.toNat data]
  | pieces {pieces : List Bytes} (large : d.access = .full → maxWrite < data.length) (all : pieces.flatten = data)
      (short : ∀ piece ∈ pieces, piece ≠ [] ∧ piece.length ≤ limit) :
      Plan d data maxWrite limit (TableRequest.writesFrom d.number.toNat d.first pieces)

namespace Client

open Transaction (Tries)

/-- A write: its requests, one after the other, each in a call of its own behind one that was accepted. -/
inductive Writes : List TableRequest → List (List Transaction) → Except Fault Unit → Prop where
  | done : Writes [] [] (.ok ())
  | failed {q : TableRequest} {busy : List Transaction} {t : Transaction} {e : Fault} (tries : Tries q busy t)
      (reason : t.results = .error e ∨ t.FoundBusy) (rest : List TableRequest) :
      Writes (q :: rest) [busy ++ [t]] (.error e)
  | next {q : TableRequest} {busy : List Transaction} {t : Transaction} {rest : List TableRequest}
      {calls : List (List Transaction)} {out : Except Fault Unit} (tries : Tries q busy t) (accepted : t.Accepted)
      (writes : Writes rest calls out) : Writes (q :: rest) ((busy ++ [t]) :: calls) out

/-- What a write hands over between two states: its calls, and nothing is done to the channel behind the last of them,
unless that one found the meter busy. -/
structure Sent (plan : List TableRequest) (c : Client) (calls : List (List Transaction)) (out : Except Fault Unit)
    (c' : Client) : Prop where
  exchanges : c'.exchanges = calls.flatten.reverse ++ c.exchanges
  writes : Writes plan calls out
  rests : match calls.flatten.getLast? with
    | none => c'.channel = c.channel
    | some t => t.FoundBusy ∨ c'.channel = t.after.1

variable {c d c' : Client} {request : Request} {q : TableRequest} {plan rest : List TableRequest}
  {calls : List (List Transaction)} {out : Except Fault Unit} {busy : List Transaction} {t : Transaction}

/-- Where nothing is left to be written, nothing is handed over. -/
theorem Sent.nothing (exchanges : c'.exchanges = c.exchanges) (channel : c'.channel = c.channel) :
    Sent [] c [] (.ok ()) c' := ⟨exchanges, .done, channel⟩

theorem Sent.quiet (h : Sent plan c calls out d) (exchanges : c'.exchanges = d.exchanges)
    (channel : c'.channel = d.channel) : Sent plan c calls out c' where
  exchanges := exchanges.trans h.exchanges
  writes := h.writes
  rests := by
    rw [channel]
    exact h.rests

/-- A request that is not accepted ends a write. -/
theorem Called.sent_error {e : Fault} (h : Called request c (.error e) c' busy t)
    (asks : TableRequest.ofBytes request.bytes = some q) (rest : List TableRequest) :
    Sent (q :: rest) c [busy ++ [t]] (.error e) c' where
  exchanges := by simpa using h.exchanges
  writes := .failed (h.tries asks) (h.ended.imp (·.1.symm) (·.1)) rest
  rests := by
    have last : [busy ++ [t]].flatten.getLast? = some t := by simp
    rw [last]
    exact h.ended.symm.imp (·.1) (·.2)

/-- Behind a request that was accepted the next one follows. -/
theorem Called.sent_ok {results : Bytes} (h : Called request c (.ok results) d busy t)
    (asks : TableRequest.ofBytes request.bytes = some q) (next : Sent rest d calls out c') :
    Sent (q :: rest) c ((busy ++ [t]) :: calls) out c' := by
  obtain ⟨accepted, channel⟩ : t.results = .ok results ∧ d.channel = t.after.1 := by
    rcases h.ended with ⟨same, channel⟩ | ⟨-, e, failed⟩
    · exact ⟨same.symm, channel⟩
    · cases failed
  refine ⟨?_, .next (h.tries asks) ⟨results, accepted⟩ next.writes, ?_⟩
  · have both : ((busy ++ [t]) ++ calls.flatten).reverse = calls.flatten.reverse ++ (busy ++ [t]).reverse :=
      List.reverse_append
    rw [next.exchanges, h.exchanges, List.flatten_cons, both, List.append_assoc]
  · have rests := next.rests
    rw [List.flatten_cons, List.getLast?_append]
    rcases last : calls.flatten.getLast? with _ | t'
    · rw [last] at rests
      simp only [List.getLast?_append, List.getLast?_singleton, Option.none_or, Option.some_or]
      exact .inr (rests.trans channel)
    · rw [last] at rests
      exact rests

/-- A request of a write, with what is done behind it. -/
theorem transact_sent {f : Step Client Unit} (asks : TableRequest.ofBytes request.bytes = some q)
    (hf : ∀ d, ∃ calls, Sent rest d calls (f.run d).1 (f.run d).2) (c : Client) :
    ∃ calls, Sent (q :: rest) c calls ((do let _ ← transact request; f).run c).1
      ((do let _ ← transact request; f).run c).2 := by
  obtain ⟨busy, t, called⟩ := transact_called request c
  rw [Step.run_bind]
  rcases hx : (transact request).run c with ⟨e | results, d⟩
  all_goals rw [hx] at called
  · exact ⟨_, called.sent_error asks rest⟩
  · obtain ⟨calls, next⟩ := hf d
    exact ⟨_, called.sent_ok asks next⟩

/-- **A write in pieces** hands them over in their order. -/
theorem writePieces_sent (number : UInt16) (place : Nat) {pieces : List Bytes}
    (short : ∀ piece ∈ pieces, piece ≠ [] ∧ piece.length ≤ 0xFFFF)
    (near : place + pieces.flatten.length ≤ maxTableOffset + 1) (c : Client) :
    ∃ calls, Sent (TableRequest.writesFrom number.toNat place pieces) c calls ((writePieces number place pieces).run c).1
      ((writePieces number place pieces).run c).2 := by
  induction pieces generalizing place c with
  | nil => exact ⟨[], .nothing rfl rfl⟩
  | cons piece rest ih =>
    obtain ⟨⟨some, small⟩, later⟩ := List.forall_mem_cons.1 short
    rw [List.flatten_cons, List.length_append] at near
    have least := List.length_pos_iff.2 some
    have reached : place ≤ maxTableOffset := by omega
    obtain ⟨request, built, asks⟩ := TableRequest.writePartial_made number reached small
    unfold writePieces
    rw [built, Step.run_bind_of_ok (Step.run_ofExcept _ _)]
    refine transact_sent asks (fun d => ?_) c
    rw [Step.run_modify_bind]
    unfold follow
    rw [Step.run_modify_bind]
    obtain ⟨calls, sent⟩ := ih (place + piece.length) later (by omega) _
    exact ⟨calls, sent.exchanges, sent.writes, sent.rests⟩

end Client

namespace Descriptor

variable {d : Descriptor} {data : Bytes}

/-- Data that a descriptor takes lie where a request can reach, and a range takes some. -/
theorem takes_of_validateWrite (h : d.validateWrite data = .ok ()) :
    d.Valid ∧ d.first + data.length ≤ maxTableOffset + 1 ∧ (d.access ≠ .full → data ≠ []) := by
  obtain ⟨_, valid, sized⟩ := Step.except_bind_ok.1 h
  have holds := valid_of_validate valid
  refine ⟨holds, ?_⟩
  rcases access : d.access with _ | ⟨offset, count⟩
  · rw [access] at sized
    dsimp only at sized
    split at sized
    · cases sized
    next fits =>
      simp only [first, access, Nat.zero_add]
      exact ⟨Nat.le_of_not_gt fits, fun range => absurd rfl range⟩
  · rw [access] at sized
    dsimp only at sized
    split at sized
    · cases sized
    next same =>
      obtain ⟨least, -, near⟩ := holds.range offset count access
      have length : data.length = count.toNat := by simpa using same
      simp only [first, access]
      exact ⟨length ▸ near, fun _ => List.ne_nil_of_length_pos (by omega)⟩

end Descriptor

namespace Client

variable {c c' : Client} {d : Descriptor} {data : Bytes} {limit : Nat}

/-- The steps that only follow the progress do not matter. -/
theorem writeInPieces_sent (number : UInt16) {offset : Nat} (room : 0 < limit) (small : limit ≤ 0xFFFF)
    (near : offset + data.length ≤ maxTableOffset + 1) (c : Client) :
    ∃ pieces calls, pieces.flatten = data ∧ (∀ piece ∈ pieces, piece ≠ [] ∧ piece.length ≤ limit) ∧
      Sent (TableRequest.writesFrom number.toNat offset pieces) c calls ((writeInPieces number offset data limit).run c).1
        ((writeInPieces number offset data limit).run c).2 := by
  have all := Bytes.flatten_chunks room data
  have short (piece : Bytes) (mem : piece ∈ Bytes.chunks limit data) := Bytes.mem_chunks room mem
  unfold writeInPieces beginProgress
  rw [if_neg (Nat.ne_of_gt room), Step.run_modify_bind]
  obtain ⟨calls, sent⟩ := writePieces_sent number offset
    (fun piece mem => ⟨(short piece mem).1, Nat.le_trans (short piece mem).2 small⟩) (all.symm ▸ near)
    { c with progress := { watched := c.watched, total := data.length } }
  refine ⟨_, calls, all, short, ?_⟩
  rw [Step.run_bind]
  rcases hw : (writePieces number offset (Bytes.chunks limit data)).run
    { c with progress := { watched := c.watched, total := data.length } } with ⟨e | _, c'⟩
  all_goals
    rw [hw] at sent
    exact ⟨sent.exchanges, sent.writes, sent.rests⟩

/-- A write with one request. -/
theorem transact_only {request : Request} {q : TableRequest} (asks : TableRequest.ofBytes request.bytes = some q)
    (c : Client) :
    ∃ calls, Sent [q] c calls ((do let _ ← transact request : Step Client Unit).run c).1
      ((do let _ ← transact request : Step Client Unit).run c).2 :=
  transact_sent asks (fun _ => ⟨[], .nothing rfl rfl⟩) c

/-- **A write to a table** of an active session. -/
theorem writeActive_sent (active : c.phase = .active) (room : 0 < c.maxPartialWrite)
    (valid : d.validateWrite data = .ok ()) :
    ∃ plan calls, d.Plan data c.maxWrite c.maxPartialWrite plan ∧
      Sent plan c calls ((writeActive d data).run c).1 ((writeActive d data).run c).2 := by
  obtain ⟨holds, near, some⟩ := Descriptor.takes_of_validateWrite valid
  obtain ⟨-, whole, small⟩ := limits_le c
  have number := holds.wireNumber
  unfold writeActive
  rw [valid, Step.run_bind_of_ok (Step.run_ofExcept _ _), Step.run_bind_of_ok (ensureActive_ok active)]
  dsimp only
  rw [Step.run_get_bind]
  rcases access : d.access with _ | ⟨offset, count⟩
  · have first : d.first = 0 := by rw [Descriptor.first, access]
    dsimp only
    split
    next fits =>
      obtain ⟨request, built, asks⟩ := TableRequest.writeFull_made d.wireNumber (Nat.le_trans fits whole)
      rw [number] at asks
      rw [built, Step.run_bind_of_ok (Step.run_ofExcept _ _)]
      obtain ⟨calls, sent⟩ := transact_only asks c
      exact ⟨_, calls, .whole access fits, sent⟩
    next large =>
      rw [first] at near
      obtain ⟨pieces, calls, all, short, sent⟩ := writeInPieces_sent d.wireNumber room small near c
      rw [number, ← first] at sent
      exact ⟨_, calls, .pieces (fun _ => Nat.lt_of_not_le large) all short, first ▸ sent⟩
  · have first : d.first = offset.toNat := by rw [Descriptor.first, access]
    have ranged (full : d.access = .full) : c.maxWrite < data.length := by cases full.symm.trans access
    have filled : data ≠ [] := some fun full => by cases full.symm.trans access
    rw [first] at near
    dsimp only
    split
    next fits =>
      have place : offset.toNat ≤ maxTableOffset := by
        have := List.length_pos_iff.2 filled
        omega
      obtain ⟨request, built, asks⟩ := TableRequest.writePartial_made d.wireNumber place
        (Nat.le_trans fits small)
      rw [number] at asks
      rw [built, Step.run_bind_of_ok (Step.run_ofExcept _ _)]
      obtain ⟨calls, sent⟩ := transact_only asks c
      have only : ∀ piece ∈ [data], piece ≠ [] ∧ piece.length ≤ c.maxPartialWrite :=
        List.forall_mem_singleton.2 ⟨filled, fits⟩
      refine ⟨_, calls, .pieces ranged (List.flatten_singleton) only, ?_⟩
      rw [first]
      exact sent
    next large =>
      obtain ⟨pieces, calls, all, short, sent⟩ := writeInPieces_sent d.wireNumber room small near c
      rw [number, ← first] at sent
      exact ⟨_, calls, .pieces ranged all short, first ▸ sent⟩

end Client

/-- Pieces that follow each other are written as one. -/
theorem TableRequest.applyAll_writesFrom {table place : Nat} {pieces : List Bytes} {m m' : Memory} :
    ApplyAll (writesFrom table place pieces) m m' ↔ m' = m.write table place pieces.flatten := by
  induction pieces generalizing place m with
  | nil =>
    rw [List.flatten_nil, Memory.write_nil]
    rfl
  | cons piece rest ih =>
    rw [List.flatten_cons, ← Memory.write_append, ← ih]
    exact ⟨fun ⟨_, same, later⟩ => same ▸ later, fun later => ⟨_, rfl, later⟩⟩

namespace Client

variable {c c' : Client} {d : Descriptor} {plan : List TableRequest} {data : Bytes} {maxWrite limit : Nat}
  {calls : List (List Transaction)} {out : Except Fault Unit} {m m' : Memory}

theorem Writes.asks (h : Writes plan calls out) :
    ∀ t ∈ calls.flatten, ∃ q, TableRequest.ofBytes t.request.bytes = some q := by
  induction h with
  | done => exact List.forall_mem_nil _
  | failed tries =>
    rw [List.flatten_singleton]
    exact fun t mem => ⟨_, tries.same t mem⟩
  | next tries accepted writes ih =>
    rw [List.flatten_cons]
    exact List.forall_mem_append.2 ⟨fun t mem => ⟨_, tries.same t mem⟩, ih⟩

/-- A meter that is never busy is asked once for each request. -/
theorem Writes.length_eq (h : Writes plan calls out) (idle : ∀ t ∈ calls.flatten, ¬ t.FoundBusy) :
    calls.length = calls.flatten.length := by
  induction h with
  | done => rfl
  | failed tries =>
    rw [List.flatten_singleton] at idle ⊢
    rw [tries.alone idle]
    rfl
  | next tries accepted writes ih =>
    rw [List.flatten_cons] at idle ⊢
    obtain ⟨here, later⟩ := List.forall_mem_append.1 idle
    rw [tries.alone here, List.length_cons, ih later]
    rfl

theorem Writes.flatten_ne_nil (h : Writes plan calls out) (some : calls ≠ []) : calls.flatten ≠ [] := by
  cases h with
  | done => exact absurd rfl some
  | failed | next => simp

/-- **What a meter has carried out** of a write: all of it if the write succeeds, and what was accepted before if
the meter refuses to go on. -/
theorem Writes.applied (h : Writes plan calls out) (meter : Meter m calls.flatten m') :
    (out = .ok () → TableRequest.ApplyAll plan m m') ∧ (∀ t code, calls.flatten.getLast? = some t → t.RefusedWith code →
      TableRequest.ApplyAll (plan.take (calls.length - 1)) m m') := by
  induction h generalizing m with
  | done =>
    rw [List.flatten_nil] at meter ⊢
    cases meter with
    | nothing => exact ⟨fun _ => rfl, fun t code last => by cases last⟩
  | @failed q busy t e tries reason rest =>
    rw [List.flatten_singleton] at meter ⊢
    refine ⟨nofun, fun t' code last refused => ?_⟩
    rw [List.getLast?_concat] at last
    obtain rfl := Option.some.inj last
    have behind := (meter.of_busy tries.waited).of_refused refused
    cases behind with
    | nothing => rfl
  | @next q busy t rest calls out tries accepted writes ih =>
    rw [List.flatten_cons, List.append_assoc] at meter
    obtain ⟨next, applies, later⟩ := (meter.of_busy tries.waited).of_accepted (tries.same t (by simp)) accepted
    obtain ⟨whole, part⟩ := ih later
    refine ⟨fun same => ⟨next, applies, whole same⟩, fun t' code last refused => ?_⟩
    rw [List.flatten_cons, List.getLast?_append] at last
    cases calls with
    | nil =>
      -- the call that was accepted is not one that was refused
      rw [List.flatten_nil, List.getLast?_nil, Option.none_or, List.getLast?_concat] at last
      obtain rfl := Option.some.inj last
      exact absurd accepted refused.not_accepted
    | cons call others =>
      have behind : (call :: others).flatten ≠ [] := writes.flatten_ne_nil (List.cons_ne_nil _ _)
      obtain ⟨t'', last'⟩ := Option.isSome_iff_exists.1 (List.getLast?_isSome.2 behind)
      rw [last', Option.some_or] at last
      obtain rfl := Option.some.inj last
      exact ⟨next, applies, part _ code last' refused⟩

end Client

namespace TableRequest

/-- Writes of pieces stay within what is written. -/
theorem mem_writesFrom {table place : Nat} {pieces : List Bytes} {q : TableRequest}
    (h : q ∈ writesFrom table place pieces) :
    ∃ place' piece, q = .writePartial table place' piece ∧ piece ∈ pieces ∧ place ≤ place' ∧
      place' + piece.length ≤ place + pieces.flatten.length := by
  induction pieces generalizing place with
  | nil => cases h
  | cons piece rest ih =>
    rw [List.flatten_cons, List.length_append]
    rcases List.mem_cons.1 h with rfl | later
    · exact ⟨place, piece, rfl, List.mem_cons_self, Nat.le_refl _, by omega⟩
    · obtain ⟨place', piece', rfl, mem, behind, within⟩ := ih later
      exact ⟨place', piece', rfl, List.mem_cons_of_mem _ mem, by omega, by omega⟩

end TableRequest

namespace Descriptor

variable {d : Descriptor} {data piece : Bytes} {maxWrite limit table place : Nat} {plan : List TableRequest}
  {m m' : Memory}

/-- An offset fits its field. -/
theorem Plan.near (h : d.Plan data maxWrite limit plan) (near : d.first + data.length ≤ maxTableOffset + 1)
    (mem : .writePartial table place piece ∈ plan) : place ≤ maxTableOffset := by
  cases h with
  | whole => cases List.mem_singleton.1 mem
  | pieces large all short =>
    obtain ⟨place', piece', same, mem', -, within⟩ := TableRequest.mem_writesFrom mem
    obtain ⟨rfl, rfl, rfl⟩ := TableRequest.writePartial.inj same
    have some := List.length_pos_iff.2 (short piece mem').1
    rw [all] at within
    omega

/-- What a meter holds that has carried out a plan. -/
theorem Plan.holds (h : d.Plan data maxWrite limit plan) (applied : TableRequest.ApplyAll plan m m') :
    (∀ i (inside : i < data.length), m' d.number.toNat (d.first + i) = data[i]) ∧
      ((d.access = .full → maxWrite < data.length) → m' = m.write d.number.toNat d.first data) := by
  cases h with
  | whole full fits =>
    obtain ⟨next, applies, rfl⟩ := applied
    have first : d.first = 0 := by rw [first, full]
    refine ⟨fun i inside => ?_, fun large => absurd fits (Nat.not_le_of_lt (large full))⟩
    rw [first, Nat.zero_add, applies _ _ (.inr inside)]
    exact (congrArg _ (Nat.zero_add i)).symm.trans (Memory.write_inside inside)
  | pieces large all short =>
    rw [TableRequest.applyAll_writesFrom, all] at applied
    subst applied
    exact ⟨fun i inside => Memory.write_inside inside, fun _ => rfl⟩

end Descriptor

namespace Client

variable {c c' : Client} {d : Descriptor} {plan : List TableRequest} {data : Bytes} {calls : List (List Transaction)}
  {r out : Except Fault Unit} {t : Transaction} {response : Bytes} {code : NokCode} {extra : Bytes}

/-- A refusal that repetition does not change ends a write. -/
theorem Writes.refused (h : Writes plan calls out) (last : calls.flatten.getLast? = some t)
    (result : t.result = .ok response)
    (refused : Response.results response = .error (.nok code extra)) (lasting : code.isRetryable = false) :
    out = .error (.nok code extra) := by
  have results : t.results = .error (.nok code extra) := by
    unfold Transaction.results
    rw [result]
    exact refused
  induction h with
  | done => cases last
  | @failed q busy t' e tries reason rest =>
    rw [List.flatten_singleton, List.getLast?_concat] at last
    obtain rfl := Option.some.inj last
    rcases reason with failed | found
    · rw [Except.error.inj (failed.symm.trans results)]
    · exact absurd found (Transaction.not_busy_of_refused ⟨response, extra, result, refused⟩ lasting)
  | @next q busy t' rest calls out tries accepted writes ih =>
    rw [List.flatten_cons, List.getLast?_append] at last
    rcases behind : calls.flatten.getLast? with _ | t''
    · rw [behind, Option.none_or, List.getLast?_concat] at last
      obtain rfl := Option.some.inj last
      obtain ⟨found, accepted⟩ := accepted
      cases results.symm.trans accepted
    · rw [behind, Option.some_or] at last
      exact ih (behind.trans last)

/-- **Writes in pieces equal whole writes.** A write of a table is one request for the whole of it, or pieces that follow
each other without gap or overlap. Where it succeeds, a meter that has carried out what it accepted holds the data, and
pieces touch nothing else. Where the meter refuses to go on, it has carried out the requests before, nothing is sent
behind its refusal, and that is what the client reports. -/
theorem writeTable_written (active : c.phase = .active) (room : 0 < c.maxPartialWrite)
    (valid : d.validateWrite data = .ok ()) (run : (writeTable d data).run c = (r, c')) :
    ∃ plan calls out, d.Plan data c.maxWrite c.maxPartialWrite plan ∧
      (∀ table place piece, .writePartial table place piece ∈ plan → place ≤ maxTableOffset) ∧
      c'.exchanges = calls.flatten.reverse ++ c.exchanges ∧ Writes plan calls out ∧ (r = .ok () ↔ out = .ok ()) ∧
      ∀ m m', Meter m calls.flatten m' →
        (r = .ok () → (∀ i (inside : i < data.length), m' d.number.toNat (d.first + i) = data[i]) ∧
          ((d.access = .full → c.maxWrite < data.length) → m' = m.write d.number.toNat d.first data)) ∧
        ∀ t response code extra, calls.flatten.getLast? = some t → t.result = .ok response →
          Response.results response = .error (.nok code extra) → code.isRetryable = false →
            TableRequest.ApplyAll (plan.take (calls.length - 1)) m m' ∧ c'.channel = t.after.1 ∧
              Reports c (.nok code extra) r := by
  obtain ⟨-, near, -⟩ := Descriptor.takes_of_validateWrite valid
  obtain ⟨plan, calls, planned, sent⟩ := writeActive_sent active room valid
  obtain ⟨exchanges, done⟩ := settle_exchanges run
  have same : r = .ok () ↔ ((writeActive d data).run c).1 = .ok () := by
    refine ⟨fun ok => congrArg Prod.fst (done () ok), fun ok => ?_⟩
    exact congrArg Prod.fst (run.symm.trans (settle_run_ok (Step.run_eq_of_fst ok)))
  refine ⟨plan, calls, _, planned, fun _ _ _ => planned.near near, exchanges.trans sent.exchanges, sent.writes, same,
    fun m m' meter => ⟨fun ok => ?_, fun t response code extra last result refused lasting => ?_⟩⟩
  · exact planned.holds ((sent.writes.applied meter).1 (same.1 ok))
  · have failed := sent.writes.refused last result refused lasting
    have rests := sent.rests
    rw [last] at rests
    obtain ⟨reported, channel⟩ := settle_reports (writeActive_unrushed d data) run (Step.run_eq_of_fst failed) rfl
    refine ⟨(sent.writes.applied meter).2 t code last ⟨response, extra, result, refused⟩, ?_, reported⟩
    exact channel.trans (rests.resolve_left (Transaction.not_busy_of_refused ⟨response, extra, result, refused⟩ lasting))

/-- A meter whose tables hold nothing but zeros. -/
def blank : Memory := fun _ _ => 0

/-- A range in two pieces: the meter accepts both, or refuses the second one. -/
theorem writeTable_written_split :
    (∃ c' m', (writeTable (.range 3 4 30) (ascending 30)).run (terseSession [[0], [0]]) = (.ok (), c') ∧
      c'.exchanges.length = 2 ∧ Meter blank c'.exchanges.reverse m' ∧ m' = blank.write 3 4 (ascending 30)) ∧
    ∃ c' plan m', (writeTable (.range 3 4 30) (ascending 30)).run (terseSession [[0], [3]]) =
        (.error (.nok .insufficientClearance []), c') ∧ (Descriptor.range 3 4 30).Plan (ascending 30) 17 15 plan ∧
      c'.exchanges.length = 2 ∧ Meter blank c'.exchanges.reverse m' ∧ TableRequest.ApplyAll (plan.take 1) blank m' := by
  have limits : (terseSession []).maxWrite = 17 ∧ (terseSession []).maxPartialWrite = 15 := by decide +kernel
  have room (responses : List Bytes) : 0 < (terseSession responses).maxPartialWrite :=
    Nat.lt_of_lt_of_eq (by decide) limits.2.symm
  constructor
  · have facts : ((writeTable (.range 3 4 30) (ascending 30)).run (terseSession [[0], [0]])).1 = .ok () ∧
        ((writeTable (.range 3 4 30) (ascending 30)).run (terseSession [[0], [0]])).2.exchanges.length = 2 := by
      decide +kernel
    have run := Step.run_eq_of_fst facts.1
    obtain ⟨plan, calls, out, -, -, exchanges, writes, -, written⟩ := writeTable_written rfl (room _) (by decide) run
    obtain ⟨m', meter⟩ := Meter.exists_of_asks blank writes.asks
    obtain ⟨-, pieces⟩ := (written blank m' meter).1 rfl
    exact ⟨_, m', run, facts.2, exchanged_terseSession exchanges ▸ meter, pieces nofun⟩
  · have facts : ((writeTable (.range 3 4 30) (ascending 30)).run (terseSession [[0], [3]])).1 =
          .error (.nok .insufficientClearance []) ∧
        ((writeTable (.range 3 4 30) (ascending 30)).run (terseSession [[0], [3]])).2.exchanges.map (·.result) =
          [.ok [3], .ok [0]] := by
      decide +kernel
    obtain ⟨returned, results⟩ := facts
    rcases run : (writeTable (.range 3 4 30) (ascending 30)).run (terseSession [[0], [3]]) with ⟨r, c'⟩
    rw [run] at returned results
    obtain ⟨plan, calls, out, planned, -, exchanges, writes, -, written⟩ :=
      writeTable_written rfl (room _) (by decide) run
    obtain ⟨m', meter⟩ := Meter.exists_of_asks blank writes.asks
    have made := exchanged_terseSession exchanges
    obtain ⟨t, _, both, result, rest⟩ := List.map_eq_cons_iff.1 results
    obtain ⟨t', _, rfl, result', none⟩ := List.map_eq_cons_iff.1 rest
    obtain rfl := List.map_eq_nil_iff.1 none
    rw [both] at made
    have refused : t.RefusedWith .insufficientClearance := ⟨[3], [], result, by decide⟩
    have accepted : t'.Accepted := ⟨[], by rw [Transaction.results, result']; decide⟩
    have idle : ∀ u ∈ calls.flatten, ¬ u.FoundBusy := by
      rw [made]
      exact List.forall_mem_cons.2 ⟨fun found => found.not_accepted accepted,
        List.forall_mem_singleton.2 (Transaction.not_busy_of_refused refused rfl)⟩
    have two : calls.length = 2 := by
      rw [writes.length_eq idle, made]
      rfl
    have last : calls.flatten.getLast? = some t := by rw [made]; rfl
    obtain ⟨applied, -, -⟩ := (written blank m' meter).2 t [3] .insufficientClearance [] last result (by decide) rfl
    rw [two] at applied
    refine ⟨c', plan, m', returned ▸ rfl, ?_, by rw [both]; rfl, ?_, applied⟩
    · rw [← limits.1, ← limits.2]
      exact planned
    · rw [both, ← made]
      exact meter

end Client

end Metering
