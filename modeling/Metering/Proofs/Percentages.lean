import Metering.Proofs.Progress

set_option autoImplicit false

/-! # Percentages of transfers

What a transfer reports is its counts in percent, with a number that is the same as the one before left out
(`Progress.Told`). A count is what the finished pieces have brought and what is there of the response at hand. It does
not only grow: a response counts with the bytes around its data, one that says that the meter is busy counts as well,
and where a request has to be repeated, its response is counted from the beginning (`Transaction.counts`). So a read
reports rising percentages exactly where its counts do not fall by a percent, and a write always does
(`Client.transfer_percents`). -/

namespace Metering

open Step (Moves Same)

/-! ## Counts in percent -/

namespace Progress

/-- A count in percent of a total. -/
def share (total count : Nat) : Nat := min count total * 100 / total

/-- The second count is not the lower one, in percent. -/
def NotBelow (total first second : Nat) : Prop := share total first ≤ share total second

instance (total first second : Nat) : Decidable (NotBelow total first second) := Nat.decLe _ _

variable {total : Nat} {counts told : List Nat} {last : Option Nat} {p : Progress}

theorem tell_eq (percent : Nat) (p : Progress) :
    p.tell percent = (if p.last = some percent then [] else [percent], { p with last := some percent }) := by
  unfold tell
  split
  next same => rw [← same]
  next => rfl

theorem report_eq (watched : p.watched = true) (known : p.total ≠ 0) (received : Nat) :
    p.report received = p.tell (share p.total (p.finished + received)) := by
  unfold report
  rw [watched, if_pos (by simpa using known)]
  rfl

theorem report_unknown (unknown : p.total = 0) (received : Nat) : p.report received = ([], p) := by
  simp [report, unknown]

theorem share_le (total count : Nat) : share total count ≤ 100 := by
  refine Nat.div_le_of_le_mul ?_
  exact Nat.mul_le_mul_right 100 (Nat.min_le_right count total)

theorem share_mono {first second : Nat} (h : first ≤ second) : NotBelow total first second := by
  refine Nat.div_le_div_right (Nat.mul_le_mul_right 100 ?_)
  omega

theorem notBelow_none (first second : Nat) : NotBelow 0 first second := by
  simp [NotBelow, share]

instance (total : Nat) : IsTrans Nat (NotBelow total) where
  trans _ _ _ := Nat.le_trans

/-- The percentages that were told are those of the counts, without the ones that repeat the one before. -/
structure Told (total : Nat) (counts told : List Nat) (last : Option Nat) : Prop where
  last : last = told.getLast?
  /-- A transfer of unknown length tells nothing on its way. -/
  unknown : total = 0 → told = []
  upToDate : total ≠ 0 → told.getLast? = counts.getLast?.map (share total)
  small : ∀ percent ∈ told, percent ≤ 100
  rising : told.Pairwise (· < ·) ↔ counts.Pairwise (NotBelow total)

theorem Told.nil (total : Nat) : Told total [] [] none where
  last := rfl
  unknown _ := rfl
  upToDate _ := rfl
  small := List.forall_mem_nil _
  rising := iff_of_true .nil .nil

/-- A further element is in its place exactly if it follows the last one. -/
theorem pairwise_concat_iff {R : Nat → Nat → Prop} [IsTrans Nat R] {l : List Nat} {a : Nat} :
    (l ++ [a]).Pairwise R ↔ l.Pairwise R ∧ ∀ last ∈ l.getLast?, R last a := by
  rw [← List.isChain_iff_pairwise, ← List.isChain_iff_pairwise, List.isChain_append]
  simp

/-- **One more count** is told unless it is the same in percent as the one before. -/
theorem Told.add (h : Told total counts told last) (known : total ≠ 0) (count : Nat) :
    Told total (counts ++ [count]) (told ++ if last = some (share total count) then [] else [share total count])
      (some (share total count)) := by
  have upToDate := h.upToDate known
  rw [h.last]
  split
  next same =>
    rw [List.append_nil]
    refine ⟨same.symm, fun none => absurd none known, fun _ => by simpa using same, h.small, ?_⟩
    rw [pairwise_concat_iff, h.rising]
    refine (and_iff_left ?_).symm
    intro before mem
    rw [Option.mem_def.1 mem, same] at upToDate
    exact Nat.le_of_eq (Option.some.inj upToDate).symm
  next other =>
    refine ⟨by simp, fun none => absurd none known, fun _ => by simp, ?_, ?_⟩
    · exact List.forall_mem_append.2 ⟨h.small, List.forall_mem_singleton.2 (share_le _ _)⟩
    · rw [pairwise_concat_iff, pairwise_concat_iff, h.rising, upToDate]
      refine and_congr_right fun _ => ?_
      rw [upToDate] at other
      rcases hl : counts.getLast? with _ | before
      · simp
      · have differ : share total before ≠ share total count := by
          rw [hl] at other
          simpa using other
        simp only [Option.map_some, Option.mem_def, Option.some.injEq, forall_eq', NotBelow]
        omega

/-- **The end** is told as the whole, unless that was told just before. -/
theorem Told.complete (h : Told total counts told last) {all : List Nat}
    (same : all = told ++ if last = some 100 then [] else [100]) : all.getLast? = some 100 ∧
      (∀ percent ∈ all, percent ≤ 100) ∧ (all.Pairwise (· < ·) ↔ counts.Pairwise (NotBelow total)) := by
  subst same
  rw [h.last, ← h.rising]
  split
  next whole =>
    rw [List.append_nil]
    exact ⟨whole, h.small, Iff.rfl⟩
  next other =>
    refine ⟨by simp, List.forall_mem_append.2 ⟨h.small, by simp⟩, ?_⟩
    rw [pairwise_concat_iff]
    refine and_iff_left fun before mem => ?_
    have small := h.small before (List.mem_of_getLast? mem)
    have differ : before ≠ 100 := fun same => other (same ▸ mem)
    omega

end Progress

/-! ## What is counted -/

namespace Transaction

/-- The lengths of the response that were counted while the service was with the wire: behind each packet that was
accepted, or when the whole response was there. -/
def heard (t : Transaction) : List Nat :=
  match t.before.2, t.result with
  | .packets link, _ => ((Linked.request t.request.bytes).run ⟨t.before.1, link⟩).2.link.reports
  | .apdus _, .ok response => [response.length]
  | .apdus _, .error _ => []

/-- The counts of a transfer that had brought so many bytes before these transactions. -/
def counts : (had : Nat) → List Transaction → List Nat
  | _, [] => []
  | had, t :: rest => t.heard.map (had + ·) ++ counts (had + (t.supply?.getD []).length) rest

variable {q : TableRequest} {busy : List Transaction} {t : Transaction}

theorem counts_append (had : Nat) (made rest : List Transaction) :
    counts had (made ++ rest) = counts had made ++ counts (had + (supplied made).length) rest := by
  induction made generalizing had with
  | nil => rfl
  | cons t made ih =>
    have first : supplied (t :: made) = t.supply?.getD [] ++ supplied made := List.flatMap_cons
    rw [List.cons_append, counts, ih, counts, List.append_assoc, first, List.length_append, Nat.add_assoc]

/-- All that is heard of one piece is counted from where the one before has ended. -/
theorem Tries.counts_eq (h : Tries q busy t) (had : Nat) :
    counts had (busy ++ [t]) = (busy ++ [t]).flatMap fun u => u.heard.map (had + ·) := by
  have waited := h.waited
  clear h
  induction busy with
  | nil => simp [counts]
  | cons u busy ih =>
    obtain ⟨found, waited⟩ := List.forall_mem_cons.1 waited
    rw [List.cons_append, counts, found.supply?_eq, List.flatMap_cons, Option.getD_none, List.length_nil, Nat.add_zero,
      ih waited]

end Transaction

/-! ## Following a transfer -/

namespace Client

open Transaction (Tries supplied counts)
open Progress (Told NotBelow)

variable {α : Type}

/-- What a client knows and has told of its transfer. -/
def report (c : Client) : Progress × List Nat := (c.progress, c.percents)

theorem onLinked_report (otherwise : Fault) (x : Step Linked α) : Moves (Same report) (onLinked otherwise x) := by
  refine .get_bind fun c => ?_
  rcases c.wire with link | a
  · dsimp only
    rw [Step.run_set_bind, Step.run_ofExcept]
    rfl
  · exact refl_of (Same report) c

theorem changeLink_report (f : Link → Link) : Moves (Same report) (changeLink f) := by
  refine .modify fun c => ?_
  rcases hw : c.wire with link | a <;> rfl

/-- A client that is following a transfer: `had` bytes of it are there in finished pieces, and of these counts it has
told since it had told `before`. -/
structure Tells (before : List Nat) (total had : Nat) (counts : List Nat) (c : Client) : Prop where
  watched : c.progress.watched = true
  total : c.progress.total = total
  finished : c.progress.finished = had
  told : ∃ told, c.percents = before ++ told ∧ Told c.progress.total counts told c.progress.last

variable {before counted : List Nat} {total had : Nat} {c c' : Client}

theorem Tells.of_report (h : Tells before total had counted c) (same : c'.report = c.report) :
    Tells before total had counted c' := by
  obtain ⟨progress, percents⟩ := Prod.mk.inj same
  obtain ⟨watched, known, finished, told⟩ := h
  rw [← progress] at watched known finished told
  rw [← percents] at told
  exact ⟨watched, known, finished, told⟩

theorem tells_begin (watched : c.watched = true) (total : Nat) :
    Tells c.percents total 0 [] { c with progress := { watched := c.watched, total } } :=
  ⟨watched, rfl, rfl, [], (List.append_nil _).symm, .nil total⟩

/-- **A further count** while a client follows a transfer. -/
theorem Tells.report (h : Tells before total had counted c) (received : Nat) :
    Tells before total had (counted ++ [had + received]) ((follow (·.report received)).run c).2 := by
  obtain ⟨watched, rfl, rfl, told, percents, tells⟩ := h
  show Tells before _ _ _ { c with
    progress := (c.progress.report received).2, percents := c.percents ++ (c.progress.report received).1 }
  by_cases known : c.progress.total = 0
  · rw [Progress.report_unknown known]
    refine ⟨watched, rfl, rfl, told, (List.append_nil _).trans percents, ?_⟩
    refine ⟨tells.last, tells.unknown, fun some => absurd known some, tells.small, ?_⟩
    obtain rfl := tells.unknown known
    dsimp only
    rw [known]
    exact iff_of_true .nil (List.pairwise_of_forall Progress.notBelow_none)
  · rw [Progress.report_eq watched known, Progress.tell_eq]
    exact ⟨watched, rfl, rfl, _, by rw [percents, List.append_assoc], tells.add known _⟩

theorem Tells.reports (h : Tells before total had counted c) (received : List Nat) :
    Tells before total had (counted ++ received.map (had + ·))
      ((received.forM fun received => follow (·.report received)).run c).2 := by
  induction received generalizing counted c with
  | nil => simpa using h
  | cons first rest ih =>
    rw [List.map_cons, List.append_cons]
    exact ih (h.report first)

/-- **The end** of a transfer is told as the whole. -/
theorem Tells.complete (h : Tells before total had counted c) :
    ∃ told, ((follow Progress.complete).run c).2.percents = before ++ told ∧ told.getLast? = some 100 ∧
      (∀ percent ∈ told, percent ≤ 100) ∧ (told.Pairwise (· < ·) ↔ counted.Pairwise (NotBelow total)) := by
  obtain ⟨watched, rfl, -, told, percents, tells⟩ := h
  refine ⟨_, ?_, tells.complete rfl⟩
  show c.percents ++ (Progress.complete c.progress).1 = _
  rw [percents, List.append_assoc, Progress.complete, if_pos watched, Progress.tell_eq]

/-! ### Services -/

theorem onChannel_report (x : Step Channel α) : Moves (Same report) (onChannel x) := fun _ => rfl

/-- What the link has noted is told when the request is over. -/
theorem Tells.takeReports (h : Tells before total had counted c) {link : Link} (wire : c.wire = .packets link) :
    Tells before total had (counted ++ link.reports.map (had + ·)) ((takeReports true).run c).2 := by
  unfold Client.takeReports
  rw [Step.run_get_bind, wire]
  dsimp only
  rw [if_pos rfl, Step.run_bind]
  have told := h.reports link.reports
  rcases hr : (link.reports.forM fun received => follow (·.report received)).run c with ⟨e | _, d⟩
  all_goals rw [hr] at told
  · exact told
  · exact told.of_report (changeLink_report _ d)

variable {request : Request} {r : Except Fault Bytes}

theorem Tells.carry (h : Tells before total had counted c) (run : (carry true request.bytes).run c = (r, c')) :
    Tells before total had (counted ++
      (Transaction.heard ⟨request, r, (c.channel, c.wire), (c'.channel, c'.wire)⟩).map (had + ·)) c' := by
  unfold Client.carry at run
  rw [Step.run_get_bind] at run
  rcases hw : c.wire with link | a
  · have linked : (onLink (Linked.request request.bytes)).run c =
        (onLinked (.invalidState (.noPacketLink c.dialect.name)) (Linked.request request.bytes)).run c := rfl
    rw [onLinked_run _ hw] at linked
    rw [hw] at run
    dsimp only at run
    rw [Step.run_outcome_bind, linked, Step.run_bind_of_ok (Step.run_eq_of_fst (takeReports_ok _ _)),
      Step.run_ofExcept] at run
    obtain ⟨-, rfl⟩ := Prod.mk.inj run
    have left : Tells before total had counted { c with
        channel := ((Linked.request request.bytes).run ⟨c.channel, link⟩).2.channel
        wire := .packets ((Linked.request request.bytes).run ⟨c.channel, link⟩).2.link } := h.of_report rfl
    exact left.takeReports rfl
  · have associated := onAssociated_run (Associated.request request.bytes) hw
    rw [hw] at run
    rcases hr : (Associated.request request.bytes).run ⟨c.channel, a⟩ with ⟨ran, s⟩
    rw [hr] at associated
    have left : Tells before total had counted { c with
        channel := s.channel
        wire := .apdus s.association } := h.of_report rfl
    cases ran with
    | error e =>
      obtain ⟨rfl, rfl⟩ := Prod.mk.inj ((Step.run_bind_of_error associated).symm.trans run)
      simpa [Transaction.heard] using left
    | ok response =>
      obtain ⟨rfl, rfl⟩ := Prod.mk.inj ((Step.run_bind_of_ok associated).symm.trans run)
      exact left.report response.length

/-- What was handed over is noted, and what was heard of it is counted in the transfer that the client follows. -/
def Counts (c c' : Client) : Prop := ∃ made : List Transaction, c'.exchanges = made.reverse ++ c.exchanges ∧
  ∀ {before : List Nat} {total had : Nat} {counted : List Nat}, Tells before total had counted c →
    Tells before total had (counted ++ made.flatMap fun t => t.heard.map (had + ·)) c'

instance : IsPreorder Client Counts where
  refl _ := ⟨[], rfl, fun h => by simpa using h⟩
  trans := by
    rintro _ _ _ ⟨made, exchanges, tells⟩ ⟨made', exchanges', tells'⟩
    refine ⟨made ++ made', ?_, fun h => ?_⟩
    · rw [exchanges', exchanges, List.reverse_append, List.append_assoc]
    · rw [List.flatMap_append, ← List.append_assoc]
      exact tells' (tells h)

theorem exchange_counts (request : Request) : Moves Counts (exchange true request) := by
  intro c
  have quiet : Quiet c.dialect c.config c ((carry true request.bytes).run c).2 :=
    carry_frame wireFrame_quiet true trivial c
  rcases hr : (carry true request.bytes).run c with ⟨r, d⟩
  rw [hr] at quiet
  unfold exchange note
  rw [Step.run_get_bind, Step.run_outcome_bind, hr, Step.run_modify_bind, Step.run_ofExcept]
  refine ⟨[⟨request, r, (c.channel, c.wire), (d.channel, d.wire)⟩], congrArg _ quiet.exchanges, fun h => ?_⟩
  rw [List.flatMap_singleton]
  exact (h.carry hr).of_report rfl

/-- **A service** that is reported is counted with all its repeats. -/
theorem transactRepeatedly_counts (request : Request) (retries : Nat) :
    Moves Counts (transactRepeatedly true request retries) := by
  have waits (d : Duration) : Moves Counts (onChannel (Channel.sleep d)) :=
    fun c => ⟨[], rfl, fun h => by simpa using h.of_report (onChannel_report (Channel.sleep d) c)⟩
  induction retries with
  | zero => exact .bind (exchange_counts request) fun _ => .ofExcept _
  | succ retries ih =>
    refine .bind (exchange_counts request) fun response => ?_
    cases Response.results response with
    | ok results => exact .pure _
    | error e => exact .ite (.throw_bind _ _) (.bind .get fun _ => .bind (waits _) fun _ => ih)

/-- A service that is reported, with what was handed over for it and what is counted of it. -/
theorem transactReporting_tells {q : TableRequest} (asks : TableRequest.ofBytes request.bytes = some q)
    (h : Tells before total had counted c) :
    ∃ busy t, Called request c ((transactReporting request).run c).1 ((transactReporting request).run c).2 busy t ∧
      Tells before total had (counted ++ counts had (busy ++ [t])) ((transactReporting request).run c).2 := by
  obtain ⟨busy, t, called⟩ := transactReporting_called request c
  have counts : Moves Counts (transactReporting request) := .bind .get fun _ => transactRepeatedly_counts request _
  obtain ⟨made, exchanges, tells⟩ := counts c
  obtain rfl := List.reverse_injective (List.append_cancel_right (called.exchanges.symm.trans exchanges))
  refine ⟨busy, t, called, ?_⟩
  rw [(called.tries asks).counts_eq]
  exact tells h

/-! ### Reads -/

open PieceRead (Reads)

variable {p : PieceRead} {read : PiecesRead}

/-- A piece that is there belongs to what is finished. -/
theorem Tells.finish (h : Tells before total had counted c) (length : Nat) :
    Tells before total (had + length) counted { c with progress := c.progress.finishPiece length } := by
  obtain ⟨watched, known, finished, told⟩ := h
  exact ⟨watched, known, congrArg (· + length) finished, told⟩

/-- What an answer has brought that the client has taken. -/
theorem Called.table_eq {busy : List Transaction} {t : Transaction} {results : Bytes}
    (h : Called request c (.ok results) c' busy t) (number : UInt16) (offset : Option UInt32) :
    t.table number offset = Reader.parse (TableData.take number offset) results := by
  rcases h.ended with ⟨result, -⟩ | ⟨-, e, failed⟩
  · unfold Transaction.table
    rw [← result]
    rfl
  · cases failed

/-- **A piece** of a read is counted from where the one before has ended. -/
theorem readPiece_tells {round : Except Fault (PiecesRead ⊕ PiecesRead)} (reaches : p.Reaches)
    (h : Tells before total read.1.length counted c) (run : (readPiece p read).run c = (round, c')) :
    ∃ made : List Transaction, c'.exchanges = made.reverse ++ c.exchanges ∧
      ∃ had, Tells before total had (counted ++ counts read.1.length made) c' ∧
        ∀ next, round = .ok (.inl next) → had = next.1.length ∧ had = read.1.length + (supplied made).length := by
  unfold readPiece at run
  dsimp only at run
  split at run
  next all =>
    obtain ⟨rfl, rfl⟩ := Prod.mk.inj run
    exact ⟨[], rfl, read.1.length, by simpa [counts] using h, nofun⟩
  next missing =>
    replace missing : read.1.length < p.count := Nat.lt_of_not_le missing
    obtain ⟨place, near, whole, small⟩ := place_eq reaches missing
    obtain ⟨request, built, asks⟩ := TableRequest.readPartial_made p.number near small
    rw [← place, ← whole] at built
    replace built : Request.readPartial p.number (p.offset + UInt32.ofNat read.1.length).toNat
        (min (p.count - read.1.length) p.limit % 0x10000) = .ok request := built
    rw [built, Step.run_bind_of_ok (Step.run_ofExcept _ _)] at run
    obtain ⟨busy, t, called, tells⟩ := transactReporting_tells asks h
    rcases hx : (transactReporting request).run c with ⟨e | results, d⟩
    all_goals rw [hx] at called tells
    · obtain ⟨rfl, rfl⟩ := Prod.mk.inj ((Step.run_bind_of_error hx).symm.trans run)
      exact ⟨busy ++ [t], called.exchanges, _, tells, nofun⟩
    rw [Step.run_bind_of_ok hx] at run
    have taken := called.table_eq p.number (some (p.offset + UInt32.ofNat read.1.length))
    rcases hp : Reader.parse (TableData.take p.number (some (p.offset + UInt32.ofNat read.1.length))) results
      with e | piece
    all_goals rw [hp] at run taken
    · obtain ⟨rfl, rfl⟩ := Prod.mk.inj run
      exact ⟨busy ++ [t], called.exchanges, _, tells, nofun⟩
    rw [Step.run_bind_of_ok (Step.run_ofExcept _ _), Step.run_modify_bind] at run
    refine ⟨busy ++ [t], ?_, read.1.length + piece.data.length, ?_⟩
    all_goals split at run
    · split at run
      all_goals
        obtain ⟨rfl, rfl⟩ := Prod.mk.inj run
        exact called.exchanges
    · obtain ⟨rfl, rfl⟩ := Prod.mk.inj run
      exact called.exchanges
    · split at run
      all_goals
        obtain ⟨rfl, rfl⟩ := Prod.mk.inj run
        exact ⟨tells.finish _, nofun⟩
    · obtain ⟨rfl, rfl⟩ := Prod.mk.inj run
      refine ⟨tells.finish _, fun next same => ?_⟩
      obtain rfl := Sum.inl.inj (Except.ok.inj same)
      obtain ⟨-, supply, -⟩ := Transaction.table_ok taken
      rw [(called.tries asks).supplied_eq, supply]
      exact ⟨(List.length_append).symm, rfl⟩

/-- **A read in pieces** counts one piece after the other. -/
theorem tells_of_loops (reaches : p.Reaches) {out : Except Fault PiecesRead}
    (loops : Step.Loops (p.limit = 0) (readPiece p) read c out c') (h : Tells before total read.1.length counted c) :
    ∃ made : List Transaction, c'.exchanges = made.reverse ++ c.exchanges ∧
      ∃ had, Tells before total had (counted ++ counts read.1.length made) c' := by
  induction loops generalizing counted with
  | last run | failed run | givenUp run =>
    obtain ⟨made, exchanges, had, tells, -⟩ := readPiece_tells reaches h run
    exact ⟨made, exchanges, had, tells⟩
  | more run rest ih =>
    obtain ⟨made, exchanges, had, tells, goesOn⟩ := readPiece_tells reaches h run
    obtain ⟨rfl, brought⟩ := goesOn _ rfl
    obtain ⟨later, exchanges', had', tells'⟩ := ih tells
    refine ⟨made ++ later, ?_, had', ?_⟩
    · rw [exchanges', exchanges, List.reverse_append, List.append_assoc]
    · rw [brought, List.append_assoc, ← Transaction.counts_append] at tells'
      exact tells'

/-- What a read has told when it ends: the percentages are at most 100, the whole is the last of them if it succeeds, and
they rise exactly if the counts do not fall. -/
structure Shows (total : Nat) (c c' : Client) (succeeds : Prop) (made : List Transaction) (told : List Nat) : Prop where
  exchanges : c'.exchanges = made.reverse ++ c.exchanges
  percents : c'.percents = c.percents ++ told
  small : ∀ percent ∈ told, percent ≤ 100
  whole : succeeds → told.getLast? = some 100
  rising : told.Pairwise (· < ·) ↔ (counts 0 made).Pairwise (NotBelow total)

variable {made : List Transaction} {succeeds : Prop}

theorem Tells.shows (h : Tells c.percents total had (counts 0 made) c')
    (exchanges : c'.exchanges = made.reverse ++ c.exchanges) (fails : ¬ succeeds) :
    ∃ told, Shows total c c' succeeds made told := by
  obtain ⟨-, rfl, -, told, percents, tells⟩ := h
  exact ⟨told, exchanges, percents, tells.small, fun holds => absurd holds fails, tells.rising⟩

theorem Tells.shows_complete (h : Tells c.percents total had (counts 0 made) c')
    (exchanges : c'.exchanges = made.reverse ++ c.exchanges) (succeeds : Prop) :
    ∃ told, Shows total c ((follow Progress.complete).run c').2 succeeds made told := by
  obtain ⟨told, percents, whole, small, rising⟩ := h.complete
  exact ⟨told, exchanges, percents, small, fun _ => whole, rising⟩

/-- What does not come to be a transfer tells nothing. -/
theorem shows_nothing (exchanges : c'.exchanges = c.exchanges) (percents : c'.percents = c.percents) (fails : ¬ succeeds) :
    Shows total c c' succeeds [] [] where
  exchanges := exchanges
  percents := percents.trans (List.append_nil _).symm
  small := List.forall_mem_nil _
  whole holds := absurd holds fails
  rising := iff_of_true .nil .nil

/-- The run returned something. -/
def Returned (r : Except Fault α) : Prop := ∃ a, r = .ok a

theorem not_returned_error (e : Fault) : ¬ Returned (.error e : Except Fault α) := nofun

theorem readPieces_shows (reaches : p.Reaches) (watched : c.watched = true) :
    ∃ made told, Shows p.count c ((readPieces p).run c).2 (Returned ((readPieces p).run c).1) made told := by
  unfold readPieces beginProgress
  rw [Step.run_modify_bind, Step.run_get_bind]
  have begun := tells_begin watched p.count
  generalize hd : ({ c with progress := { watched := c.watched, total := p.count } } : Client) = d at begun
  have same : d.exchanges = c.exchanges := by rw [← hd]
  obtain ⟨made, exchanges, had, tells⟩ := tells_of_loops reaches (readRounds_loops reaches d) begun
  rw [same] at exchanges
  rw [Step.run_bind]
  rcases hl : (Step.repeatWhileFed answersLeft (fun c => c.waiting + p.count) (readPiece p) (answersLeft d)
    ([], true)).run d with ⟨e | all, d'⟩
  all_goals rw [hl] at exchanges tells
  · exact ⟨made, tells.shows exchanges (not_returned_error e)⟩
  · exact ⟨made, tells.shows_complete exchanges _⟩

theorem readAtOnce_shows {q : TableRequest} (asks : TableRequest.ofBytes request.bytes = some q) (number : UInt16)
    (offset : Option UInt32) (total : Nat) (watched : c.watched = true) :
    ∃ made told, Shows total c ((readAtOnce number offset total request).run c).2
      (Returned ((readAtOnce number offset total request).run c).1) made told := by
  unfold readAtOnce beginProgress
  rw [Step.run_modify_bind]
  have begun := tells_begin watched total
  generalize hd : ({ c with progress := { watched := c.watched, total } } : Client) = d at begun
  have same : d.exchanges = c.exchanges := by rw [← hd]
  obtain ⟨busy, t, called, tells⟩ := transactReporting_tells asks begun
  have exchanges := called.exchanges
  rw [same] at exchanges
  rw [List.nil_append] at tells
  refine ⟨busy ++ [t], ?_⟩
  rw [Step.run_bind]
  rcases hx : (transactReporting request).run d with ⟨e | results, d'⟩
  all_goals rw [hx] at exchanges tells
  · exact tells.shows exchanges (not_returned_error e)
  · dsimp only
    rcases Reader.parse (TableData.take number offset) results with e | table
    · exact tells.shows exchanges (not_returned_error e)
    · exact tells.shows_complete exchanges _

theorem ensureActive_cases (c : Client) :
    ensureActive.run c = (.ok (), c) ∨ ∃ e, ensureActive.run c = (.error e, c) := by
  unfold ensureActive
  rw [Step.run_get_bind]
  split
  · exact .inr ⟨_, rfl⟩
  · exact .inl rfl

/-- **A read of a table** tells its counts in percent of what is asked for. -/
theorem readActive_shows (watched : c.watched = true) (d : Descriptor) :
    ∃ made told, Shows d.asked c ((readActive d).run c).2 (Returned ((readActive d).run c).1) made told := by
  unfold readActive
  rcases valid : d.validate with e | _
  · exact ⟨[], [], shows_nothing rfl rfl (not_returned_error e)⟩
  have holds := Descriptor.valid_of_validate valid
  rw [Step.run_bind_of_ok (Step.run_ofExcept _ _)]
  rcases ensureActive_cases c with checked | ⟨e, checked⟩
  · rw [Step.run_bind_of_ok checked]
    dsimp only
    rw [Step.run_get_bind]
    rcases access : d.access with _ | ⟨offset, count⟩
    · have asked : d.asked = d.expected := by rw [Descriptor.asked, access]
      rw [asked]
      dsimp only
      split
      next large =>
        have reaches : PieceRead.Reaches ⟨d.wireNumber, 0, d.expected, c.maxRead, false⟩ :=
          ⟨by simpa using holds.expected, (limits_le c).1⟩
        exact readPieces_shows reaches watched
      next fits => exact readAtOnce_shows (TableRequest.ofBytes_readFull d.wireNumber) _ _ _ watched
    · obtain ⟨least, few, near⟩ := holds.range offset count access
      simp only [maxTableCount] at few
      have asked : d.asked = count.toNat := by rw [Descriptor.asked, access]
      rw [asked]
      dsimp only
      split
      next large =>
        have reaches : PieceRead.Reaches ⟨d.wireNumber, offset, count.toNat, c.maxRead, true⟩ := ⟨near, (limits_le c).1⟩
        exact readPieces_shows reaches watched
      next fits =>
        have place : offset.toNat ≤ maxTableOffset := by omega
        obtain ⟨request, built, asks⟩ := TableRequest.readPartial_made d.wireNumber place few
        have kept : count.toNat % 0x10000 = count.toNat := by omega
        rw [kept, built, Step.run_bind_of_ok (Step.run_ofExcept _ _)]
        exact readAtOnce_shows asks _ _ _ watched
  · rw [Step.run_bind_of_error checked]
    exact ⟨[], [], shows_nothing rfl rfl (not_returned_error e)⟩

/-! ### Writes -/

theorem onAssociated_report (x : Step Associated α) : Moves (Same report) (onAssociated x) := by
  refine .get_bind fun c => ?_
  rcases c.wire with link | a
  · exact refl_of (Same report) c
  · dsimp only
    rw [Step.run_set_bind, Step.run_ofExcept]
    rfl

/-- A service that is not reported leaves the transfer at hand alone. -/
theorem transact_report (request : Request) : Moves (Same report) (transact request) := by
  have taken : Moves (Same report) (takeReports false) := by
    refine .bind .get fun c => ?_
    rcases c.wire with link | a
    · exact changeLink_report _
    · exact .pure _
  have carried : Moves (Same report) (carry false request.bytes) := by
    refine .bind .get fun c => ?_
    rcases c.wire with link | a
    · have asked : Moves (Same report) (onLink (Linked.request request.bytes)) := .bind .get fun _ => onLinked_report _ _
      exact .bind (.outcome asked) fun r => .bind taken fun _ => .ofExcept r
    · exact .bind (onAssociated_report _) fun _ => .pure _
  have exchanged : Moves (Same report) (exchange false request) :=
    .bind .get fun _ => .bind (.outcome carried) fun r => .bind (.modify fun _ => rfl) fun _ => .ofExcept r
  have repeated (retries : Nat) : Moves (Same report) (transactRepeatedly false request retries) := by
    induction retries with
    | zero => exact .bind exchanged fun _ => .ofExcept _
    | succ retries ih =>
      refine .bind exchanged fun response => ?_
      cases Response.results response with
      | ok results => exact .pure _
      | error e =>
        exact .ite (.throw_bind _ _) (.bind .get fun _ => .bind (onChannel_report (Channel.sleep _)) fun _ => ih)
  exact .bind .get fun _ => repeated _

/-- A client that follows a transfer whose counts have only grown, up to what is finished. -/
def Grown (before : List Nat) (total : Nat) (c : Client) : Prop := ∃ had counted, Tells before total had counted c ∧
  counted.Pairwise (· ≤ ·) ∧ ∀ count ∈ counted, count ≤ had

theorem Grown.of_report (h : Grown before total c) (same : c'.report = c.report) : Grown before total c' := by
  obtain ⟨had, counted, tells, grown, within⟩ := h
  exact ⟨had, counted, tells.of_report same, grown, within⟩

/-- One more piece is finished, and then counted. -/
theorem Grown.finish (h : Grown before total c) (length : Nat) : Grown before total
    ((follow (·.report 0)).run { c with progress := c.progress.finishPiece length }).2 := by
  obtain ⟨had, counted, tells, grown, within⟩ := h
  refine ⟨had + length, _, (tells.finish length).report 0, ?_, ?_⟩
  · refine List.pairwise_append.2 ⟨grown, List.pairwise_singleton _ _, fun count mem last same => ?_⟩
    obtain rfl := List.mem_singleton.1 same
    exact Nat.le_trans (within count mem) (Nat.le_add_right _ _)
  · refine List.forall_mem_append.2 ⟨fun count mem => ?_, List.forall_mem_singleton.2 (Nat.le_refl _)⟩
    exact Nat.le_trans (within count mem) (Nat.le_add_right _ _)

/-- **A write in pieces** counts what is written. -/
theorem writePieces_grown (number : UInt16) (place : Nat) (pieces : List Bytes) :
    Moves (Step.Preserves (Grown before total)) (writePieces number place pieces) := by
  induction pieces generalizing place with
  | nil => exact .pure _
  | cons piece rest ih =>
    refine .bind (.ofExcept _) fun request => .bind ?_ fun _ c h => ih _ _ (h.finish piece.length)
    exact (transact_report request).mono fun _ _ same h => h.of_report same

/-- What a write has told when it ends: rising percentages of at most 100, with the whole as the last one if there is any
and it succeeds. -/
structure Ascends (c c' : Client) (succeeds : Prop) (told : List Nat) : Prop where
  percents : c'.percents = c.percents ++ told
  rising : told.Pairwise (· < ·)
  small : ∀ percent ∈ told, percent ≤ 100
  whole : succeeds → ∀ last ∈ told.getLast?, last = 100

theorem ascends_nothing (same : c'.report = c.report) (succeeds : Prop) : Ascends c c' succeeds [] where
  percents := (Prod.mk.inj same).2.trans (List.append_nil _).symm
  rising := .nil
  small := List.forall_mem_nil _
  whole _ := nofun

theorem Grown.ascends (h : Grown c.percents total c') (fails : ¬ succeeds) : ∃ told, Ascends c c' succeeds told := by
  obtain ⟨had, counted, tells, grown, -⟩ := h
  obtain ⟨-, rfl, -, told, percents, tells⟩ := tells
  exact ⟨told, percents, tells.rising.2 (grown.imp Progress.share_mono), tells.small, fun holds => absurd holds fails⟩

theorem Grown.ascends_complete (h : Grown c.percents total c') (succeeds : Prop) :
    ∃ told, Ascends c ((follow Progress.complete).run c').2 succeeds told := by
  obtain ⟨had, counted, tells, grown, -⟩ := h
  obtain ⟨told, percents, whole, small, rising⟩ := tells.complete
  refine ⟨told, percents, rising.2 (grown.imp Progress.share_mono), small, fun _ last mem => ?_⟩
  exact Option.some.inj ((Option.mem_def.1 mem).symm.trans whole)

theorem writeInPieces_ascends (number : UInt16) (offset : Nat) (data : Bytes) (limit : Nat) (watched : c.watched = true) :
    ∃ told, Ascends c ((writeInPieces number offset data limit).run c).2
      (Returned ((writeInPieces number offset data limit).run c).1) told := by
  unfold writeInPieces beginProgress
  split
  · exact ⟨[], ascends_nothing rfl _⟩
  rw [Step.run_modify_bind, Step.run_bind]
  have begun : Grown c.percents data.length { c with progress := { watched := c.watched, total := data.length } } :=
    ⟨0, [], tells_begin watched _, .nil, List.forall_mem_nil _⟩
  generalize ({ c with progress := { watched := c.watched, total := data.length } } : Client) = d at begun
  have grown := writePieces_grown number offset (Bytes.chunks limit data) d begun
  rcases hr : (writePieces number offset (Bytes.chunks limit data)).run d with ⟨e | _, d'⟩
  all_goals rw [hr] at grown
  · exact grown.ascends (not_returned_error e)
  · exact grown.ascends_complete _

/-- A write with one request tells nothing. -/
theorem writeAtOnce_ascends (r : Except Fault Request) (c : Client) (succeeds : Prop) :
    Ascends c ((do let _ ← transact (← Step.ofExcept r) : Step Client Unit).run c).2 succeeds [] := by
  have same : Moves (Same report) (do let _ ← transact (← Step.ofExcept r) : Step Client Unit) :=
    .bind (.ofExcept _) fun request => .bind (transact_report request) fun _ => .pure _
  exact ascends_nothing (same c) _

/-- **A write of a table** tells rising percentages. -/
theorem writeActive_ascends (watched : c.watched = true) (d : Descriptor) (data : Bytes) :
    ∃ told, Ascends c ((writeActive d data).run c).2 (Returned ((writeActive d data).run c).1) told := by
  unfold writeActive
  rcases d.validateWrite data with e | _
  · exact ⟨[], ascends_nothing rfl _⟩
  rw [Step.run_bind_of_ok (Step.run_ofExcept _ _)]
  rcases ensureActive_cases c with checked | ⟨e, checked⟩
  · rw [Step.run_bind_of_ok checked]
    dsimp only
    rw [Step.run_get_bind]
    rcases d.access with _ | ⟨offset, count⟩
    all_goals
      dsimp only
      split
      · exact ⟨[], writeAtOnce_ascends _ c _⟩
      · exact writeInPieces_ascends _ _ _ _ watched
  · rw [Step.run_bind_of_error checked]
    exact ⟨[], ascends_nothing rfl _⟩

/-! ### Transfers -/

/-- What an operation has told stays when it is settled. -/
theorem settle_percents {x : Step Client α} {r : Except Fault α} (run : (settle x).run c = (r, c')) :
    c'.percents = (x.run c).2.percents := by
  rcases hx : x.run c with ⟨e | a, t⟩
  · have rest : (settle x).run c = (settle (throw e : Step Client α)).run t := by
      unfold settle
      rw [Step.run_outcome_bind, Step.run_outcome_bind, hx]
      rfl
    have forgot : Moves (Same percents) (changeLink Link.forget) :=
      (changeLink_report _).mono fun _ _ same => (Prod.mk.inj same).2
    have closed : Moves (Same percents) shutdown := fun c => by rw [shutdown_run]
    have kept := settle_frame forgot closed (.throw e : Moves (Same percents) (throw e : Step Client α)) t
    rw [← rest, run] at kept
    exact kept
  · obtain ⟨rfl, rfl⟩ := Prod.mk.inj (run.symm.trans (settle_run_ok hx))
    rfl

/-- **The percentages of a transfer** are at most 100, and the whole is the last one if there is any and the transfer
succeeds. Those of a write rise. Those of a read rise exactly if its counts do not fall in percent. -/
theorem transfer_percents (watched : c.watched = true) (d : Descriptor) :
    (∀ {r c'}, (readTable d).run c = (r, c') → ∃ made told, Shows d.asked c c' (Returned r) made told) ∧
      ∀ {data r c'}, (writeTable d data).run c = (r, c') → ∃ told, Ascends c c' (Returned r) told := by
  refine ⟨fun {r c'} run => ?_, fun {data r c'} run => ?_⟩
  · obtain ⟨made, told, shows⟩ := readActive_shows watched d
    obtain ⟨exchanges, returned⟩ := settle_exchanges run
    refine ⟨made, told, exchanges.trans shows.exchanges, (settle_percents run).trans shows.percents, shows.small, ?_,
      shows.rising⟩
    rintro ⟨table, ok⟩
    exact shows.whole ⟨table, congrArg Prod.fst (returned table ok)⟩
  · obtain ⟨told, ascends⟩ := writeActive_ascends watched d data
    obtain ⟨-, returned⟩ := settle_exchanges run
    refine ⟨told, (settle_percents run).trans ascends.percents, ascends.rising, ascends.small, ?_⟩
    rintro ⟨done, ok⟩
    exact ascends.whole ⟨done, congrArg Prod.fst (returned done ok)⟩

/-! ### Steady and repeated responses -/

/-- A session that tells of progress, with a meter that answers so. -/
def watchedSession (answers : List FarAnswer) : Client :=
  let started := (startSession.run terseClient).2
  { started with
    channel := { started.channel with line := { started.channel.line with answers } }
    watched := true }

theorem reachedBy_watchedSession (answers : List FarAnswer) : ReachedBy .c1218 terse (watchedSession answers) := by
  have made : ofConfig (.ofLine answering) .c1218 terse 0 (fun _ => 0) = .ok terseClient := rfl
  have started : ReachedBy .c1218 terse (startSession.run terseClient).2 := .after (.new made) .start
  exact .meanwhile started _ true

/-- The next packet of a response, as the meter sends it when the one before was acknowledged. -/
def sayingNext (p : Packet) : FarAnswer := fun _ => [(10, .arrival (.data (frameBytes p)))]

/-- The response to a read, in two packets. -/
def inTwoPackets : List FarAnswer := [
  saying ⟨0, ⟨0xC0⟩, 1, [0]⟩,
  sayingNext ⟨0, ⟨0xA0⟩, 0, [0, 3, 1, 2, 3, 0xFA]⟩,
  fun _ => []]

/-- A read whose response comes in its order, and a write in two pieces. -/
theorem transfer_percents_steady :
    (∃ made c', (readTable (.range 3 0 3)).run (watchedSession inTwoPackets) = (.ok ⟨3, some 0, [1, 2, 3], 3, true⟩, c') ∧
      c'.exchanges = made ++ (watchedSession inTwoPackets).exchanges ∧ c'.percents = [33, 100] ∧
      (counts 0 made.reverse).Pairwise (NotBelow 3)) ∧
    ∃ c', (writeTable (.range 3 0 20) (ascending 20)).run (watchedSession (responding false [[0], [0]])) = (.ok (), c') ∧
      c'.percents = [75, 100] := by
  have read : (watchedSession inTwoPackets).percents = [] ∧
      ((readTable (.range 3 0 3)).run (watchedSession inTwoPackets)).1 = .ok ⟨3, some 0, [1, 2, 3], 3, true⟩ ∧
      ((readTable (.range 3 0 3)).run (watchedSession inTwoPackets)).2.percents = [33, 100] := by
    decide +kernel
  have written : ((writeTable (.range 3 0 20) (ascending 20)).run (watchedSession (responding false [[0], [0]]))).1 = .ok () ∧
      ((writeTable (.range 3 0 20) (ascending 20)).run (watchedSession (responding false [[0], [0]]))).2.percents = [75, 100] := by
    decide +kernel
  obtain ⟨none, returned, percents⟩ := read
  refine ⟨?_, _, Step.run_eq_of_fst written.1, written.2⟩
  have run := Step.run_eq_of_fst returned
  obtain ⟨made, told, shows⟩ := (transfer_percents (c := watchedSession inTwoPackets) rfl (.range 3 0 3)).1 run
  have all := shows.percents
  rw [none, percents, List.nil_append] at all
  subst all
  refine ⟨made.reverse, _, run, shows.exchanges, percents, ?_⟩
  rw [List.reverse_reverse]
  exact shows.rising.1 (by decide)

/-- Two packets of the response come in their order, and then one that is not the next one. The response to the
repeated request comes in two packets. -/
def spoiledOnce : List FarAnswer := [
  saying ⟨0, ⟨0xC0⟩, 6, [0]⟩,
  sayingNext ⟨0, ⟨0xA0⟩, 5, [0]⟩,
  sayingNext ⟨0, ⟨0x80⟩, 0, [0]⟩,
  fun _ => [],
  saying ⟨0, ⟨0xE0⟩, 1, [0]⟩,
  sayingNext ⟨0, ⟨0x80⟩, 0, [0, 3, 1, 2, 3, 0xFA]⟩,
  fun _ => []]

/-- **A read goes back** from 66 to 33 percent, which it tells twice, when its request has to be repeated. -/
theorem readTable_goesBack : ∃ c c', ReachedBy .c1218 terse c ∧ c.watched = true ∧ c.percents = [] ∧
    (readTable (.range 3 0 3)).run c = (.ok ⟨3, some 0, [1, 2, 3], 3, true⟩, c') ∧ c'.percents = [33, 66, 33, 100] ∧
    ¬ c'.percents.Pairwise (· < ·) := by
  have facts : (watchedSession spoiledOnce).percents = [] ∧
      ((readTable (.range 3 0 3)).run (watchedSession spoiledOnce)).1 = .ok ⟨3, some 0, [1, 2, 3], 3, true⟩ ∧
      ((readTable (.range 3 0 3)).run (watchedSession spoiledOnce)).2.percents = [33, 66, 33, 100] := by
    decide +kernel
  obtain ⟨none, returned, percents⟩ := facts
  refine ⟨_, _, reachedBy_watchedSession spoiledOnce, rfl, none, Step.run_eq_of_fst returned, percents, ?_⟩
  rw [percents]
  decide

end Client

end Metering
