import Metering.Channel.Write
import Metering.Proofs.Line
import Metering.Proofs.Ring

set_option autoImplicit false

/-! # What a channel consumes and sends

The bytes of a line go through the ring of the channel: what was taken from the line before and is
taken now is either consumed (given to a reader, or dropped) or still in the ring, in that order.
`Channel.Observed` says what was consumed between two states of a channel, and what was sent
meanwhile. Waiting consumes nothing and sends nothing, however the line cuts what arrives into
pieces (`Quiet`); reading and dropping send nothing (`Reads`). -/

namespace Metering.Channel

open Step (Moves Same)

/-- Between two states of a channel, `consumed` was consumed and `sent` was sent. -/
def Observed (c c' : Channel) (consumed sent : Bytes) : Prop :=
  ∃ heard, c'.line.stream = c.line.stream ++ heard ∧
    c.input.toList ++ heard = consumed ++ c'.input.toList ∧ c'.line.written = c.line.written ++ sent

namespace Observed

variable {c c' c'' : Channel} {x y w v : Bytes}

theorem of_eq (line : c'.line.traffic = c.line.traffic) (input : c'.input = c.input) :
    Observed c c' [] [] := by
  obtain ⟨stream, written⟩ := Prod.mk.inj line
  refine ⟨[], ?_, ?_, ?_⟩
  · rw [stream, List.append_nil]
  · rw [input, List.append_nil, List.nil_append]
  · rw [written, List.append_nil]

theorem trans (h : Observed c c' x w) (h' : Observed c' c'' y v) :
    Observed c c'' (x ++ y) (w ++ v) := by
  obtain ⟨heard, stream, input, written⟩ := h
  obtain ⟨heard', stream', input', written'⟩ := h'
  refine ⟨heard ++ heard', ?_, ?_, ?_⟩
  · rw [stream', stream, List.append_assoc]
  · rw [← List.append_assoc, input, List.append_assoc, input', List.append_assoc]
  · rw [written', written, List.append_assoc]

end Observed

/-- Nothing was consumed and nothing was sent. -/
def Quiet (c c' : Channel) : Prop := Observed c c' [] []

/-- Something may have been consumed, nothing was sent. -/
def Reads (c c' : Channel) : Prop := ∃ x, Observed c c' x []

instance : IsPreorder Channel Quiet where
  refl _ := .of_eq rfl rfl
  trans _ _ _ h h' := Observed.trans h h'

instance : IsPreorder Channel Reads where
  refl _ := ⟨[], .of_eq rfl rfl⟩
  trans _ _ _ := fun ⟨x, h⟩ ⟨y, h'⟩ => ⟨x ++ y, h.trans h'⟩

theorem Quiet.reads {c c' : Channel} (h : Quiet c c') : Reads c c' := ⟨[], h⟩

/-! ## Waiting -/

variable {α : Type}

theorem onLine_quiet {x : Step Line α} (h : Moves (Same Line.traffic) x) : Moves Quiet (onLine x) :=
  .within h fun _ _ same => .of_eq same rfl

theorem drop_quiet : Moves Quiet drop := .modify fun _ => .of_eq rfl rfl

theorem count_quiet (f : ChannelStatistics → ChannelStatistics) : Moves Quiet (count f) :=
  .modify fun _ => .of_eq rfl rfl

theorem honourCancel_quiet : Moves Quiet (honourCancel : Step Channel α) :=
  .bind (.modify fun _ => .of_eq rfl rfl) fun _ => .throw _

theorem checkCancelled_quiet : Moves Quiet checkCancelled :=
  .bind .get fun _ => .ite honourCancel_quiet (.pure _)

theorem ensureConnected_quiet : Moves Quiet ensureConnected :=
  .bind .get fun _ => .ite (.throw _) (.pure _)

theorem noteDeadline_quiet (byOperation : Bool) : Moves Quiet (noteDeadline byOperation) :=
  .ite (.modify fun _ => .of_eq rfl rfl) (.pure _)

theorem sleep_quiet (d : Duration) : Moves Quiet (sleep d) := by
  intro c
  unfold sleep
  rw [Step.run_get_bind]
  have paused := Line.waitFor_traffic none (c.capped (c.now + d)).1 (!c.window.isActive) c.line
  rcases hc : c.capped (c.now + d) with ⟨target, byOperation⟩
  rw [hc] at paused
  dsimp only
  rcases hw : c.line.pause target (!c.window.isActive) with ⟨wake, line⟩
  rw [show c.line.waitFor none target (!c.window.isActive) = (wake, line) from hw] at paused
  dsimp only
  rw [Step.run_set_bind]
  have waited : Quiet c { c with line } := .of_eq paused rfl
  refine trans_of Quiet waited ?_
  have rest : Moves Quiet (if byOperation then (do
        noteDeadline true
        throw (.readTimeout 0) : Step Channel Unit) else pure ()) :=
    .ite (.bind (noteDeadline_quiet _) fun _ => .throw _) (.pure _)
  split
  · exact (Moves.bind honourCancel_quiet fun _ => rest) _
  · exact rest _

/-! ### What sends nothing -/

/-- Nothing is sent, whatever becomes of what was received. -/
abbrev Silent (x : Step Channel α) : Prop := Moves (Same fun c : Channel => c.line.written) x

theorem onLine_silent {x : Step Line α} (h : Moves (Same Line.traffic) x) : Silent (onLine x) :=
  .within h fun _ _ same => congrArg Prod.snd same

theorem Reads.written_eq {c c' : Channel} (h : Reads c c') : c'.line.written = c.line.written := by
  obtain ⟨_, _, _, _, written⟩ := h
  rw [written, List.append_nil]

theorem silent_of_quiet {x : Step Channel α} (h : Moves Quiet x) : Silent x :=
  h.mono fun _ _ quiet => quiet.reads.written_eq

theorem clearRing_silent : Silent clearRing := .modify fun _ => rfl

theorem openUp_silent : Silent openUp := by
  have opened : Silent (do
      checkCancelled
      onLine Line.openUp
      clearRing
      modify ({ · with connected := true }) : Step Channel Unit) :=
    .bind (silent_of_quiet checkCancelled_quiet) fun _ => .bind (onLine_silent Line.openUp_traffic) fun _ =>
      .bind clearRing_silent fun _ => .modify fun _ => rfl
  exact .bind .get fun _ => .ite (.pure _) opened

theorem close_silent : Silent close :=
  .bind .get fun _ => .ite (.pure _) (.bind (.outcome (onLine_silent Line.close_traffic)) fun _ =>
    .bind clearRing_silent fun _ => silent_of_quiet drop_quiet)

theorem setBaud_silent (speed : Nat) : Silent (setBaud speed) :=
  .bind (silent_of_quiet ensureConnected_quiet) fun _ => onLine_silent (Line.setBaud_traffic speed)

/-! ### Waiting for the line -/

/-- A step of the line, whether or not the channel is lost by it. -/
theorem orDrop_run (x : Step Line α) (c : Channel) :
    ((orDrop x).run c).1 = (x.run c.line).1 ∧ ((orDrop x).run c).2.line = (x.run c.line).2 ∧
      ((orDrop x).run c).2.input = c.input := by
  unfold orDrop
  rw [Step.run_outcome_bind, onLine, Step.run_within]
  rcases x.run c.line with ⟨r, line⟩
  cases r <;> exact ⟨rfl, rfl, rfl⟩

/-- Waiting for the line moves what arrives into the ring. -/
theorem fill_quiet (deadline : Moment) : Moves Quiet (fill deadline) := by
  intro c
  unfold fill
  rw [Step.run_get_bind]
  rcases c.capped deadline with ⟨deadline', byOperation⟩
  dsimp only
  have traffic := Line.read_traffic deadline' (!c.window.isActive) readChunk c.line
  obtain ⟨result, line, input⟩ := orDrop_run (Line.read deadline' (!c.window.isActive) readChunk) c
  rw [← result, ← line] at traffic
  rw [Step.run_bind]
  rcases hr : (orDrop (Line.read deadline' (!c.window.isActive) readChunk)).run c with ⟨r, t⟩
  rw [hr] at traffic input
  -- only data change the ring
  have still (h : Line.Heard.bytes r = []) : Quiet c t := by
    rw [h, List.append_nil] at traffic
    exact .of_eq traffic input
  cases r with
  | error e => exact still rfl
  | ok heard =>
    cases heard with
    | cancelled => exact trans_of Quiet (still rfl) (honourCancel_quiet t)
    | elapsed =>
      exact trans_of Quiet (still rfl) (Moves.bind (noteDeadline_quiet _) (fun _ => .pure _) t)
    | ended => exact trans_of Quiet (still rfl) (Moves.bind drop_quiet (fun _ => .throw _) t)
    | data bytes =>
      obtain ⟨stream, written⟩ := Prod.mk.inj traffic
      refine ⟨bytes, stream, ?_, ?_⟩
      · show c.input.toList ++ bytes = [] ++ (t.input.put bytes).toList
        rw [Ring.toList_put, List.nil_append, show t.input = c.input from input]
      · rw [List.append_nil]
        exact written

theorem fillRound_quiet (wanted : Nat) (patience : Patience) (deadline : Moment) :
    Moves Quiet (fillRound wanted patience deadline) := by
  unfold fillRound
  refine .bind .get fun c => ?_
  split
  · exact .pure _
  refine .bind (fill_quiet _) fun heard => ?_
  cases heard with
  | elapsed => exact .bind .get fun c => .bind (count_quiet _) fun _ => .throw _
  | data =>
    refine .bind .get fun c => ?_
    cases patience <;> exact .pure _

theorem fillTo_quiet (wanted : Nat) (patience : Patience) : Moves Quiet (fillTo wanted patience) :=
  .bind .get fun _ => .bind .get fun _ => .repeatUpTo (fillRound_quiet _ _) _ _

theorem fillTo_ok {wanted : Nat} {patience : Patience} {c c' : Channel}
    (h : (fillTo wanted patience).run c = (.ok (), c')) : wanted ≤ c'.input.length := by
  unfold fillTo rounds at h
  rw [Step.run_get_bind, Step.run_get_bind] at h
  -- a round that ends the loop found enough in the ring
  refine Step.repeatUpTo_ok (I := fun _ _ => True) (Q := fun _ c => wanted ≤ c.input.length) ?_ _
    trivial h
  intro deadline t r t' _ hr
  cases r with
  | inl deadline' => trivial
  | inr u =>
    unfold fillRound at hr
    rw [Step.run_get_bind] at hr
    split at hr
    next enough =>
      obtain ⟨-, rfl⟩ := Prod.mk.inj hr
      exact enough
    next =>
      obtain ⟨heard, t1, _, hr⟩ := Step.run_bind_ok.1 hr
      cases heard with
      | elapsed => exact absurd (Prod.mk.inj hr).1 (by simp)
      | data => cases patience <;> exact absurd (Prod.mk.inj hr).1 (by simp)

/-! ## Reading -/

/-- Bytes dropped from the front of the ring are consumed. -/
theorem discard_observed (c : Channel) (n : Nat) :
    Observed c { c with input := c.input.discard n } (c.input.toList.take n) [] := by
  refine ⟨[], (List.append_nil _).symm, ?_, (List.append_nil _).symm⟩
  rw [Ring.toList_discard, List.take_append_drop, List.append_nil]

theorem take_run (n : Nat) (c : Channel) :
    (take n).run c = (.ok (c.input.toList.take n), { c with input := c.input.discard n }) := by
  unfold take
  rw [Step.run_get_bind, Ring.get_eq]
  rfl

theorem clearRing_reads : Moves Reads clearRing := by
  refine .modify fun c => ⟨c.input.toList, [], (List.append_nil _).symm, ?_, (List.append_nil _).symm⟩
  rw [Ring.toList_clear]

/-- **A read of so many bytes** consumes just the bytes it gives. -/
theorem readExactly_ok {n : Nat} {patience : Patience} {c c' : Channel} {bytes : Bytes}
    (h : (readExactly n patience).run c = (.ok bytes, c')) :
    bytes.length = n ∧ Observed c c' bytes [] := by
  obtain ⟨_, c1, connected, h⟩ := Step.run_bind_ok.1 h
  have waited : Quiet c c1 := ensureConnected_quiet.of_run connected
  rw [Step.run_outcome_bind] at h
  have filled := fillTo_quiet n patience c1
  rcases hf : (fillTo n patience).run c1 with ⟨r, c2⟩
  rw [hf] at h filled
  cases r with
  | error e =>
    dsimp only at h
    split at h <;> exact absurd h Step.run_throw_ne_ok
  | ok u =>
    have enough := fillTo_ok hf
    obtain ⟨taken, rfl⟩ := Prod.mk.inj ((take_run n c2).symm.trans h)
    obtain rfl := Except.ok.inj taken
    refine ⟨?_, ?_⟩
    · rw [List.length_take, Ring.length_toList, Nat.min_eq_left enough]
    · exact (waited.trans filled).trans (discard_observed c2 n)

theorem readExactly_reads (n : Nat) (patience : Patience) : Moves Reads (readExactly n patience) := by
  unfold readExactly
  refine .bind (ensureConnected_quiet.mono fun _ _ => Quiet.reads) fun _ =>
    .bind (.outcome ((fillTo_quiet _ _).mono fun _ _ => Quiet.reads)) fun r => ?_
  cases r with
  | ok u =>
    intro c
    rw [take_run]
    exact ⟨_, discard_observed c n⟩
  | error e =>
    dsimp only
    split
    · exact .bind clearRing_reads fun _ => .throw _
    · exact .throw _

/-! ## Start bytes -/

/-- The first byte that is left after garbage was dropped is a wanted one. -/
theorem mem_of_discardUntil {r : Ring} {wanted : Bytes} {byte : UInt8}
    (h : (r.discardUntil wanted).2.toList[0]? = some byte) : byte ∈ wanted := by
  have head : (r.toList.dropWhile fun b => !wanted.contains b).head? = some byte := by
    rw [List.head?_eq_getElem?, ← h, Ring.toList_discardUntil]
  have first := List.head?_dropWhile_not (fun b => !wanted.contains b) r.toList
  simpa only [head, Bool.not_eq_false', List.contains_iff_mem] using first

theorem startRound_reads (wanted : Bytes) (deadline : Moment) (garbage : Nat) :
    Moves Reads (startRound wanted deadline garbage) := by
  intro c
  unfold startRound
  rw [Step.run_get_bind]
  have dropped : Reads c { c with input := (c.input.discardUntil wanted).2 } := by
    rw [Ring.discardUntil_eq]
    exact ⟨_, discard_observed c _⟩
  rcases hd : c.input.discardUntil wanted with ⟨⟨count, found⟩, input⟩
  rw [hd] at dropped
  dsimp only
  rw [Step.run_set_bind]
  refine trans_of Reads dropped ?_
  split
  · exact refl_of Reads _
  · refine (Moves.bind ((fill_quiet _).mono fun _ _ => Quiet.reads) fun heard => ?_ : Moves Reads _) _
    cases heard with
    | elapsed => exact .bind ((count_quiet _).mono fun _ _ => Quiet.reads) fun _ => .throw _
    | data => exact .pure _

theorem startRound_found {wanted : Bytes} {deadline : Moment} {garbage : Nat} {c c' : Channel}
    {byte : UInt8} (h : (startRound wanted deadline garbage).run c = (.ok (.inr byte), c')) :
    byte ∈ wanted ∧ c'.input.toList[0]? = some byte := by
  unfold startRound at h
  rw [Step.run_get_bind] at h
  rcases hd : c.input.discardUntil wanted with ⟨⟨count, found⟩, input⟩
  rw [hd] at h
  dsimp only at h
  rw [Step.run_set_bind] at h
  split at h
  next first =>
    rw [Ring.peekByte?_zero] at first
    obtain ⟨hb, rfl⟩ := Prod.mk.inj h
    obtain rfl := Sum.inr.inj (Except.ok.inj hb)
    refine ⟨mem_of_discardUntil (r := c.input) ?_, first⟩
    rw [hd]
    exact first
  next =>
    obtain ⟨heard, t, _, h⟩ := Step.run_bind_ok.1 h
    cases heard <;> exact absurd (Prod.mk.inj h).1 (by simp)

/-- **A start byte** is consumed with the garbage in front of it. -/
theorem readStart_ok {wanted : Bytes} {timeout : Duration} {c c' : Channel} {byte : UInt8}
    (h : (readStart wanted timeout).run c = (.ok byte, c')) :
    byte ∈ wanted ∧ ∃ garbage, Observed c c' (garbage ++ [byte]) [] := by
  obtain ⟨byte', c1, waited, h⟩ := Step.run_bind_ok.1 h
  obtain ⟨n, c2, discarded, h⟩ := Step.run_bind_ok.1 h
  obtain ⟨hb, rfl⟩ := Prod.mk.inj h
  obtain rfl := Except.ok.inj hb
  obtain rfl := (Prod.mk.inj discarded).2
  obtain ⟨_, c0, connected, waited⟩ := Step.run_bind_ok.1 waited
  have quiet : Quiet c c0 := ensureConnected_quiet.of_run connected
  unfold rounds at waited
  rw [Step.run_get_bind, Step.run_get_bind] at waited
  -- rounds consume garbage; the last one leaves the wanted byte in front
  obtain ⟨⟨garbage, read⟩, wanted', first⟩ := Step.repeatUpTo_ok (I := fun _ t => Reads c0 t)
    (Q := fun byte t => Reads c0 t ∧ byte ∈ wanted ∧ t.input.toList[0]? = some byte)
    (by
      intro g t r t' ht hr
      have more := trans_of Reads ht ((startRound_reads _ _ _).of_run hr)
      cases r with
      | inl g' => exact more
      | inr b => exact ⟨more, startRound_found hr⟩) _ (refl_of Reads c0) waited
  refine ⟨wanted', garbage, ?_⟩
  have one : c1.input.toList.take 1 = [byte'] := by
    cases hl : c1.input.toList with
    | nil => simp [hl] at first
    | cons b rest => simpa [hl] using first
  have taken := discard_observed c1 1
  rw [one] at taken
  exact (quiet.trans read).trans taken

theorem readStart_reads (wanted : Bytes) (timeout : Duration) : Moves Reads (readStart wanted timeout) := by
  refine .bind (.bind (ensureConnected_quiet.mono fun _ _ => Quiet.reads) fun _ => .bind .get fun _ =>
    .bind .get fun _ => .repeatUpTo (startRound_reads _ _) _ _) fun byte => .bind ?_ fun _ => .pure _
  exact fun c => ⟨_, discard_observed c 1⟩

/-! ## Dropping input -/

/-- With an empty ring, what is dropped from the line is consumed in its order. -/
def Clears (c c' : Channel) : Prop := c.input.toList = [] → c'.input.toList = [] ∧ Reads c c'

instance : IsPreorder Channel Clears where
  refl c h := ⟨h, refl_of Reads c⟩
  trans _ _ _ h h' none := by
    obtain ⟨none', read⟩ := h none
    obtain ⟨none'', read'⟩ := h' none'
    exact ⟨none'', trans_of Reads read read'⟩

theorem onLine_read_clears (deadline : Moment) (honour : Bool) (max : Nat) :
    Moves Clears (onLine (Line.read deadline honour max)) := by
  intro c none
  obtain ⟨stream, written⟩ := Prod.mk.inj (Line.read_traffic deadline honour max c.line)
  refine ⟨none, Line.Heard.bytes ((Line.read deadline honour max).run c.line).1, _, stream, ?_,
    written.trans (List.append_nil _).symm⟩
  show c.input.toList ++ _ = _ ++ c.input.toList
  rw [none, List.append_nil, List.nil_append]

theorem clearInput_reads : Moves Reads clearInput := by
  intro c
  -- with an empty ring, what the rounds take from the line is consumed in its order
  have rest : Moves Clears (rounds clearRound ()) := by
    refine .bind .get fun _ => .repeatUpTo (fun _ => ?_) _ _
    refine .bind .get fun now => .bind (onLine_read_clears _ _ _) fun heard => ?_
    cases heard with
    | data bytes => exact .pure _
    | ended => exact .bind (.modify fun c none => ⟨none, (drop_quiet c).reads⟩) fun _ => .throw _
    | elapsed => exact .pure _
    | cancelled => exact .pure _
  have connected := ensureConnected_quiet c
  unfold clearInput
  rw [Step.run_bind]
  rcases hc : ensureConnected.run c with ⟨r, c1⟩
  rw [hc] at connected
  cases r with
  | error e => exact connected.reads
  | ok u =>
    obtain ⟨-, read⟩ := rest { c1 with input := c1.input.clear } (Ring.toList_clear _)
    exact trans_of Reads connected.reads (trans_of Reads (clearRing_reads c1) read)

/-! ## Writing -/

theorem writeRound_ok {deadline : Moment} {left : Bytes} {n : Nat} {c c' : Channel}
    {r : (Bytes × Nat) ⊕ Nat} (h : (writeRound deadline (left, n)).run c = (.ok r, c')) :
    ∃ sent, Observed c c' [] sent ∧ sent ++ Sum.elim Prod.fst (fun _ => []) r = left := by
  unfold writeRound at h
  dsimp only at h
  by_cases none : left.isEmpty
  · rw [if_pos none] at h
    obtain ⟨hr, rfl⟩ := Prod.mk.inj h
    obtain rfl := Except.ok.inj hr
    exact ⟨[], .of_eq rfl rfl, (List.isEmpty_iff.1 none).symm⟩
  rw [if_neg none] at h
  obtain ⟨taken, t, written, h⟩ := Step.run_bind_ok.1 h
  obtain ⟨result, line, input⟩ := orDrop_run (Line.write (some deadline) left) c
  obtain ⟨k, traffic, counted⟩ := Line.write_traffic (some deadline) left c.line
  rw [← result, written] at counted
  rw [← line, written] at traffic
  rw [written] at input
  cases taken with
  | none => exact absurd h Step.run_throw_ne_ok
  | some m =>
    obtain rfl := counted m rfl
    obtain ⟨stream, sent⟩ := Prod.mk.inj traffic
    cases m with
    | zero => exact absurd h Step.run_throw_ne_ok
    | succ m =>
      obtain ⟨hr, rfl⟩ := Prod.mk.inj h
      obtain rfl := Except.ok.inj hr
      refine ⟨left.take (m + 1), ⟨[], ?_, ?_, sent⟩, List.take_append_drop _ _⟩
      · rw [stream, List.append_nil]
      · rw [List.append_nil, List.nil_append, show t.input = c.input from input]

theorem echoRound_reads (sent : Bytes) (timeout : Duration) (deadline : Moment) :
    Moves Reads (echoRound sent timeout deadline) := by
  unfold echoRound
  refine .bind .get fun c => ?_
  dsimp only
  split
  · exact .bind clearRing_reads fun _ =>
      .bind ((count_quiet _).mono fun _ _ => Quiet.reads) fun _ => .throw_bind _ _
  split
  · exact .bind (fun c => ⟨_, discard_observed c _⟩) fun _ => .pure _
  · refine .bind ((fill_quiet _).mono fun _ _ => Quiet.reads) fun heard => ?_
    cases heard with
    | data => exact .bind .get fun _ => .pure _
    | elapsed => exact .throw _

theorem checkEcho_reads (sent : Bytes) (timeout : Duration) : Moves Reads (checkEcho sent timeout) :=
  .bind .get fun _ => .bind .get fun _ => .repeatUpTo (echoRound_reads _ _) _ _

theorem transmit_ok {bytes : Bytes} {timeout : Duration} {c c' : Channel} {n : Nat}
    (h : (transmit bytes timeout).run c = (.ok n, c')) : ∃ echo, Observed c c' echo bytes := by
  unfold transmit at h
  rw [Step.run_get_bind] at h
  dsimp only at h
  obtain ⟨written, c1, wrote, h⟩ := Step.run_bind_ok.1 h
  obtain ⟨timely, c2, flushed, h⟩ := Step.run_bind_ok.1 h
  have sent : Observed c c1 [] bytes := by
    -- invariant: what was sent so far and what is left make up the bytes
    refine Step.repeatUpTo_ok (I := fun a t => ∃ sent, Observed c t [] sent ∧ sent ++ a.1 = bytes)
      (Q := fun _ t => Observed c t [] bytes) ?_ _ ⟨[], .of_eq rfl rfl, rfl⟩ wrote
    rintro ⟨left, k⟩ t r t' ⟨sent, observed, whole⟩ hr
    obtain ⟨more, taken, rest⟩ := writeRound_ok hr
    have both := observed.trans taken
    cases r with
    | inl a' =>
      replace rest : more ++ a'.1 = left := rest
      exact ⟨sent ++ more, both, by rw [List.append_assoc, rest, whole]⟩
    | inr k' =>
      replace rest : more ++ [] = left := rest
      show Observed c t' [] bytes
      rw [← whole, ← rest, List.append_nil]
      exact both
  have quiet := (onLine_quiet (Line.flush_traffic _)).of_run flushed
  have flushed := sent.trans quiet
  split at h
  · exact absurd h Step.run_throw_ne_ok
  obtain ⟨_, c3, counted, h⟩ := Step.run_bind_ok.1 h
  have counted := flushed.trans ((count_quiet _).of_run counted)
  rw [Step.run_get_bind] at h
  split at h
  · obtain ⟨_, c4, echoed, h⟩ := Step.run_bind_ok.1 h
    obtain ⟨echo, read⟩ := (checkEcho_reads _ _).of_run echoed
    obtain rfl := (Prod.mk.inj h).2
    exact ⟨echo, by simpa using counted.trans read⟩
  · obtain rfl := (Prod.mk.inj h).2
    exact ⟨[], by simpa using counted⟩

/-- **A write that succeeds** sends just the bytes it is given. What it consumes is read as their
echo. -/
theorem write_ok {bytes : Bytes} {timeout : Duration} {c c' : Channel} {n : Nat}
    (h : (write bytes timeout).run c = (.ok n, c')) : ∃ echo, Observed c c' echo bytes := by
  obtain ⟨_, c1, connected, h⟩ := Step.run_bind_ok.1 h
  obtain ⟨_, c2, checked, h⟩ := Step.run_bind_ok.1 h
  have quiet : Quiet c c2 :=
    trans_of Quiet (ensureConnected_quiet.of_run connected) (checkCancelled_quiet.of_run checked)
  unfold inWindow at h
  rw [Step.run_modify_bind, Step.run_outcome_bind, Step.run_modify_bind] at h
  have entered : Quiet c2 { c2 with window := c2.window.enter } := .of_eq rfl rfl
  rcases ht : (transmit bytes timeout).run { c2 with window := c2.window.enter } with ⟨r, c3⟩
  rw [ht, Step.run_ofExcept] at h
  obtain ⟨rfl, rfl⟩ := Prod.mk.inj h
  obtain ⟨echo, observed⟩ := transmit_ok ht
  have left : Quiet c3 { c3 with window := c3.window.leave } := .of_eq rfl rfl
  refine ⟨echo, ?_⟩
  simpa using ((quiet.trans entered).trans observed).trans left

end Metering.Channel
