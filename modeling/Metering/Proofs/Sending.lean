import Metering.Proofs.Frames
import Metering.Proofs.Receive

set_option autoImplicit false

/-! # How a message is sent

A message goes out frame by frame, and a frame in transmissions (`Transmission`). A transmission leaves the line alone,
writes the frame and waits for an acknowledgement, and it ends with the first of these that fails
(`Linked.sendPacket_run_iff`). So it puts the bytes of its frame on the line, or as many of them as the line takes, and
then nothing but acknowledgements of packets that came meanwhile (`Linked.Transmits.puts`), and it succeeds exactly if an
acknowledgement is read (`Linked.transmits_ok_iff`). A frame is transmitted until then, as long as the fault allows
that, no deadline is hit and a retry is left (`Linked.sendRepeatedly_round`), and only then it is the turn of the next
one, with the other toggle bit (`Linked.sendMessage_disciplined`). -/

namespace Metering

open Step (Moves Same)

/-! ## What a write puts on the line -/

namespace Channel

variable {c c' : Channel} {bytes : Bytes}

/-- A round puts bytes on the line from the front of those that are left. -/
theorem writeRound_puts (deadline : Moment) (left : Bytes) (written : Nat) (c : Channel) :
    ∃ n, Observed c ((writeRound deadline (left, written)).run c).2 [] (left.take n) ∧
      ∀ r, ((writeRound deadline (left, written)).run c).1 = .ok r →
        Sum.elim (fun a => a.1 = left.drop n) (fun _ => left = []) r := by
  unfold writeRound
  dsimp only
  by_cases none : left.isEmpty
  · rw [if_pos none, Step.run_pure]
    refine ⟨0, .of_eq rfl rfl, ?_⟩
    rintro r h
    obtain rfl := Except.ok.inj h
    exact List.isEmpty_iff.1 none
  rw [if_neg none]
  obtain ⟨result, line, input⟩ := orDrop_run (Line.write (some deadline) left) c
  obtain ⟨n, traffic, counted⟩ := Line.write_traffic (some deadline) left c.line
  rw [← result] at counted
  rw [← line] at traffic
  have put : Observed c ((orDrop (Line.write (some deadline) left)).run c).2 [] (left.take n) := by
    obtain ⟨stream, sent⟩ := Prod.mk.inj traffic
    refine ⟨[], ?_, ?_, sent⟩
    · rw [stream, List.append_nil]
    · rw [input, List.append_nil, List.nil_append]
  rw [Step.run_bind]
  rcases hr : (orDrop (Line.write (some deadline) left)).run c with ⟨r, t⟩
  rw [hr] at put counted
  refine ⟨n, ?_⟩
  cases r with
  | error e => exact ⟨put, fun r h => nomatch h⟩
  | ok taken =>
    cases taken with
    | none => exact ⟨put, fun r h => nomatch h⟩
    | some m =>
      obtain rfl := counted m rfl
      cases m with
      | zero =>
        have lost : Moves Quiet (do
            drop
            throw .disconnected : Step Channel ((Bytes × Nat) ⊕ Nat)) := .bind drop_quiet fun _ => .throw _
        exact ⟨by simpa using put.trans (lost t), fun r h => nomatch h⟩
      | succ m =>
        refine ⟨put, ?_⟩
        rintro r h
        obtain rfl := Except.ok.inj h
        rfl

/-- All rounds together put bytes on the line from the front, and all of them if they succeed. -/
theorem writeRounds_puts (deadline : Moment) (fuel : Nat) (left : Bytes) (written : Nat) (c : Channel) :
    ∃ n, Observed c ((Step.repeatUpTo (writeRound deadline) fuel (left, written)).run c).2 [] (left.take n) ∧
      ∀ k, ((Step.repeatUpTo (writeRound deadline) fuel (left, written)).run c).1 = .ok k → left.take n = left := by
  induction fuel generalizing left written c with
  | zero =>
    refine ⟨0, .of_eq rfl rfl, fun k h => ?_⟩
    cases h
  | succ fuel ih =>
    unfold Step.repeatUpTo
    obtain ⟨n, put, next⟩ := writeRound_puts deadline left written c
    rw [Step.run_bind]
    rcases hr : (writeRound deadline (left, written)).run c with ⟨r, t⟩
    rw [hr] at put next
    cases r with
    | error e =>
      refine ⟨n, put, fun k h => ?_⟩
      cases h
    | ok r =>
      cases r with
      | inr k =>
        obtain rfl : left = [] := next _ rfl
        exact ⟨n, put, fun _ _ => List.take_nil⟩
      | inl a =>
        obtain ⟨rest, k⟩ := a
        obtain rfl : rest = left.drop n := next _ rfl
        obtain ⟨m, more, whole⟩ := ih (left.drop n) k t
        refine ⟨n + m, ?_, ?_⟩
        · rw [List.take_add]
          exact put.trans more
        · intro k' h
          rw [List.take_add, whole k' h, List.take_append_drop]

/-- **A write**, however it ends, puts bytes on the line from the front of what it is given. -/
theorem write_puts (bytes : Bytes) (timeout : Duration) (c : Channel) :
    ∃ n x, Observed c ((write bytes timeout).run c).2 x (bytes.take n) := by
  have transmitted (c : Channel) : ∃ n x, Observed c ((transmit bytes timeout).run c).2 x (bytes.take n) := by
    unfold transmit
    rw [Step.run_get_bind]
    dsimp only
    obtain ⟨n, put, whole⟩ := writeRounds_puts (c.now + timeout) (bytes.length + 1) bytes 0 c
    rw [Step.run_bind]
    rcases hr : (Step.repeatUpTo (writeRound (c.now + timeout)) (bytes.length + 1) (bytes, 0)).run c with ⟨r, t⟩
    rw [hr] at put whole
    cases r with
    | error e => exact ⟨n, [], put⟩
    | ok written =>
      have counted (f : ChannelStatistics → ChannelStatistics) : Moves Reads (count f) :=
        (count_quiet f).mono fun _ _ => Quiet.reads
      have rest : Moves Reads (do
          if !(← onLine (Line.flush (some (c.now + timeout)))) then throw (.writeTimeout written)
          count fun s => { s with sent := s.sent + bytes.length }
          let c ← get
          if c.line.echoes then
            checkEcho bytes (if c.intercharacter = 0 then timeout else c.intercharacter)
          return written : Step Channel Nat) := by
        refine .bind ((onLine_quiet (Line.flush_traffic _)).mono fun _ _ => Quiet.reads) fun timely => ?_
        refine .ite (.throw_bind _ _) (.bind (counted _) fun _ => .bind .get fun c => ?_)
        exact .ite (.bind (checkEcho_reads _ _) fun _ => .pure _) (.pure _)
      obtain ⟨x, read⟩ := rest t
      exact ⟨n, x, by simpa using put.trans read⟩
  unfold write inWindow
  rw [Step.run_bind]
  have connected := ensureConnected_quiet c
  rcases hc : ensureConnected.run c with ⟨r, c1⟩
  rw [hc] at connected
  cases r with
  | error e => exact ⟨0, [], connected⟩
  | ok u =>
    dsimp only
    rw [Step.run_bind]
    have checked := checkCancelled_quiet c1
    rcases hk : checkCancelled.run c1 with ⟨r, c2⟩
    rw [hk] at checked
    have quiet := connected.trans checked
    cases r with
    | error e => exact ⟨0, [], quiet⟩
    | ok u =>
      dsimp only
      rw [Step.run_modify_bind, Step.run_outcome_bind, Step.run_modify_bind, Step.run_ofExcept]
      have entered : Quiet c2 { c2 with window := c2.window.enter } := .of_eq rfl rfl
      obtain ⟨n, x, put⟩ := transmitted { c2 with window := c2.window.enter }
      have left (t : Channel) : Quiet t { t with window := t.window.leave } := .of_eq rfl rfl
      exact ⟨n, x, by simpa using ((quiet.trans entered).trans put).trans (left _)⟩

end Channel

/-! ## One transmission -/

namespace Linked

variable {α : Type} {s s' t : Linked} {frame : Bytes}

/-- Nothing was put on the line but acknowledgements. -/
def Acks (s s' : Linked) : Prop := ∃ x n, Channel.Observed s.channel s'.channel x (List.replicate n ackByte)

instance : IsPreorder Linked Acks where
  refl s := ⟨[], 0, refl_of Channel.Quiet s.channel⟩
  trans _ _ _ := by
    rintro ⟨x, n, h⟩ ⟨y, m, h'⟩
    exact ⟨x ++ y, n + m, List.replicate_append_replicate ▸ h.trans h'⟩

theorem onChannel_acks {x : Step Channel α} (h : Moves Channel.Reads x) : Moves Acks (onChannel x) :=
  .within h fun _ _ ⟨x, read⟩ => ⟨x, 0, read⟩

theorem Idles.acks (h : Idles s s') : Acks s s' := ⟨[], 0, h.1⟩

theorem writeControl_acks : Moves Acks (writeControl ackByte) := by
  have written (timeout : Duration) : Moves Acks (onChannel (Channel.write [ackByte] timeout)) := by
    refine .within (Q := fun c c' => ∃ n x, Channel.Observed c c' x ([ackByte].take n))
      (Channel.write_puts _ _) fun s c' ⟨n, x, put⟩ => ⟨x, min n 1, ?_⟩
    have part : [ackByte].take n = List.replicate (min n 1) ackByte := by
      rw [show [ackByte] = List.replicate 1 ackByte from rfl, List.take_replicate]
    exact part ▸ put
  exact .bind (parameters_idles.mono fun _ _ => Idles.acks) fun _ => .bind (written _) fun _ => .pure _

theorem acknowledged_acks : Moves Acks acknowledged := by
  refine .bind (parameters_idles.mono fun _ _ => Idles.acks) fun p => ?_
  refine .bind (onChannel_acks (Channel.readStart_reads _ _)) fun byte => ?_
  exact .ite (.pure _) (.ite (.bind (onChannel_acks Channel.clearInput_reads) fun _ => .throw_bind _ _) (.pure _))

theorem skipStray_acks : Moves Acks skipStray := by
  have read (n : Nat) (timeout : Duration) : Moves Acks (onChannel (Channel.readExact n timeout)) :=
    onChannel_acks (Channel.readExactly_reads _ _)
  have stray : Moves Acks readStray :=
    .bind (parameters_idles.mono fun _ _ => Idles.acks) fun _ => .bind (read _ _) fun _ => .bind .get fun _ =>
      .ite (.bind (read _ _) fun _ => .pure _) (.pure _)
  refine .bind (.outcome stray) fun r => ?_
  split
  · exact .throw _
  · exact .throw _
  · exact .pure _

/-- Drops a packet that came instead of an acknowledgement, and acknowledges it. -/
def answerStray : Step Linked Unit := do
  skipStray
  turnAround
  writeControl ackByte

theorem awaitAcknowledgement_succ (strays : Nat) : awaitAcknowledgement (strays + 1) = (do
    if !(← acknowledged) then
      answerStray
      awaitAcknowledgement strays) := by
  simp only [awaitAcknowledgement, answerStray, bind_assoc]

theorem answerStray_acks : Moves Acks answerStray :=
  .bind skipStray_acks fun _ => .bind (turnAround_idles.mono fun _ _ => Idles.acks) fun _ => writeControl_acks

theorem awaitAcknowledgement_acks (strays : Nat) : Moves Acks (awaitAcknowledgement strays) := by
  induction strays with
  | zero => exact .bind acknowledged_acks fun _ => .ite (.throw _) (.pure _)
  | succ strays ih =>
    rw [awaitAcknowledgement_succ]
    exact .bind acknowledged_acks fun _ => .ite (.bind answerStray_acks fun _ => ih) (.pure _)

/-! ### Waiting for an acknowledgement -/

/-- What comes where an acknowledgement is awaited. -/
def Gets (byte : Except Fault UInt8) (s s' : Linked) : Prop :=
  (onChannel (Channel.readStart [ackByte, nakByte, startByte] s.link.parameters.acknowledgement)).run s = (byte, s')

/-- So many packets come instead of an acknowledgement; they are dropped and acknowledged. -/
inductive Strays : Nat → Linked → Linked → Prop where
  | none (s : Linked) : Strays 0 s s
  | more {n : Nat} {s t u s' : Linked} (came : Gets (.ok startByte) s t) (answered : answerStray.run t = (.ok (), u))
      (rest : Strays n u s') : Strays (n + 1) s s'

/-- How a wait for an acknowledgement ends, if so many more packets may come instead. -/
inductive Concludes (allowed : Nat) (s s' : Linked) : Except Fault Unit → Prop where
  | acknowledged (got : Gets (.ok ackByte) s s') : Concludes allowed s s' (.ok ())
  /-- Nothing comes in time, or nothing can be read. -/
  | unheard {e : Fault} (got : Gets (.error e) s s') : Concludes allowed s s' (.error e)
  /-- The frame is refused, and whatever came with the refusal is dropped. -/
  | refused {t : Linked} (got : Gets (.ok nakByte) s t)
      (cleared : (onChannel Channel.clearInput).run t = (.ok (), s')) :
      Concludes allowed s s' (.error (.protocol (.unexpectedCharacter ackByte nakByte)))
  | uncleared {t : Linked} {e : Fault} (got : Gets (.ok nakByte) s t)
      (lost : (onChannel Channel.clearInput).run t = (.error e, s')) : Concludes allowed s s' (.error e)
  /-- One packet more comes than may. -/
  | crowded (full : allowed = 0) (got : Gets (.ok startByte) s s') :
      Concludes allowed s s' (.error (.protocol (.unexpectedCharacter ackByte startByte)))
  /-- A packet comes that cannot be dropped and acknowledged. -/
  | unanswered {t : Linked} {e : Fault} (room : 0 < allowed) (got : Gets (.ok startByte) s t)
      (lost : answerStray.run t = (.error e, s')) : Concludes allowed s s' (.error e)

section Waits

variable {e : Fault} {r : Except Fault Unit} {n allowed : Nat}

/-- What comes decides how the wait goes on. -/
theorem gets_run (r : Except Fault UInt8) (h : Gets r s t) (f : UInt8 → Step Linked α) :
    (do f (← onChannel (Channel.readStart [ackByte, nakByte, startByte] (← parameters).acknowledgement))).run s =
      match r with
      | .ok byte => (f byte).run t
      | .error e => (.error e, t) := by
  have known : parameters.run s = (.ok s.link.parameters, s) := rfl
  rw [Step.run_bind_of_ok known]
  cases r with
  | ok byte => exact Step.run_bind_of_ok h
  | error e => exact Step.run_bind_of_error h

theorem acknowledged_of_ack (h : Gets (.ok ackByte) s t) : acknowledged.run s = (.ok true, t) := gets_run _ h _

theorem acknowledged_of_start (h : Gets (.ok startByte) s t) : acknowledged.run s = (.ok false, t) := gets_run _ h _

theorem acknowledged_of_error (h : Gets (.error e) s t) : acknowledged.run s = (.error e, t) := gets_run _ h _

theorem acknowledged_of_nak (h : Gets (.ok nakByte) s t) : acknowledged.run s =
    (onChannel Channel.clearInput >>= fun _ => throw (.protocol (.unexpectedCharacter ackByte nakByte))).run t :=
  gets_run _ h _

/-- Something is heard, and only what is waited for. -/
theorem gets_cases (s : Linked) : ∃ t, (∃ e, Gets (.error e) s t) ∨ Gets (.ok ackByte) s t ∨
    Gets (.ok nakByte) s t ∨ Gets (.ok startByte) s t := by
  rcases hr : (onChannel (Channel.readStart [ackByte, nakByte, startByte] s.link.parameters.acknowledgement)).run s
    with ⟨heard, t⟩
  refine ⟨t, ?_⟩
  cases heard with
  | error e => exact .inl ⟨e, hr⟩
  | ok byte =>
    obtain ⟨c, read, rfl⟩ := Step.run_within_eq.1 hr
    have wanted := (Channel.readStart_ok read).1
    simp only [List.mem_cons, List.not_mem_nil, or_false] at wanted
    rcases wanted with rfl | rfl | rfl
    · exact .inr (.inl hr)
    · exact .inr (.inr (.inl hr))
    · exact .inr (.inr (.inr hr))

theorem awaitAcknowledgement_of_concludes (h : Concludes allowed s s' r) :
    (awaitAcknowledgement allowed).run s = (r, s') := by
  obtain ⟨rest, begins⟩ : ∃ rest : Step Linked Unit, awaitAcknowledgement allowed = (do
      if !(← acknowledged) then rest) := by
    cases allowed with
    | zero => exact ⟨_, rfl⟩
    | succ n => exact ⟨_, rfl⟩
  cases h with
  | acknowledged got =>
    rw [begins, Step.run_bind_of_ok (acknowledged_of_ack got)]
    rfl
  | unheard got => rw [begins, Step.run_bind_of_error (acknowledged_of_error got)]
  | refused got cleared =>
    have failed := (acknowledged_of_nak got).trans (Step.run_bind_of_ok cleared)
    rw [begins, Step.run_bind_of_error failed]
  | uncleared got lost =>
    have failed := (acknowledged_of_nak got).trans (Step.run_bind_of_error lost)
    rw [begins, Step.run_bind_of_error failed]
  | crowded full got =>
    subst full
    exact Step.run_bind_of_ok (acknowledged_of_start got)
  | unanswered room got lost =>
    obtain ⟨n, rfl⟩ := Nat.exists_eq_succ_of_ne_zero (Nat.ne_of_gt room)
    rw [awaitAcknowledgement_succ, Step.run_bind_of_ok (acknowledged_of_start got)]
    exact Step.run_bind_of_error lost

/-- A wait ends, unless a packet comes that may come and is answered. -/
theorem concludes_or_stray (allowed : Nat) (s : Linked) : (∃ r s', Concludes allowed s s' r) ∨
    ∃ t u, 0 < allowed ∧ Gets (.ok startByte) s t ∧ answerStray.run t = (.ok (), u) := by
  obtain ⟨t, ⟨e, got⟩ | got | got | got⟩ := gets_cases s
  · exact .inl ⟨_, t, .unheard got⟩
  · exact .inl ⟨_, t, .acknowledged got⟩
  · rcases hc : (onChannel Channel.clearInput).run t with ⟨r, u⟩
    cases r with
    | ok _ => exact .inl ⟨_, u, .refused got hc⟩
    | error e => exact .inl ⟨_, u, .uncleared got hc⟩
  · rcases Nat.eq_zero_or_pos allowed with full | room
    · exact .inl ⟨_, t, .crowded full got⟩
    · rcases ha : answerStray.run t with ⟨r, u⟩
      cases r with
      | ok _ => exact .inr ⟨t, u, room, got, ha⟩
      | error e => exact .inl ⟨_, u, .unanswered room got ha⟩

theorem awaitAcknowledgement_of_strays (few : n ≤ allowed) (came : Strays n s t)
    (ends : Concludes (allowed - n) t s' r) : (awaitAcknowledgement allowed).run s = (r, s') := by
  induction came generalizing allowed with
  | none s => exact awaitAcknowledgement_of_concludes ends
  | @more n s t u v came answered rest ih =>
    obtain ⟨m, rfl⟩ := Nat.exists_eq_succ_of_ne_zero (Nat.ne_of_gt (Nat.lt_of_lt_of_le (Nat.succ_pos n) few))
    have later := ih (Nat.le_of_succ_le_succ few) (by simpa using ends)
    rw [awaitAcknowledgement_succ, Step.run_bind_of_ok (acknowledged_of_start came)]
    exact (Step.run_bind_of_ok answered).trans later

/-- Every wait ends behind packets that came instead. -/
theorem concludes_behind_strays (allowed : Nat) (s : Linked) :
    ∃ n t r s', n ≤ allowed ∧ Strays n s t ∧ Concludes (allowed - n) t s' r := by
  induction allowed generalizing s with
  | zero =>
    obtain ⟨r, s', ends⟩ | ⟨_, _, room, -⟩ := concludes_or_stray 0 s
    · exact ⟨0, s, r, s', Nat.le_refl _, .none s, ends⟩
    · exact absurd room (Nat.lt_irrefl 0)
  | succ allowed ih =>
    obtain ⟨r, s', ends⟩ | ⟨t, u, -, came, answered⟩ := concludes_or_stray (allowed + 1) s
    · exact ⟨0, s, r, s', Nat.zero_le _, .none s, ends⟩
    · obtain ⟨n, v, r, s', few, rest, ends⟩ := ih u
      exact ⟨n + 1, v, r, s', Nat.succ_le_succ few, .more came answered rest, by simpa using ends⟩

theorem awaitAcknowledgement_run_iff : (awaitAcknowledgement allowed).run s = (r, s') ↔
    ∃ n t, n ≤ allowed ∧ Strays n s t ∧ Concludes (allowed - n) t s' r := by
  constructor
  · intro h
    obtain ⟨n, t, r', u, few, came, ends⟩ := concludes_behind_strays allowed s
    obtain ⟨rfl, rfl⟩ := Prod.mk.inj (h.symm.trans (awaitAcknowledgement_of_strays few came ends))
    exact ⟨n, t, few, came, ends⟩
  · rintro ⟨n, t, few, came, ends⟩
    exact awaitAcknowledgement_of_strays few came ends

end Waits

/-! ### How a transmission ends -/

/-- A transmission of a frame put all of it on the line, and then, behind no more packets than the link has retries,
an acknowledgement is read. -/
def IsAcknowledged (frame : Bytes) (s s' : Linked) : Prop :=
  ∃ t u v count strays, turnAround.run s = (.ok (), t) ∧
    (onChannel (Channel.write frame s.link.parameters.traffic)).run t = (.ok count, u) ∧
    strays ≤ s.link.parameters.retries.toNat ∧
    Strays strays { u with link.statistics.sent := u.link.statistics.sent + 1 } v ∧ Gets (.ok ackByte) v s'

/-- How a transmission of a frame ends. The line is left alone, the frame is written and an acknowledgement is awaited;
the first of these that fails gives the fault. -/
inductive Transmits (frame : Bytes) (s s' : Linked) : Except Fault Unit → Prop where
  | untouched {e : Fault} (turned : turnAround.run s = (.error e, s')) : Transmits frame s s' (.error e)
  | unwritten {t : Linked} {e : Fault} (turned : turnAround.run s = (.ok (), t))
      (written : (onChannel (Channel.write frame s.link.parameters.traffic)).run t = (.error e, s')) :
      Transmits frame s s' (.error e)
  | awaited {t u v : Linked} {count strays : Nat} {r : Except Fault Unit} (turned : turnAround.run s = (.ok (), t))
      (written : (onChannel (Channel.write frame s.link.parameters.traffic)).run t = (.ok count, u))
      (few : strays ≤ s.link.parameters.retries.toNat)
      (came : Strays strays { u with link.statistics.sent := u.link.statistics.sent + 1 } v)
      (ends : Concludes (s.link.parameters.retries.toNat - strays) v s' r) : Transmits frame s s' r

variable {r : Except Fault Unit}

theorem transmits_ok_iff : Transmits frame s s' (.ok ()) ↔ IsAcknowledged frame s s' := by
  constructor
  · intro h
    cases h with
    | awaited turned written few came ends =>
      cases ends with
      | acknowledged got => exact ⟨_, _, _, _, _, turned, written, few, came, got⟩
  · rintro ⟨t, u, v, count, strays, turned, written, few, came, got⟩
    exact .awaited turned written few came (.acknowledged got)

/-- **A transmission ends** as one of these says. -/
theorem sendPacket_run_iff : (sendPacket frame).run s = (r, s') ↔ Transmits frame s s' r := by
  have known : parameters.run s = (.ok s.link.parameters, s) := rfl
  unfold sendPacket
  rw [Step.run_bind_of_ok known]
  constructor
  · intro h
    rw [Step.run_bind] at h
    rcases ht : turnAround.run s with ⟨r1, t⟩
    rw [ht] at h
    cases r1 with
    | error e =>
      obtain ⟨rfl, rfl⟩ := Prod.mk.inj h
      exact .untouched ht
    | ok _ =>
      dsimp only at h
      rw [Step.run_bind] at h
      rcases hw : (onChannel (Channel.write frame s.link.parameters.traffic)).run t with ⟨r2, u⟩
      rw [hw] at h
      cases r2 with
      | error e =>
        obtain ⟨rfl, rfl⟩ := Prod.mk.inj h
        exact .unwritten ht hw
      | ok count =>
        obtain ⟨n, v, few, came, ends⟩ := awaitAcknowledgement_run_iff.1 h
        exact .awaited ht hw few came ends
  · intro h
    cases h with
    | untouched turned => exact Step.run_bind_of_error turned
    | unwritten turned written =>
      rw [Step.run_bind_of_ok turned]
      exact Step.run_bind_of_error written
    | awaited turned written few came ends =>
      rw [Step.run_bind_of_ok turned, Step.run_bind_of_ok written]
      exact awaitAcknowledgement_run_iff.2 ⟨_, _, few, came, ends⟩

/-- The bytes of a frame and then only acknowledgements; or, before a failure, some of the bytes and nothing else. -/
def Puts (frame : Bytes) (s : Linked) (r : Except Fault Unit) (s' : Linked) : Prop :=
  ∃ x n k, Channel.Observed s.channel s'.channel x (frame.take n ++ List.replicate k ackByte) ∧
    (frame.take n = frame ∨ k = 0 ∧ ∃ e, r = .error e)

/-- **A transmission**, however it ends, puts the bytes of its frame on the line. -/
theorem Transmits.puts (h : Transmits frame s s' r) : Puts frame s r s' := by
  have left {r : Except Fault Unit} {t : Linked} (turned : turnAround.run s = (r, t)) :
      Channel.Quiet s.channel t.channel := (turnAround_idles.of_run turned).1
  cases h with
  | @untouched e turned => exact ⟨[], 0, 0, left turned, .inr ⟨rfl, e, rfl⟩⟩
  | @unwritten t e turned written =>
    obtain ⟨c, write, rfl⟩ := Step.run_within_eq.1 written
    obtain ⟨n, x, put⟩ := Channel.write_puts frame s.link.parameters.traffic t.channel
    rw [write] at put
    exact ⟨x, n, 0, by simpa using (left turned).trans put, .inr ⟨rfl, e, rfl⟩⟩
  | @awaited t u v count strays r turned written few came ends =>
    obtain ⟨c, write, rfl⟩ := Step.run_within_eq.1 written
    obtain ⟨echo, sent⟩ := Channel.write_ok write
    have waited := awaitAcknowledgement_run_iff.2 ⟨strays, v, few, came, ends⟩
    obtain ⟨x, k, acks⟩ := (awaitAcknowledgement_acks _).of_run waited
    have whole : frame.take frame.length = frame := List.take_length
    refine ⟨echo ++ x, frame.length, k, ?_, .inl whole⟩
    rw [whole]
    simpa using ((left turned).trans sent).trans acks

end Linked

/-! ## Rounds of transmissions -/

/-- A frame is sent once: how that ended, and the states around it. -/
structure Transmission where
  before : Linked
  result : Except Fault Unit
  after : Linked

/-- The transmissions of one frame. -/
structure Round where
  frame : Bytes
  earlier : List Transmission
  last : Transmission

open Linked

namespace Transmission

/-- A transmission of a frame over a link with these parameters. -/
structure Of (p : LinkParameters) (frame : Bytes) (x : Transmission) : Prop where
  parameters : x.before.link.parameters = p
  ends : Transmits frame x.before x.after x.result
  puts : Puts frame x.before x.result x.after

/-- An acknowledgement was read. -/
def Acknowledged (frame : Bytes) (x : Transmission) : Prop := IsAcknowledged frame x.before x.after

/-- The transmission failed in a way that allows the frame to be sent again, and the deadline of the operation was not
hit. -/
def Repeatable (x : Transmission) : Prop :=
  ∃ e, x.result = .error e ∧ e.allowsPacketAgain = true ∧ x.after.channel.deadlineHit = false

variable {x : Transmission} {p : LinkParameters} {frame : Bytes}

theorem Of.result_eq_ok_iff (h : x.Of p frame) : x.result = .ok () ↔ x.Acknowledged frame := by
  have run := sendPacket_run_iff.2 h.ends
  constructor
  · intro ok
    exact transmits_ok_iff.1 (ok ▸ h.ends)
  · intro acknowledged
    have ok := sendPacket_run_iff.2 (transmits_ok_iff.2 acknowledged)
    exact (Prod.mk.inj (run.symm.trans ok)).1

theorem Of.not_acknowledged {e : Fault} (h : x.Of p frame) (failed : x.result = .error e) :
    ¬ x.Acknowledged frame := by
  intro acknowledged
  cases failed.symm.trans (h.result_eq_ok_iff.2 acknowledged)

end Transmission

namespace Round

/-- All transmissions, oldest first. -/
def tries (x : Round) : List Transmission := x.earlier ++ [x.last]

/-- The last transmission was acknowledged. -/
def Acknowledged (x : Round) : Prop := x.last.Acknowledged x.frame

/-- Every transmission is one of the same frame. Before the last none was acknowledged, but each allowed another one,
and of these there are no more than retries. -/
structure Conducted (p : LinkParameters) (retries : Nat) (x : Round) : Prop where
  same : ∀ t ∈ x.tries, t.Of p x.frame
  few : x.earlier.length ≤ retries
  unanswered : ∀ t ∈ x.earlier, ¬ t.Acknowledged x.frame
  repeated : ∀ t ∈ x.earlier, t.Repeatable

/-- The frame is given up with the fault of its last transmission, for a reason: the fault does not allow that it is sent
again, the deadline of the operation was hit, or all retries are used up. -/
structure GivenUp (retries : Nat) (e : Fault) (x : Round) : Prop where
  fault : x.last.result = .error e
  reason : e.allowsPacketAgain = false ∨ x.last.after.channel.deadlineHit = true ∨ x.earlier.length = retries

/-- How a round ends. -/
inductive Ends (retries : Nat) (x : Round) : Except Fault Unit → Prop where
  | acknowledged (h : x.Acknowledged) : Ends retries x (.ok ())
  | givenUp {e : Fault} (h : x.GivenUp retries e) : Ends retries x (.error e)

variable {p : LinkParameters} {retries : Nat} {x : Round} {t : Transmission} {r : Except Fault Unit}

theorem Conducted.last_of (h : x.Conducted p retries) : x.last.Of p x.frame :=
  h.same x.last (List.mem_append_right _ (List.mem_singleton.2 rfl))

/-- A frame that is sent only once. -/
theorem conducted_once {frame : Bytes} (h : t.Of p frame) (retries : Nat) :
    (Round.mk frame [] t).Conducted p retries where
  same u hu := by
    obtain rfl := List.mem_singleton.1 hu
    exact h
  few := Nat.zero_le _
  unanswered _ mem := nomatch mem
  repeated _ mem := nomatch mem

/-- One transmission more in front. -/
theorem Conducted.cons (first : t.Of p x.frame) (again : t.Repeatable) (h : x.Conducted p retries) :
    { x with earlier := t :: x.earlier }.Conducted p (retries + 1) where
  same := List.forall_mem_cons.2 ⟨first, h.same⟩
  few := Nat.succ_le_succ h.few
  unanswered := by
    obtain ⟨e, failed, -⟩ := again
    exact List.forall_mem_cons.2 ⟨first.not_acknowledged failed, h.unanswered⟩
  repeated := List.forall_mem_cons.2 ⟨again, h.repeated⟩

theorem Ends.cons (h : x.Ends retries r) (t : Transmission) :
    { x with earlier := t :: x.earlier }.Ends (retries + 1) r := by
  cases h with
  | acknowledged h => exact .acknowledged h
  | givenUp h => exact .givenUp ⟨h.fault, h.reason.imp_right (Or.imp_right (congrArg (· + 1)))⟩

end Round

/-- From one state to the other nothing happens on the channel but these transmissions, one after the other. -/
inductive Path : Linked → List Transmission → Linked → Prop where
  | done {s s' : Linked} (same : s'.channel = s.channel) : Path s [] s'
  | more {s s' : Linked} {x : Transmission} {rest : List Transmission} (same : x.before.channel = s.channel)
      (later : Path x.after rest s') : Path s (x :: rest) s'

namespace Path

variable {s s' t : Linked} {xs ys : List Transmission}

theorem of_channel (h : Path s xs s') (same : s.channel = t.channel) : Path t xs s' := by
  cases h with
  | done same' => exact .done (same'.trans same)
  | more same' later => exact .more (same'.trans same) later

theorem append (h : Path s xs t) (h' : Path t ys s') : Path s (xs ++ ys) s' := by
  induction h with
  | done same => exact h'.of_channel same
  | more same _ ih => exact .more same (ih h')

theorem channel_of_last {x : Transmission} (h : Path s (xs ++ [x]) s') : s'.channel = x.after.channel := by
  induction xs generalizing s with
  | nil =>
    cases h with
    | more _ later =>
      cases later with
      | done same => exact same
  | cons y xs ih =>
    cases h with
    | more _ later => exact ih later

end Path

namespace Linked

variable {s s' : Linked} {frame message : Bytes} {r : Except Fault Unit} {p : LinkParameters}

theorem transmission_of (known : s.link.parameters = p) (h : (sendPacket frame).run s = (r, s')) :
    Transmission.Of p frame ⟨s, r, s'⟩ := by
  have ends := sendPacket_run_iff.1 h
  exact ⟨known, ends, ends.puts⟩

/-- **A frame is sent** in a round of transmissions. -/
theorem sendRepeatedly_round {retries : Nat} (known : s.link.parameters = p)
    (h : (sendRepeatedly frame retries).run s = (r, s')) :
    ∃ x : Round, x.frame = frame ∧ x.Conducted p retries ∧ x.Ends retries r ∧ Path s x.tries s' := by
  induction retries generalizing s with
  | zero =>
    have only := transmission_of known h
    refine ⟨⟨frame, [], ⟨s, r, s'⟩⟩, rfl, Round.conducted_once only 0, ?_, .more rfl (.done rfl)⟩
    cases r with
    | ok _ => exact .acknowledged (only.result_eq_ok_iff.1 rfl)
    | error e => exact .givenUp ⟨rfl, .inr (.inr rfl)⟩
  | succ retries ih =>
    unfold sendRepeatedly at h
    rw [Step.run_outcome_bind] at h
    rcases hr : (sendPacket frame).run s with ⟨r1, t⟩
    rw [hr] at h
    have first := transmission_of known hr
    have once := Round.conducted_once first (retries + 1)
    cases r1 with
    | ok _ =>
      obtain ⟨rfl, rfl⟩ := Prod.mk.inj h
      exact ⟨_, rfl, once, .acknowledged (first.result_eq_ok_iff.1 rfl), .more rfl (.done rfl)⟩
    | error e =>
      have asked : (mayResend e).run t = (.ok (e.allowsPacketAgain && !t.channel.deadlineHit), t) := rfl
      dsimp only at h
      rw [Step.run_bind_of_ok asked] at h
      by_cases again : (e.allowsPacketAgain && !t.channel.deadlineHit) = true
      · -- the round goes on with the transmissions that follow
        rw [if_pos again] at h
        rw [Bool.and_eq_true, Bool.not_eq_true'] at again
        have kept : t.link.parameters = p := by
          have terms := (converses_terms.sendPacket frame).of_run hr
          exact (congrArg Prod.fst terms).trans known
        obtain ⟨x, rfl, conducted, ends, path⟩ := ih
          (s := { t with link.statistics.retransmissions := t.link.statistics.retransmissions + 1 }) kept h
        have repeatable : Transmission.Repeatable ⟨s, .error e, t⟩ := ⟨e, rfl, again⟩
        exact ⟨{ x with earlier := ⟨s, .error e, t⟩ :: x.earlier }, rfl, conducted.cons first repeatable, ends.cons _,
          .more rfl (path.of_channel rfl)⟩
      · rw [if_neg again] at h
        obtain ⟨rfl, rfl⟩ := Prod.mk.inj h
        refine ⟨_, rfl, once, .givenUp ⟨rfl, ?_⟩, .more rfl (.done rfl)⟩
        rw [Bool.not_eq_true, Bool.and_eq_false_iff, Bool.not_eq_false'] at again
        exact again.imp_right .inl

end Linked

/-! ## Messages -/

theorem Packet.length_flatMap_data_le {packets : List Packet} {n : Nat} (room : ∀ p ∈ packets, p.data.length ≤ n) :
    (packets.flatMap (·.data)).length ≤ packets.length * n := by
  induction packets with
  | nil => simp
  | cons p rest ih =>
    have first := room p List.mem_cons_self
    have later := ih fun q hq => room q (List.mem_cons_of_mem p hq)
    rw [List.flatMap_cons, List.length_append, List.length_cons, Nat.succ_mul]
    omega

/-- What became of frames that were to be sent: a round for each that was acknowledged, and one for the frame, if
any, at which sending failed. -/
structure Disciplined (p : LinkParameters) (frames : List Bytes) (s : Linked) (r : Except Fault Unit) (s' : Linked)
    (acked : List Round) (failed : Option Round) : Prop where
  /-- The frames go out in order, each after an acknowledgement of the one before. -/
  ordered : (acked ++ failed.toList).map (·.frame) <+: frames
  acknowledged : ∀ x ∈ acked, x.Acknowledged
  unacknowledged : ∀ x ∈ failed, ¬ x.Acknowledged
  conducted : ∀ x ∈ acked ++ failed.toList, x.Conducted p p.retries.toNat
  /-- Nothing else happens on the channel. -/
  path : Path s ((acked ++ failed.toList).flatMap Round.tries) s'
  complete : r = .ok () ↔ acked.length = frames.length
  /-- Sending fails exactly if a frame was sent and given up, and with the fault of its last transmission. -/
  failure : ∀ e, r = .error e ↔ ∃ x ∈ failed, x.GivenUp p.retries.toNat e
  /-- Each acknowledged frame turned the toggle bit that is due. -/
  toggle : s'.link.nextToggle = (s.link.nextToggle ^^ decide (acked.length % 2 = 1))

namespace Linked

variable {s s' : Linked} {message : Bytes} {r : Except Fault Unit} {p : LinkParameters}

theorem xor_odd_succ (b : Bool) (n : Nat) : (b ^^ decide ((n + 1) % 2 = 1)) = (!b ^^ decide (n % 2 = 1)) := by
  rcases Nat.mod_two_eq_zero_or_one n with even | odd
  · rw [show (n + 1) % 2 = 1 by omega, even]
    simp
  · rw [show (n + 1) % 2 = 0 by omega, odd]
    simp

theorem sendFrames_disciplined {frames : List Bytes} (known : s.link.parameters = p)
    (h : (sendFrames frames).run s = (r, s')) : ∃ acked failed, Disciplined p frames s r s' acked failed := by
  induction frames generalizing s with
  | nil =>
    obtain ⟨rfl, rfl⟩ := Prod.mk.inj h
    exact ⟨[], none, ⟨List.nil_prefix, by simp, by simp, by simp, .done rfl, by simp, by simp, by simp⟩⟩
  | cons frame rest ih =>
    have found : parameters.run s = (.ok s.link.parameters, s) := rfl
    unfold sendFrames at h
    rw [Step.run_bind_of_ok found, known, Step.run_bind] at h
    rcases hr : (sendRepeatedly frame p.retries.toNat).run s with ⟨r1, t⟩
    obtain ⟨x, rfl, conducted, ends, path⟩ := sendRepeatedly_round known hr
    have due : t.link.nextToggle = s.link.nextToggle := (listens_nextToggle.sendRepeatedly _ _).of_run hr
    rw [hr] at h
    cases ends with
    | givenUp givenUp =>
      obtain ⟨rfl, rfl⟩ := Prod.mk.inj h
      refine ⟨[], some x, ⟨by simp, by simp, ?_, ?_, by simpa using path, by simp, ?_, by simp [due]⟩⟩
      · intro y hy
        obtain rfl := Option.some.inj hy
        exact conducted.last_of.not_acknowledged givenUp.fault
      · intro y hy
        obtain rfl := List.mem_singleton.1 hy
        exact conducted
      · intro e
        constructor
        · intro same
          obtain rfl := Except.error.inj same
          exact ⟨x, rfl, givenUp⟩
        · rintro ⟨y, hy, other⟩
          obtain rfl := Option.some.inj hy
          exact givenUp.fault.symm.trans other.fault
    | acknowledged acknowledged =>
      have kept : t.link.parameters = p := by
        have terms := (converses_terms.sendRepeatedly x.frame p.retries.toNat).of_run hr
        exact (congrArg Prod.fst terms).trans known
      obtain ⟨acked, failed, rest⟩ := ih (s := { t with link.nextToggle := !t.link.nextToggle }) kept h
      refine ⟨x :: acked, failed, ⟨?_, ?_, rest.unacknowledged, ?_, ?_, ?_, rest.failure, ?_⟩⟩
      · exact List.prefix_cons_inj x.frame |>.2 rest.ordered
      · exact List.forall_mem_cons.2 ⟨acknowledged, rest.acknowledged⟩
      · exact List.forall_mem_cons.2 ⟨conducted, rest.conducted⟩
      · exact path.append (rest.path.of_channel rfl)
      · rw [rest.complete, List.length_cons, List.length_cons]
        omega
      · rw [rest.toggle, List.length_cons, xor_odd_succ, due]

/-- A message that takes more than 256 packets cannot be cut, and neither can one whose packets have no room. -/
theorem not_split_iff : (∃ e, Packet.split s.link.parameters.identity s.link.parameters.dataFormat message
      s.link.packetSize.toNat = .error e) ↔
    s.link.packetSize.toNat ≤ packetOverhead ∨ 256 * (s.link.packetSize.toNat - packetOverhead) < message.length := by
  constructor
  · rintro ⟨e, failed⟩
    by_contra refuted
    obtain ⟨wide, short⟩ := not_or.1 refuted
    have fits : message.length ≤ (s.link.packetSize.toNat - packetOverhead) * 256 := by omega
    obtain ⟨packets, cut, -⟩ : ∃ packets, Packet.split s.link.parameters.identity s.link.parameters.dataFormat message
        s.link.packetSize.toNat = .ok packets ∧ packets.length ≤ 256 :=
      Packet.split_of_fits (Nat.lt_of_not_le wide) (by omega) (Nat.le_refl _) fits
    cases failed.symm.trans cut
  · intro long
    cases cut : Packet.split s.link.parameters.identity s.link.parameters.dataFormat message
        s.link.packetSize.toNat with
    | error e => exact ⟨e, rfl⟩
    | ok packets =>
      have parts := Packet.split_ok cut
      have fits := Packet.length_flatMap_data_le parts.sizes
      have few := Nat.mul_le_mul_right (s.link.packetSize.toNat - packetOverhead) parts.few
      have wide := parts.wide
      rw [parts.message_eq] at fits
      omega

/-- **A message is sent with discipline.** One that takes more packets than there can be changes nothing and is not
sent at all. Any other goes out as its packets, in order and with alternating toggle bits: each is transmitted, the
same way every time and at most once more than the link has retries, until it is acknowledged, and the next one only
then. Sending succeeds exactly if all are acknowledged. It fails exactly if a packet is given up, and with the fault of
its last transmission. However it ends, the toggle bit that is due was turned once for each acknowledged packet. -/
theorem sendMessage_disciplined (message : Bytes) (s : Linked) :
    ((s.link.packetSize.toNat ≤ packetOverhead ∨
          256 * (s.link.packetSize.toNat - packetOverhead) < message.length) ∧
        ∃ e, (sendMessage message).run s = (.error e, s)) ∨
      ((packetOverhead < s.link.packetSize.toNat ∧
          message.length ≤ 256 * (s.link.packetSize.toNat - packetOverhead)) ∧
        ∃ packets frames acked failed,
          Packet.split s.link.parameters.identity s.link.parameters.dataFormat message s.link.packetSize.toNat =
            .ok packets ∧
          Packet.encodings s.link.nextToggle packets = .ok frames ∧
          Disciplined s.link.parameters frames s ((sendMessage message).run s).1 ((sendMessage message).run s).2
            acked failed) := by
  cases cut : Packet.split s.link.parameters.identity s.link.parameters.dataFormat message s.link.packetSize.toNat with
  | error e =>
    left
    refine ⟨not_split_iff.1 ⟨e, cut⟩, e, ?_⟩
    unfold sendMessage
    rw [Step.run_get_bind]
    dsimp only
    rw [cut]
    rfl
  | ok packets =>
    right
    have fits : ¬ (s.link.packetSize.toNat ≤ packetOverhead ∨
        256 * (s.link.packetSize.toNat - packetOverhead) < message.length) := by
      intro long
      obtain ⟨e, failed⟩ := not_split_iff.2 long
      cases cut.symm.trans failed
    obtain ⟨wide, short⟩ := not_or.1 fits
    obtain ⟨frames, framed, encoded⟩ := frames_of_split cut
    have run : (sendFrames frames).run s = (((sendFrames frames).run s).1, ((sendFrames frames).run s).2) := rfl
    obtain ⟨acked, failed, disciplined⟩ := sendFrames_disciplined rfl run
    refine ⟨⟨Nat.lt_of_not_le wide, Nat.le_of_not_lt short⟩, packets, frames, acked, failed, rfl, encoded, ?_⟩
    rw [sendMessage_run framed]
    exact disciplined

/-- A link to a meter that refuses one packet, sends one of its own, acknowledges one and is heard no more. -/
def fallingSilent : Linked where
  channel :=
    { line :=
        { isClosed := false
          answers := [[nakByte], [0xEE, 0x00, 0x00, 0x00, 0x00, 0x01, 0x00, 0x11, 0x31], [ackByte]].map
            fun bytes _ => [(Duration.ofMillis 10, .arrival (.data bytes))] }
      connected := true }
  link := .ofParameters (.ofConfig { packetSize := 32 })

/-- The first of two packets gets through when it is sent again, and the other one is given up when all retries are
used up. -/
theorem sendMessage_disciplined_fallingSilent : ∃ x y : Round,
    fallingSilent.frames (List.replicate 25 0) = .ok [x.frame, y.frame] ∧
    Disciplined fallingSilent.link.parameters [x.frame, y.frame] fallingSilent (.error (.readTimeout 0))
      ((sendMessage (List.replicate 25 0)).run fallingSilent).2 [x] (some y) ∧
    y.earlier.length = 3 ∧
    ((sendMessage (List.replicate 25 0)).run fallingSilent).2.channel.line.written =
      x.frame ++ x.frame ++ [ackByte] ++ y.frame ++ y.frame ++ y.frame ++ y.frame := by
  have framed : fallingSilent.frames (List.replicate 25 0) =
      .ok [0xEE :: 0x00 :: 0xC0 :: 0x01 :: 0x00 :: 0x18 :: (List.replicate 24 0 ++ [0x62, 0x21]),
        [0xEE, 0x00, 0xA0, 0x00, 0x00, 0x01, 0x00, 0xD5, 0xDB]] := by
    -- bit by bit, as the table of the checksum would be computed anew for every byte
    have bitwise : Packet.encode = fun p =>
        if p.data.length > 0xFFFF then .error (.numberOutOfRange .packetDataLength p.data.length 0 0xFFFF)
        else .ok (p.body ++ Bytes.littleEndian 2 (Crc.bitwise p.body).toNat) := by
      funext p
      rw [Packet.encode, Crc.ofBytes_eq]
    unfold frames Packet.encodings
    rw [bitwise]
    decide +kernel
  have ran := sendMessage_run framed
  have result : ((sendMessage (List.replicate 25 0)).run fallingSilent).1 = .error (.readTimeout 0) := by
    rw [ran]
    decide +kernel
  have due : ((sendMessage (List.replicate 25 0)).run fallingSilent).2.link.nextToggle = true := by
    rw [ran]
    decide +kernel
  have early : ((sendMessage (List.replicate 25 0)).run fallingSilent).2.channel.deadlineHit = false := by
    rw [ran]
    decide +kernel
  obtain ⟨long, -⟩ | ⟨-, packets, frames, acked, failed, cut, encoded, disciplined⟩ :=
    sendMessage_disciplined (List.replicate 25 0) fallingSilent
  · exact absurd long (by decide)
  obtain rfl := Except.ok.inj ((Step.except_bind_ok.2 ⟨packets, cut, encoded⟩).symm.trans framed)
  rw [result] at disciplined
  obtain ⟨y, rfl, givenUp⟩ := (disciplined.failure _).1 rfl
  -- the toggle bit was turned, so one packet is acknowledged, and the other one is the one that failed
  obtain ⟨x, rfl⟩ : ∃ x, acked = [x] := by
    have few := disciplined.ordered.length_le
    have turned := disciplined.toggle
    rw [due] at turned
    match acked with
    | [] => cases turned
    | [x] => exact ⟨x, rfl⟩
    | _ :: _ :: _ => simp at few
  have both : [x.frame, y.frame] = _ := disciplined.ordered.eq_of_length rfl
  have last : ((sendMessage (List.replicate 25 0)).run fallingSilent).2.channel = y.last.after.channel := by
    have path := disciplined.path
    simp only [Option.toList_some, List.singleton_append, List.flatMap_cons, List.flatMap_nil, List.append_nil,
      Round.tries, ← List.append_assoc] at path
    exact path.channel_of_last
  refine ⟨x, y, both ▸ framed, both ▸ disciplined, ?_, ?_⟩
  · rcases givenUp.reason with barred | late | full
    · cases barred
    · rw [← last, early] at late
      cases late
    · exact full
  · obtain ⟨first, second⟩ : x.frame = _ ∧ y.frame = _ := by simpa using both
    rw [ran, first, second]
    decide +kernel

end Linked

end Metering
