import Metering.Proofs.Turns

set_option autoImplicit false

/-! # Links that nobody answers

On a channel on which nothing comes (`Channel.Lonely`) a link waits in vain. How long it does, and how often it asks
again, is decided by its parameters alone (`Linked.receiveMessage_lonely`, `Linked.sendMessage_slow`). -/

namespace Metering

/-- A delay that is longer than the time left is given up at the deadline. -/
theorem Line.passTime_short {l : Line} {delay timeout : Duration} (hc : l.cancels = []) (short : timeout < delay) :
    (passTime delay (some (l.now + timeout))).run l = (.ok false, { l with now := l.now + timeout }) := by
  have late : ¬ (delay = 0 ∨ l.now + delay ≤ l.now + timeout) := by
    rintro (none | soon)
    · exact Nat.not_lt_zero _ (none ▸ short)
    · exact Nat.not_le_of_lt short (Nat.le_of_add_le_add_left soon)
  unfold passTime
  rw [Step.run_get_bind]
  dsimp only
  rw [if_neg late]
  by_cases ahead : l.now < l.now + timeout
  · rw [if_pos ahead, advanceTo_of_cancels hc, Nat.max_eq_right (Nat.le_of_lt ahead)]
    rfl
  · have none : timeout = 0 := Nat.eq_zero_of_not_pos fun some => ahead (Nat.lt_add_of_pos_right some)
    rw [if_neg ahead, none]
    rfl

namespace Channel

/-! ## Lonely channels -/

/-- A channel on which nothing comes and nothing is answered. It takes bytes, each time after `delay`. -/
structure Lonely (delay : Duration) (c : Channel) : Prop extends Undisturbed c where
  ring : c.input.toList = []
  arrivals : c.line.arrivals = []
  answers : c.line.answers = []
  writes : c.line.writes = []
  flushes : c.line.flushes = []
  writeDelay : c.line.writeDelay = delay
  flushDelay : c.line.flushDelay = 0
  echoes : c.line.echoes = false
  autoEcho : c.line.autoEcho = false
  deadlineHit : c.deadlineHit = false

/-- Time passed on a lonely channel, and bytes were sent. -/
structure Alone (delay : Duration) (c c' : Channel) (time : Duration) (bytes : Nat) : Prop where
  lonely : c'.Lonely delay
  now : c'.now = c.now + time
  sent : c'.statistics.sent = c.statistics.sent + bytes

variable {c c' c'' : Channel} {delay time time' timeout : Duration} {bytes bytes' : Nat}

theorem Alone.trans (h : Alone delay c c' time bytes) (h' : Alone delay c' c'' time' bytes') :
    Alone delay c c'' (time + time') (bytes + bytes') where
  lonely := h'.lonely
  now := by rw [h'.now, h.now, Nat.add_assoc]
  sent := by rw [h'.sent, h.sent, Nat.add_assoc]

/-- What makes a channel lonely, but for its ring. -/
def surroundings (c : Channel) :=
  (c.connected, c.deadline, c.deadlineHit, c.line.cancels, c.line.handle, c.line.arrivals, c.line.answers,
    c.line.writes, c.line.flushes, c.line.writeDelay, c.line.flushDelay, c.line.echoes, c.line.autoEcho)

namespace Lonely

theorem of_same (h : c.Lonely delay) (same : c'.surroundings = c.surroundings) (ring : c'.input.toList = []) :
    c'.Lonely delay := by
  simp only [surroundings, Prod.mk.injEq] at same
  obtain ⟨connected, deadline, deadlineHit, cancels, handle, arrivals, answers, writes, flushes, writeDelay, flushDelay,
    echoes, autoEcho⟩ := same
  have items : ∀ a ∈ c'.line.arrivals, a.2 ≠ .data [] := by
    rw [arrivals]
    exact h.items
  exact {
    connected := connected.trans h.connected
    cancels := cancels.trans h.cancels
    cancelled := by rw [handle, h.cancelled]
    items
    deadline := deadline.trans h.deadline
    ring
    arrivals := arrivals.trans h.arrivals
    answers := answers.trans h.answers
    writes := writes.trans h.writes
    flushes := flushes.trans h.flushes
    writeDelay := writeDelay.trans h.writeDelay
    flushDelay := flushDelay.trans h.flushDelay
    echoes := echoes.trans h.echoes
    autoEcho := autoEcho.trans h.autoEcho
    deadlineHit := deadlineHit.trans h.deadlineHit }

theorem waiting (h : c.Lonely delay) : c.line.waiting = 0 := by
  rw [Line.waiting, h.arrivals]
  rfl

theorem capped (h : c.Lonely delay) (deadline : Moment) : c.capped deadline = (deadline, false) := by
  rw [Channel.capped, h.deadline]

/-! ### Waiting -/

/-- A wait for the line takes as long as it may. -/
theorem fill (h : c.Lonely delay) (time : Duration) :
    ∃ c', (fill (c.now + time)).run c = (.ok .elapsed, c') ∧ Alone delay c c' time 0 := by
  have late : ∀ a ∈ c.line.arrivals.head?, max c.line.now (c.now + time) < a.1 := by
    rw [h.arrivals]
    nofun
  have read := Line.read_late h.cancels h.cancelled late (!c.window.isActive) readChunk
  unfold Channel.fill
  rw [Step.run_get_bind, h.capped]
  dsimp only
  rw [Step.run_bind_of_ok (orDrop_ok read)]
  exact ⟨_, rfl, h.of_same rfl h.ring, Nat.max_eq_right (Nat.le_add_right _ _), rfl⟩

theorem sleep (h : c.Lonely delay) (time : Duration) :
    ∃ c', (sleep time).run c = (.ok (), c') ∧ Alone delay c c' time 0 := by
  unfold Channel.sleep
  rw [Step.run_get_bind, h.capped]
  dsimp only
  rw [Line.pause_run h.cancels h.cancelled]
  exact ⟨_, rfl, h.of_same rfl h.ring, Nat.max_eq_right (Nat.le_add_right _ _), rfl⟩

/-- A read that ran out of time is counted. -/
theorem failTimeout_alone (α : Type) (alone : Alone delay c c' time bytes) (n : Nat) :
    ∃ c'', (failTimeout n : Step Channel α).run c' = (.error (.readTimeout n), c'') ∧ Alone delay c c'' time bytes :=
  ⟨_, rfl, alone.lonely.of_same rfl alone.lonely.ring, alone.now, alone.sent⟩

/-- Loops that wait for the line come to their end in the first round. -/
theorem rounds_error {α β : Type} {round : α → Step Channel (α ⊕ β)} {a : α} {e : Fault}
    (h : (round a).run c = (.error e, c')) : (rounds round a).run c = (.error e, c') := by
  unfold rounds
  rw [Step.run_get_bind]
  exact Step.run_bind_of_error h

/-- No start byte comes. -/
theorem readStart (h : c.Lonely delay) (wanted : Bytes) (timeout : Duration) :
    ∃ n c', (readStart wanted timeout).run c = (.error (.readTimeout n), c') ∧ Alone delay c c' timeout 0 := by
  have none : (c.input.discardUntil wanted).2.toList = [] := by
    rw [Ring.toList_discardUntil, h.ring]
    rfl
  have dropped : Lonely delay { c with input := (c.input.discardUntil wanted).2 } := h.of_same rfl none
  obtain ⟨t, filled, alone⟩ := dropped.fill timeout
  have round := startRound_run wanted (c.now + timeout) 0 c
  rw [none] at round
  generalize 0 + (c.input.discardUntil wanted).1.1 = garbage at round
  obtain ⟨c', failed, alone⟩ := failTimeout_alone (Nat ⊕ UInt8) alone garbage
  have waited : (waitStart wanted timeout).run c = (.error (.readTimeout garbage), c') := by
    unfold waitStart
    rw [Step.run_bind_of_ok (ensureConnected_run h.connected), Step.run_get_bind]
    exact rounds_error (round.trans ((Step.run_bind_of_ok filled).trans failed))
  exact ⟨garbage, c', Step.run_bind_of_error waited, alone.lonely, alone.now, alone.sent⟩

/-- No further bytes come. -/
theorem readExact (h : c.Lonely delay) (count : Nat) (some : 0 < count) (timeout : Duration) :
    ∃ n c', (readExact count timeout).run c = (.error (.readTimeout n), c') ∧ Alone delay c c' timeout 0 := by
  have empty : c.input.length = 0 := by rw [← Ring.length_toList, h.ring]; rfl
  obtain ⟨t, filled, alone⟩ := h.fill timeout
  obtain ⟨t', failed, alone⟩ := failTimeout_alone (Moment ⊕ Unit) alone t.input.length
  have round : (fillRound count (.each timeout) (c.now + timeout)).run c =
      (.error (.readTimeout t.input.length), t') := by
    unfold fillRound
    rw [Step.run_get_bind, if_neg (by omega), Step.run_bind_of_ok filled]
    dsimp only
    rw [Step.run_get_bind, failed]
  have waited : (fillTo count (.each timeout)).run c = (.error (.readTimeout t.input.length), t') := by
    unfold fillTo
    rw [Step.run_get_bind]
    exact rounds_error round
  refine ⟨t.input.length, { t' with input := t'.input.clear }, ?_, alone.lonely.of_same rfl (Ring.toList_clear _),
    alone.now, alone.sent⟩
  unfold Channel.readExact readExactly
  rw [Step.run_bind_of_ok (ensureConnected_run h.connected), Step.run_outcome_bind, waited]
  rfl

/-! ### Writing -/

/-- A byte that the channel takes at once is sent. -/
theorem write (h : c.Lonely 0) (byte : UInt8) (timeout : Duration) :
    ∃ c', (write [byte] timeout).run c = (.ok 1, c') ∧ Alone 0 c c' 0 1 := by
  have takes : c.Takes timeout := by
    refine ⟨?_, ?_, ?_, h.echoes, h.autoEcho⟩
    · rw [h.writes]
      rfl
    · rw [h.flushes]
      exact .inl rfl
    · rw [h.writeDelay, h.flushDelay]
      exact Nat.zero_le _
  refine ⟨c.wrote byte, write_run h.toUnhindered takes byte, ?_⟩
  have delivered : (c.line.holding byte).flushed.deliver = (c.line.holding byte).flushed.post := by
    have pending : ¬ (c.line.pending ++ [byte]).isEmpty = true := by simp
    unfold Line.deliver Line.planEcho
    show (if (c.line.pending ++ [byte]).isEmpty then _ else (if c.line.autoEcho then _ else _ : Line).post.planAnswer) = _
    rw [if_neg pending, h.autoEcho, if_neg Bool.false_ne_true]
    exact (Line.planAnswer_prospect _).2 h.answers
  rw [wrote, delivered]
  refine ⟨h.of_same ?_ h.ring, ?_, rfl⟩
  · simp only [surroundings, Line.post, Line.note, Line.flushed, Line.holding, h.writes, h.flushes, Line.nextOutcome]
  · show c.line.now + c.line.writeDelay + c.line.flushDelay = c.line.now + 0
    rw [h.writeDelay, h.flushDelay]

/-- Bytes that the channel takes too slowly are not sent. -/
theorem write_slow (h : c.Lonely delay) {bytes : Bytes} (some : bytes ≠ []) (slow : timeout < delay) :
    ∃ c', (Channel.write bytes timeout).run c = (.error (.writeTimeout 0), c') ∧ Alone delay c c' timeout 0 := by
  have checked : checkCancelled.run c = (.ok (), c) := by
    unfold checkCancelled
    rw [Step.run_get_bind, h.cancelled, Bool.and_false]
    rfl
  have slow : timeout < c.line.writeDelay := h.writeDelay ▸ slow
  obtain ⟨pending, wrote⟩ : ∃ pending, (Line.write (.some (c.now + timeout)) bytes).run c.line =
      (.ok none, { c.line with writes := [], pending, now := c.line.now + timeout }) := by
    unfold Line.write
    rw [Step.run_get_bind, h.writes]
    dsimp only [Line.nextOutcome]
    rw [Step.run_set_bind, Step.run_modify_bind]
    refine ⟨_, (Step.run_bind_of_ok (Line.passTime_short ?_ slow)).trans rfl⟩
    exact h.cancels
  generalize line : { c.line with writes := [], pending, now := c.line.now + timeout } = stuck at wrote
  have transmitted : (transmit bytes timeout).run { c with window := c.window.enter } =
      (.error (.writeTimeout 0), { c with line := stuck, window := c.window.enter }) := by
    have round : (writeRound (c.now + timeout) (bytes, 0)).run { c with window := c.window.enter } =
        (.error (.writeTimeout 0), { c with line := stuck, window := c.window.enter }) := by
      unfold writeRound
      dsimp only
      rw [if_neg (by simpa using some),
        Step.run_bind_of_ok (orDrop_ok (c := { c with window := c.window.enter }) wrote)]
      rfl
    unfold transmit
    rw [Step.run_get_bind]
    exact Step.run_bind_of_error (Step.run_bind_of_error round)
  subst line
  refine ⟨{ c with
    line := { c.line with writes := [], pending, now := c.line.now + timeout }
    window := c.window.enter.leave }, ?_, h.of_same ?_ h.ring, rfl, rfl⟩
  · unfold Channel.write inWindow
    rw [Step.run_bind_of_ok (ensureConnected_run h.connected), Step.run_bind_of_ok checked, Step.run_modify_bind,
      Step.run_outcome_bind, transmitted, Step.run_modify_bind, Step.run_ofExcept]
  · simp only [surroundings, h.writes]

end Lonely

end Channel

namespace Linked

open Channel (Alone Lonely)

variable {c c' : Channel} {l : Link} {delay time : Duration}

theorem parameters_run (s : Linked) : parameters.run s = (.ok s.link.parameters, s) := rfl

theorem turnAround_lonely (h : c.Lonely delay) :
    ∃ c', turnAround.run ⟨c, l⟩ = (.ok (), ⟨c', l⟩) ∧ Alone delay c c' l.parameters.turnaround 0 := by
  obtain ⟨c', slept, alone⟩ := h.sleep l.parameters.turnaround
  refine ⟨c', ?_, alone⟩
  rw [turnAround, Step.run_bind_of_ok (parameters_run ⟨c, l⟩)]
  exact onChannel_run (s := ⟨c, l⟩) slept

/-! ## Receiving -/

theorem receivePacket_lonely (h : c.Lonely delay) :
    ∃ n c', (receivePacket false).run ⟨c, l⟩ = (.error (.readTimeout n), ⟨c', l⟩) ∧
      Alone delay c c' l.parameters.acknowledgement 0 := by
  obtain ⟨n, c', read, alone⟩ := h.readStart [startByte] l.parameters.acknowledgement
  refine ⟨n, c', ?_, alone⟩
  unfold receivePacket
  rw [Step.run_bind_of_ok (parameters_run ⟨c, l⟩)]
  exact Step.run_bind_of_error (onChannel_run (s := ⟨c, l⟩) read)

/-- A packet that does not come is asked for. -/
theorem refuse_lonely (h : c.Lonely 0) :
    ∃ c', refuse.run ⟨c, l⟩ = (.ok (), ⟨c', l⟩) ∧ Alone 0 c c' l.parameters.turnaround 1 := by
  obtain ⟨t, turned, before⟩ := turnAround_lonely (l := l) h
  obtain ⟨c', wrote, after⟩ := before.lonely.write nakByte l.parameters.acknowledgement
  refine ⟨c', ?_, by simpa using before.trans after⟩
  unfold refuse
  rw [Step.run_bind_of_ok turned, Step.run_get_bind, if_pos before.lonely.connected, writeControl,
    Step.run_bind_of_ok (parameters_run ⟨t, l⟩)]
  exact Step.run_bind_of_ok (onChannel_run (s := ⟨t, l⟩) wrote)

/-- A try that ran out of time asks for the packet, and goes on if a try is left. -/
theorem tryPacket_lonely (again : Option (Bool → Step Linked Accepted)) {n : Nat}
    (read : (receivePacket false).run ⟨c, l⟩ = (.error (.readTimeout n), ⟨c', l⟩)) (alone : Alone 0 c c' time 0) :
    ∃ c'', Alone 0 c c'' (time + l.parameters.turnaround) 1 ∧
      (tryPacket {} false again).run ⟨c, l⟩ = (match again with
        | none => throw (lastFault {} (.readTimeout n))
        | some next => next false : Step Linked Accepted).run ⟨c'', l⟩ := by
  obtain ⟨c'', refused, after⟩ := refuse_lonely (l := l) alone.lonely
  refine ⟨c'', by simpa using alone.trans after, ?_⟩
  unfold tryPacket
  rw [Step.run_outcome_bind, read]
  dsimp only
  rw [Step.run_get_bind, alone.lonely.deadlineHit, if_neg Bool.false_ne_true, if_neg Bool.false_ne_true,
    if_neg (by simp), if_neg (by simp [Fault.allowsPacketAgain])]
  exact Step.run_bind_of_ok refused

/-- Every try takes its time and asks for the packet once. -/
theorem awaitPacket_lonely (h : c.Lonely 0) (retries : Nat) :
    ∃ e c', (awaitPacket {} retries false).run ⟨c, l⟩ = (.error e, ⟨c', l⟩) ∧
      Alone 0 c c' ((retries + 1) * (l.parameters.acknowledgement + l.parameters.turnaround)) (retries + 1) := by
  induction retries generalizing c with
  | zero =>
    obtain ⟨n, t, read, alone⟩ := receivePacket_lonely (l := l) h
    obtain ⟨c', alone, tried⟩ := tryPacket_lonely none read alone
    exact ⟨_, c', tried, by simpa using alone⟩
  | succ retries ih =>
    obtain ⟨n, t, read, alone⟩ := receivePacket_lonely (l := l) h
    obtain ⟨u, first, tried⟩ := tryPacket_lonely (some (awaitPacket {} retries)) read alone
    obtain ⟨e, c', rest, alone⟩ := ih first.lonely
    refine ⟨e, c', tried.trans rest, ?_⟩
    have whole := first.trans alone
    rwa [Nat.add_comm _ ((retries + 1) * _), ← Nat.succ_mul, Nat.add_comm 1] at whole

/-- A message of which no packet comes fails as the first try does. -/
theorem receiveMessage_error {e : Fault} {s s' : Linked} (none : s.channel.line.answers = [])
    (h : (awaitPacket {} s.link.parameters.retries.toNat false).run s = (.error e, s')) :
    receiveMessage.run s = (.error e, s') := by
  have round : (receiveRound {}).run s = (.error e, s') := by
    unfold receiveRound
    rw [Step.run_bind_of_ok (parameters_run s)]
    exact Step.run_bind_of_error h
  have left : s.answersLeft = 0 := by rw [answersLeft, none]; rfl
  unfold receiveMessage
  rw [Step.run_get_bind, left, Step.repeatWhileFed, Step.run_get_bind, Step.repeatUntilFewer]
  exact Step.run_bind_of_error round

theorem receiveMessage_lonely (h : c.Lonely 0) :
    ∃ e c', receiveMessage.run ⟨c, l⟩ = (.error e, ⟨c', l⟩) ∧
      Alone 0 c c' ((l.parameters.retries.toNat + 1) * (l.parameters.acknowledgement + l.parameters.turnaround))
        (l.parameters.retries.toNat + 1) := by
  obtain ⟨e, c', awaited, alone⟩ := awaitPacket_lonely (l := l) h l.parameters.retries.toNat
  exact ⟨e, c', receiveMessage_error h.answers awaited, alone⟩

/-! ### After a start byte -/

/-- The rest of a packet does not come. -/
theorem receivePacket_begun (h : c.Lonely delay) {ring : Ring} (begun : ring.toList = [startByte]) :
    ∃ n c', (receivePacket false).run ⟨{ c with input := ring }, l⟩ = (.error (.readTimeout n), ⟨c', l⟩) ∧
      Alone delay c c' l.parameters.intercharacter 0 := by
  have found : (ring.discardUntil [startByte]).2.toList = [startByte] := by
    rw [Ring.toList_discardUntil, begun]
    rfl
  have waited : (Channel.waitStart [startByte] l.parameters.acknowledgement).run { c with input := ring } =
      (.ok startByte, { c with input := (ring.discardUntil [startByte]).2 }) := by
    have round := Channel.startRound_run [startByte] (c.now + l.parameters.acknowledgement) 0 { c with input := ring }
    rw [found] at round
    unfold Channel.waitStart Channel.rounds
    rw [Step.run_bind_of_ok (Channel.ensureConnected_run (c := { c with input := ring }) h.connected),
      Step.run_get_bind, Step.run_get_bind, Step.repeatUpTo]
    exact (Step.run_bind_of_ok round).trans rfl
  generalize ht : (ring.discardUntil [startByte]).2.discard 1 = t
  have empty : t.toList = [] := by
    rw [← ht, Ring.toList_discard, found]
    rfl
  have started : (Channel.readStart [startByte] l.parameters.acknowledgement).run { c with input := ring } =
      (.ok startByte, { c with input := t }) := by
    rw [← ht]
    exact (Step.run_bind_of_ok waited).trans rfl
  have lonely : Lonely delay { c with input := t } := h.of_same rfl empty
  obtain ⟨n, c', read, alone⟩ := lonely.readExact (packetHeaderLength - 1) (by decide) l.parameters.intercharacter
  refine ⟨n, c', ?_, alone.lonely, alone.now, alone.sent⟩
  unfold receivePacket
  rw [Step.run_bind_of_ok (parameters_run _),
    Step.run_bind_of_ok (onChannel_run (s := ⟨{ c with input := ring }, l⟩) started)]
  exact Step.run_bind_of_error (onChannel_run (s := ⟨{ c with input := t }, l⟩) read)

theorem receiveMessage_begun (h : c.Lonely 0) {ring : Ring} (begun : ring.toList = [startByte]) :
    ∃ e c', receiveMessage.run ⟨{ c with input := ring }, l⟩ = (.error e, ⟨c', l⟩) ∧
      Alone 0 c c' (l.parameters.intercharacter + l.parameters.turnaround +
        l.parameters.retries.toNat * (l.parameters.acknowledgement + l.parameters.turnaround))
        (l.parameters.retries.toNat + 1) := by
  obtain ⟨n, t, read, alone⟩ := receivePacket_begun (l := l) h begun
  have first : Alone 0 { c with input := ring } t l.parameters.intercharacter 0 :=
    ⟨alone.lonely, alone.now, alone.sent⟩
  cases retries : l.parameters.retries.toNat with
  | zero =>
    obtain ⟨c', tried, run⟩ := tryPacket_lonely none read first
    refine ⟨lastFault {} (.readTimeout n), c', receiveMessage_error h.answers ?_, tried.lonely, ?_, tried.sent⟩
    · rw [retries]
      exact run
    · rw [Nat.zero_mul]
      exact tried.now
  | succ more =>
    obtain ⟨u, tried, run⟩ := tryPacket_lonely (some (awaitPacket {} more)) read first
    obtain ⟨e, c', rest, alone⟩ := awaitPacket_lonely (l := l) tried.lonely more
    have whole := tried.trans alone
    refine ⟨e, c', receiveMessage_error h.answers ?_, whole.lonely, whole.now, ?_⟩
    · rw [retries]
      exact run.trans rest
    · rw [Nat.add_comm (more + 1)]
      exact whole.sent

/-! ## Sending -/

/-- Every transmission that the channel takes too slowly takes its time. -/
theorem sendRepeatedly_slow {p : LinkParameters} (slow : p.traffic < delay) {bytes : Bytes} (some : bytes ≠ [])
    (retries : Nat) {s : Linked} (same : s.link.parameters = p) (h : s.channel.Lonely delay) :
    ∃ e s', (sendRepeatedly bytes retries).run s = (.error e, s') ∧
      Alone delay s.channel s'.channel ((retries + 1) * (p.turnaround + p.traffic)) 0 := by
  have once {s : Linked} (same : s.link.parameters = p) (h : s.channel.Lonely delay) :
      ∃ c', (sendPacket bytes).run s = (.error (.writeTimeout 0), ⟨c', s.link⟩) ∧
        Alone delay s.channel c' (p.turnaround + p.traffic) 0 := by
    obtain ⟨t, turned, before⟩ := turnAround_lonely (l := s.link) h
    obtain ⟨c', wrote, after⟩ := before.lonely.write_slow some slow
    refine ⟨c', ?_, by simpa [same] using before.trans after⟩
    unfold sendPacket
    rw [Step.run_bind_of_ok (parameters_run s), Step.run_bind_of_ok turned, same]
    exact Step.run_bind_of_error (onChannel_run (s := ⟨t, s.link⟩) wrote)
  induction retries generalizing s with
  | zero =>
    obtain ⟨c', sent, alone⟩ := once same h
    exact ⟨_, _, sent, by simpa using alone⟩
  | succ retries ih =>
    obtain ⟨t, sent, first⟩ := once same h
    let counted : Link :=
      { s.link with statistics.retransmissions := s.link.statistics.retransmissions + 1 }
    obtain ⟨e, s', rest, later⟩ := ih (s := ⟨t, counted⟩) same first.lonely
    refine ⟨e, s', ?_, ?_⟩
    · have again : (mayResend (.writeTimeout 0)).run ⟨t, s.link⟩ = (.ok true, ⟨t, s.link⟩) := by
        unfold mayResend
        rw [Step.run_get_bind, first.lonely.deadlineHit]
        rfl
      unfold sendRepeatedly
      rw [Step.run_outcome_bind, sent]
      dsimp only
      rw [Step.run_bind_of_ok again, if_pos rfl]
      exact rest
    · have whole := first.trans later
      rwa [Nat.add_comm _ ((retries + 1) * _), ← Nat.succ_mul] at whole

/-- A message without bytes is one packet. -/
theorem sendMessage_slow (room : packetOverhead < l.packetSize.toNat) (slow : l.parameters.traffic < delay)
    (h : c.Lonely delay) :
    ∃ e s', (sendMessage []).run ⟨c, l⟩ = (.error e, s') ∧
      Alone delay c s'.channel
        ((l.parameters.retries.toNat + 1) * (l.parameters.turnaround + l.parameters.traffic)) 0 := by
  obtain ⟨packet, rest, split, short⟩ : ∃ packet rest, Packet.split l.parameters.identity l.parameters.dataFormat []
      l.packetSize.toNat = .ok (packet :: rest) ∧ packet.data = [] := by
    unfold Packet.split
    rw [if_neg (Nat.not_le_of_lt room)]
    exact ⟨_, _, rfl, rfl⟩
  obtain ⟨bytes, encoded, some⟩ : ∃ bytes,
      ({ packet with control := packet.control.withToggle l.nextToggle } : Packet).encode = .ok bytes ∧ bytes ≠ [] := by
    unfold Packet.encode
    rw [if_neg (by simp [short])]
    exact ⟨_, rfl, by simp [Packet.body]⟩
  obtain ⟨e, s', sent, alone⟩ := sendRepeatedly_slow slow some l.parameters.retries.toNat (s := ⟨c, l⟩) rfl h
  refine ⟨e, s', ?_, alone⟩
  unfold sendMessage
  rw [Step.run_get_bind]
  dsimp only
  rw [split]
  rw [Step.run_bind_of_ok (Step.run_ofExcept _ _), sendPackets, Step.run_get_bind]
  dsimp only
  rw [encoded]
  exact (Step.run_bind_of_ok (Step.run_ofExcept _ _)).trans (Step.run_bind_of_error sent)

end Linked

end Metering
