import Metering.Link.Request
import Metering.Proofs.Alarms

set_option autoImplicit false

/-! # Alarms on a packet link

What a link does passes an alarm of its channel on, with one exception. While a response is received of which a
packet came twice or out of its place, a fault of the next read is taken for the loss of the response, whatever
it is (`Linked.Reports`). The link counts such packets, so a request heeds the watch, or its count has grown
(`Linked.request_tells`). -/

namespace Metering

open Step (Moves Watch)

theorem Fault.Alarms.not_again {e : Fault} (h : e.Alarms) : e.allowsPacketAgain = false := by
  obtain (rfl | rfl) | ⟨cause, rfl⟩ := h <;> rfl

namespace LinkStatistics

/-- The number of packets that came twice or out of their place. -/
def disorder (n : LinkStatistics) : Nat := n.duplicates + n.sequenceErrors

end LinkStatistics

namespace Linked

variable {α β : Type}

/-- The number of packets that came twice or out of their place. -/
def disorder (s : Linked) : Nat := s.link.statistics.disorder

/-- The watch of the channel, while packets that come in disorder are counted. -/
def watch (w : Watch Channel) : Watch Linked where
  calm s t := w.calm s.channel t.channel ∧ s.disorder ≤ t.disorder
  alarm s e t := w.alarm s.channel e t.channel ∧ s.disorder ≤ t.disorder
  refl _ := ⟨w.refl _, Nat.le_refl _⟩
  trans h h' := ⟨w.trans h.1 h'.1, Nat.le_trans h.2 h'.2⟩
  before h h' := ⟨w.before h.1 h'.1, Nat.le_trans h.2 h'.2⟩

/-- The watch as long as no packet comes in disorder. -/
def lenient (w : Watch Channel) : Watch Linked where
  calm s t := s.disorder ≤ t.disorder ∧ (w.calm s.channel t.channel ∨ s.disorder < t.disorder)
  alarm s e t := s.disorder ≤ t.disorder ∧ (w.alarm s.channel e t.channel ∨ s.disorder < t.disorder)
  refl _ := ⟨Nat.le_refl _, .inl (w.refl _)⟩
  trans := fun ⟨le, h⟩ ⟨le', h'⟩ => ⟨Nat.le_trans le le', h.elim
    (fun calm => h'.imp (w.trans calm) (Nat.lt_of_le_of_lt le)) fun more => .inr (Nat.lt_of_lt_of_le more le')⟩
  before := fun ⟨le, h⟩ ⟨le', h'⟩ => ⟨Nat.le_trans le le', h.elim
    (fun calm => h'.imp (w.before calm) (Nat.lt_of_le_of_lt le)) fun more => .inr (Nat.lt_of_lt_of_le more le')⟩

theorem disorder_le_of_tells {w : Watch Channel} {s t : Linked} {r : Except Fault α} (h : (watch w).Tells s r t) :
    s.disorder ≤ t.disorder := h.elim And.right fun ⟨_, _, alarm⟩ => alarm.2

theorem lenient_of_watch {w : Watch Channel} {s t : Linked} {r : Except Fault α} (h : (watch w).Tells s r t) :
    (lenient w).Tells s r t :=
  h.mono (fun calm => ⟨calm.2, .inl calm.1⟩) fun _ alarm => ⟨alarm.2, .inl alarm.1⟩

theorem onChannel_heeds {w : Watch Channel} {x : Step Channel α} (h : w.Heeds x) : (watch w).Heeds (onChannel x) :=
  .within h (fun _ _ calm => ⟨calm, Nat.le_refl _⟩) fun _ _ _ alarm => ⟨alarm, Nat.le_refl _⟩

section Watched

variable {w : Watch Channel} (h : Channel.Watched w)

include h

/-- What changes the link alone is calm as long as the count does not shrink. -/
theorem calm_of_link {s t : Linked} (channel : t.channel = s.channel) (disorder : s.disorder ≤ t.disorder) :
    (watch w).calm s t := ⟨h.kept (by rw [channel]) (by rw [channel]), disorder⟩

theorem count_heeds {f : LinkStatistics → LinkStatistics} (hf : ∀ n, n.disorder ≤ (f n).disorder) :
    (watch w).Heeds (count f) := .modify fun s => calm_of_link h rfl (hf s.link.statistics)

theorem changeLink_heeds {f : Link → Link} (hf : ∀ l, (f l).statistics = l.statistics) :
    (watch w).Heeds (changeLink f) :=
  .modify fun s => calm_of_link h rfl (Nat.le_of_eq (congrArg LinkStatistics.disorder (hf s.link)).symm)

/-! ## Sending -/

omit h in
theorem parameters_heeds (w : Watch Linked) : w.Heeds parameters := .bind .get fun _ => .pure _

theorem writeControl_heeds (byte : UInt8) : (watch w).Heeds (writeControl byte) :=
  .bind (parameters_heeds _) fun _ => .bind (onChannel_heeds (Channel.write_heeds h _ _)) fun _ => .pure _

theorem sleep_heeds (d : Duration) : (watch w).Heeds (onChannel (Channel.sleep d)) :=
  onChannel_heeds (Channel.sleep_heeds h d).of_only

theorem turnAround_heeds : (watch w).Heeds turnAround := .bind (parameters_heeds _) fun _ => sleep_heeds h _

theorem readExact_heeds (n : Nat) (timeout : Duration) :
    (watch (w.only Fault.Interrupts)).Heeds (onChannel (Channel.readExact n timeout)) :=
  onChannel_heeds (Channel.readExactly_heeds h _ _)

theorem readStart_heeds (wanted : Bytes) (timeout : Duration) :
    (watch w).Heeds (onChannel (Channel.readStart wanted timeout)) :=
  onChannel_heeds (Channel.readStart_heeds h _ _).of_only

/-- A packet that cannot be read is dropped, but an alarm is passed on: it is one of a read. -/
theorem skipStray_heeds : (watch w).Heeds skipStray := by
  have stray : (watch (w.only Fault.Interrupts)).Heeds readStray :=
    .bind (parameters_heeds _) fun _ => .bind (readExact_heeds h _ _) fun _ => .bind .get fun _ =>
      .ite (.bind (readExact_heeds h _ _) fun _ => .pure _) (.pure _)
  intro s
  unfold skipStray
  rw [Step.run_outcome_bind]
  rcases stray s with calm | ⟨e, failed, ⟨alarm, interrupts⟩, le⟩
  · refine .after calm ?_
    split
    · exact (Watch.Heeds.throw _) _
    · exact (Watch.Heeds.throw _) _
    · exact (Watch.Heeds.pure _) _
  · rw [failed]
    obtain rfl | rfl := interrupts
    · exact .error (.inr ⟨alarm, le⟩)
    · exact .error (.inr ⟨alarm, le⟩)

theorem acknowledged_heeds : (watch w).Heeds acknowledged := by
  refine .bind (parameters_heeds _) fun _ => .bind (readStart_heeds h _ _) fun byte => .ite (.pure _) (.ite ?_ (.pure _))
  exact .bind (onChannel_heeds (Channel.clearInput_heeds h)) fun _ => .throw_bind _ _

theorem awaitAcknowledgement_heeds (strays : Nat) : (watch w).Heeds (awaitAcknowledgement strays) := by
  induction strays with
  | zero => exact .bind (acknowledged_heeds h) fun _ => .ite (.throw _) (.pure _)
  | succ strays ih =>
    exact .bind (acknowledged_heeds h) fun _ => .ite (.bind (skipStray_heeds h) fun _ =>
      .bind (turnAround_heeds h) fun _ => .bind (writeControl_heeds h _) fun _ => ih) (.pure _)

theorem sendPacket_heeds (bytes : Bytes) : (watch w).Heeds (sendPacket bytes) :=
  .bind (parameters_heeds _) fun _ => .bind (turnAround_heeds h) fun _ =>
    .bind (onChannel_heeds (Channel.write_heeds h _ _)) fun _ =>
      .bind (count_heeds h fun _ => Nat.le_refl _) fun _ => awaitAcknowledgement_heeds h _

/-- After an alarm the packet is not sent again. -/
theorem sendRepeatedly_heeds (bytes : Bytes) (retries : Nat) : (watch w).Heeds (sendRepeatedly bytes retries) := by
  induction retries with
  | zero => exact sendPacket_heeds h bytes
  | succ retries ih =>
    have may (e : Fault) : (watch w).Heeds (mayResend e) := .bind .get fun _ => .pure _
    refine .outcome_bind (sendPacket_heeds h bytes) (fun r => ?_) fun s e t alarm => ?_
    · cases r with
      | ok u => exact .pure _
      | error e => exact .bind (may e) fun _ => .ite (.bind (count_heeds h fun _ => Nat.le_refl _) fun _ => ih) (.throw _)
    · dsimp only
      unfold mayResend
      rw [(h.alarms alarm.1).not_again]
      exact .error (.inr alarm)

theorem sendPackets_heeds (packets : List Packet) : (watch w).Heeds (sendPackets packets) := by
  induction packets with
  | nil => exact .pure _
  | cons packet rest ih =>
    exact .bind .get fun _ => .bind (.ofExcept _) fun _ => .bind (sendRepeatedly_heeds h _ _) fun _ =>
      .bind (changeLink_heeds h fun _ => rfl) fun _ => ih

theorem sendMessage_heeds (message : Bytes) : (watch w).Heeds (sendMessage message) :=
  .bind .get fun _ => .bind (.ofExcept _) fun _ => sendPackets_heeds h _

/-! ## Reading packets -/

theorem refuseLength_heeds (length : Nat) : (watch w).Heeds (refuseLength length) :=
  .bind (count_heeds h fun _ => Nat.le_refl _) fun _ => .bind (parameters_heeds _) fun _ => .bind (sleep_heeds h _) fun _ =>
    .bind (onChannel_heeds (Channel.clearInput_heeds h)) fun _ => .throw _

theorem receivePacket_heeds (acceptDamaged : Bool) : (watch w).Heeds (receivePacket acceptDamaged) := by
  have read (n : Nat) (timeout : Duration) : (watch w).Heeds (onChannel (Channel.readExact n timeout)) :=
    onChannel_heeds (Channel.readExactly_heeds h _ _).of_only
  refine .bind (parameters_heeds _) fun p => .bind (readStart_heeds h _ _) fun _ => ?_
  refine .bind (read _ _) fun header => .bind .get fun s => ?_
  have rest : (watch w).Heeds (do
      let rest ← onChannel (Channel.readExact (announcedLength header + 2) p.intercharacter)
      let data := rest.take (announcedLength header)
      let crc := UInt16.ofNat (Bytes.ofLittleEndian (rest.drop (announcedLength header)))
      if crc ≠ Crc.ofBytes ([startByte] ++ header ++ data) ∧ !acceptDamaged then
        count fun s => { s with checksumErrors := s.checksumErrors + 1 }
        throw (.frameInvalid .checksum)
      turnAround
      return (({ identity := header.getD 0 0, control := ⟨header.getD 1 0⟩,
                 sequence := header.getD 2 0, data } : Packet), crc)) :=
    .bind (read _ _) fun rest => .ite (.bind (count_heeds h fun _ => Nat.le_refl _) fun _ => .throw_bind _ _)
      (.bind (turnAround_heeds h) fun _ => .pure _)
  exact .ite (.bind (refuseLength_heeds h _) fun _ => rest) rest

theorem refuse_heeds : (watch w).Heeds refuse :=
  .bind (turnAround_heeds h) fun _ => .bind .get fun _ => .ite (writeControl_heeds h _) (.pure _)

end Watched

/-! ## Responses in disorder -/

/-- What receiving comes to. Some values tell of disorder: that of an earlier packet, or the count has grown. One
of these, `blank`, may also stand for an alarm that was passed over. -/
structure Reports (w : Watch Channel) (blank : β) (tells : β → Prop) (earlier : Prop) (s : Linked) (r : Except Fault β)
    (t : Linked) : Prop where
  heeds : (watch w).Tells s r t ∨ r = .ok blank ∧ ∃ e, (watch w).alarm s e t
  disordered : ∀ b, r = .ok b → tells b → earlier ∨ s.disorder < t.disorder

namespace Reports

variable {w : Watch Channel} {blank : β} {tells : β → Prop} {earlier : Prop} {s t u : Linked} {r : Except Fault β}

theorem disorder_le (h : Reports w blank tells earlier s r t) : s.disorder ≤ t.disorder :=
  h.heeds.elim disorder_le_of_tells fun ⟨_, _, alarm⟩ => alarm.2

theorem of_error {e : Fault} (h : (watch w).Tells (α := β) s (.error e) t) :
    Reports w blank tells earlier s (.error e) t :=
  ⟨.inl h, fun _ hr => nomatch hr⟩

theorem throw (e : Fault) : Reports w blank tells earlier s (.error e) s := of_error ((Watch.Heeds.throw e) s)

/-- A value may be given that tells of disorder known before. -/
theorem value {b : β} (h : tells b → earlier) : Reports w blank tells earlier s (.ok b) s where
  heeds := .inl ((Watch.Heeds.pure b) s)
  disordered b' hb tells := by obtain rfl := Except.ok.inj hb; exact .inl (h tells)

/-- What was calm may come before. -/
theorem after (calm : (watch w).calm s t) (h : Reports w blank tells earlier t r u) :
    Reports w blank tells earlier s r u where
  heeds := h.heeds.imp (.after calm) fun ⟨hr, e, alarm⟩ => ⟨hr, e, (watch w).before calm alarm⟩
  disordered b hr hb := (h.disordered b hr hb).imp_right fun more => Nat.lt_of_le_of_lt calm.2 more

/-- Behind disorder that was counted, that of an earlier packet is known. -/
theorem after_more (calm : (watch w).calm s t) (more : s.disorder < t.disorder)
    (h : Reports w blank tells True t r u) : Reports w blank tells earlier s r u where
  heeds := (h.after calm).heeds
  disordered _ _ _ := .inr (Nat.lt_of_lt_of_le more h.disorder_le)

theorem mono {earlier' : Prop} (imp : earlier' → earlier) (h : Reports w blank tells earlier' s r t) :
    Reports w blank tells earlier s r t :=
  ⟨h.heeds, fun b hr hb => (h.disordered b hr hb).imp_left imp⟩

/-- What stands behind a calm step knows the disorder before that step and within it. -/
theorem bind {x : Step Linked α} {f : α → Step Linked β} (hx : (watch w).Heeds x)
    (hf : ∀ a t, x.run s = (.ok a, t) →
      Reports w blank tells (earlier ∨ s.disorder < t.disorder) t ((f a).run t).1 ((f a).run t).2) :
    Reports w blank tells earlier s ((x >>= f).run s).1 ((x >>= f).run s).2 := by
  have first := hx s
  rw [Step.run_bind]
  rcases hr : x.run s with ⟨r, t⟩
  rw [hr] at first
  cases r with
  | error e => exact .of_error (.error first.of_error)
  | ok a =>
    have second := hf a t hr
    refine ⟨(second.after first.calm_of_ok).heeds, fun b hb tells => ?_⟩
    rcases second.disordered b hb tells with (early | more) | more
    · exact .inl early
    · exact .inr (Nat.lt_of_lt_of_le more second.disorder_le)
    · exact .inr (Nat.lt_of_le_of_lt first.calm_of_ok.2 more)

/-- An alarm that was passed over is passed over at once by what stands behind. -/
theorem pass {x : Step Linked α} {f : α → Step Linked β} {blank' : α} {tells' : α → Prop}
    (hx : Reports w blank' tells' earlier s (x.run s).1 (x.run s).2) (told : tells' blank')
    (passed : ∀ t, (f blank').run t = (.ok blank, t))
    (hf : ∀ a t, Reports w blank tells (tells' a) t ((f a).run t).1 ((f a).run t).2) :
    Reports w blank tells earlier s ((x >>= f).run s).1 ((x >>= f).run s).2 := by
  rw [Step.run_bind]
  rcases hr : x.run s with ⟨r, t⟩
  rw [hr] at hx
  obtain ⟨calm | ⟨hb, e, alarm⟩, disordered⟩ := hx
  · cases r with
    | error e => exact .of_error (.error calm.of_error)
    | ok a =>
      have second := hf a t
      refine ⟨(second.after calm.calm_of_ok).heeds, fun b hb tells => ?_⟩
      rcases second.disordered b hb tells with told' | more
      · exact (disordered a rfl told').imp_right fun more => Nat.lt_of_lt_of_le more second.disorder_le
      · exact .inr (Nat.lt_of_le_of_lt calm.calm_of_ok.2 more)
  · obtain rfl : r = .ok blank' := hb
    dsimp only
    rw [passed t]
    exact ⟨.inr ⟨rfl, e, alarm⟩, fun _ _ _ => disordered blank' rfl told⟩

end Reports

/-- What is received tells of disorder: nothing at all, or a packet of a spoiled response. -/
def tellsDisorder : Accepted → Prop
  | none => True
  | some (_, _, a) => a.spoiled = true

section Watched

variable {w : Watch Channel} (h : Channel.Watched w)

include h

/-- Disorder is counted before anything else can happen. -/
theorem Reports.count {blank : β} {tells : β → Prop} {earlier : Prop} {s : Linked} {f : LinkStatistics → LinkStatistics}
    (more : ∀ n, n.disorder < (f n).disorder) {g : Unit → Step Linked β}
    (hg : ∀ t, Reports w blank tells True t ((g ()).run t).1 ((g ()).run t).2) :
    Reports w blank tells earlier s ((count f >>= g).run s).1 ((count f >>= g).run s).2 :=
  let t : Linked := { s with link.statistics := f s.link.statistics }
  have grown : s.disorder < t.disorder := more s.link.statistics
  .after_more (t := t) (calm_of_link h rfl (Nat.le_of_lt grown)) grown (hg t)

theorem tryPacket_reports (a : Assembly) (lost : Bool) {again : Option (Bool → Step Linked Accepted)}
    (hagain : ∀ next ∈ again, ∀ lost s,
      Reports w none tellsDisorder (lost = true ∨ a.spoiled = true) s ((next lost).run s).1 ((next lost).run s).2)
    (s : Linked) :
    Reports w none tellsDisorder (lost = true ∨ a.spoiled = true) s ((tryPacket a lost again).run s).1
      ((tryPacket a lost again).run s).2 := by
  have read := receivePacket_heeds h a.spoiled s
  unfold tryPacket
  rw [Step.run_outcome_bind]
  rcases hr : (receivePacket a.spoiled).run s with ⟨r, t⟩
  rw [hr] at read
  cases r with
  | ok received =>
    obtain ⟨packet, crc⟩ := received
    refine .after read.calm_of_ok ?_
    dsimp only
    split
    next spoiled => exact .value fun _ => .inr spoiled
    next sound =>
    rw [Step.run_get_bind]
    split
    · exact .value fun tells => absurd tells sound
    · refine .count h (fun n => by simp only [LinkStatistics.disorder]; omega) fun t => ?_
      refine .bind (writeControl_heeds h _) fun _ t _ => ?_
      cases again with
      | none => exact .throw _
      | some next => exact .mono (fun _ => .inl trivial) (hagain next rfl _ t)
    · refine .bind (changeLink_heeds h fun _ => rfl) fun _ t _ => ?_
      exact .count h (fun n => by simp only [LinkStatistics.disorder]; omega) fun t => .value fun _ => trivial
  | error e =>
    dsimp only
    rw [Step.run_get_bind]
    rcases read.of_error with calm | alarm
    · refine .after calm ?_
      split
      · exact .throw e
      split
      next lost => exact .bind (changeLink_heeds h fun _ => rfl) fun _ t _ => .value fun _ => .inl (.inl lost)
      split
      next last => exact .value fun _ => .inr (Bool.and_eq_true_iff.1 last).2
      split
      · exact .throw e
      refine .bind (refuse_heeds h) fun _ t _ => ?_
      cases again with
      | none => exact .throw _
      | some next => exact .mono .inl (hagain next rfl lost t)
    · -- an alarm is passed on or passed over, and no packet is tried again
      rw [(h.alarms alarm.1).not_again]
      split
      · exact .of_error (.error (.inr alarm))
      split
      next lost =>
        have flipped : (watch w).alarm s e { t with link.nextToggle := !t.link.nextToggle } :=
          ⟨h.passed alarm.1 rfl rfl, alarm.2⟩
        exact ⟨.inr ⟨rfl, e, flipped⟩, fun _ _ _ => .inl (.inl lost)⟩
      split
      next last => exact ⟨.inr ⟨rfl, e, alarm⟩, fun _ _ _ => .inl (.inr (Bool.and_eq_true_iff.1 last).2)⟩
      · exact .of_error (.error (.inr alarm))

theorem awaitPacket_reports (a : Assembly) (retries : Nat) (lost : Bool) (s : Linked) :
    Reports w none tellsDisorder (lost = true ∨ a.spoiled = true) s ((awaitPacket a retries lost).run s).1
      ((awaitPacket a retries lost).run s).2 := by
  induction retries generalizing lost s with
  | zero => exact tryPacket_reports h a lost (fun _ again => by cases again) s
  | succ retries ih =>
    refine tryPacket_reports h a lost (fun next again lost s => ?_) s
    obtain rfl := Option.some.inj again
    exact ih lost s

/-! ## Receiving -/

/-- What comes of a round tells of disorder: the request has to be repeated, or the response is spoiled so far. -/
def roundTellsDisorder : Assembly ⊕ Received → Prop
  | .inl a => a.spoiled = true
  | .inr r => r = .repeatRequest

theorem place_heeds (a : Assembly) (p : Packet) (crc : UInt16) : (watch w).Heeds (place a p crc) := by
  refine .ite (.pure _) (.ite ?_ (.bind (changeLink_heeds h fun _ => rfl) fun _ => .pure _))
  exact .bind (changeLink_heeds h fun _ => rfl) fun _ =>
    .bind (count_heeds h fun n => by simp only [LinkStatistics.disorder]; omega) fun _ => .pure _

omit h in
/-- A packet out of its place is counted before it spoils the response. -/
theorem spoiled_of_place {a a' : Assembly} {p : Packet} {crc : UInt16} {s t : Linked}
    (run : (place a p crc).run s = (.ok a', t)) (spoiled : a'.spoiled = true) :
    a.spoiled = true ∨ s.disorder < t.disorder := by
  unfold place at run
  split at run
  next before => exact .inl before
  split at run
  · obtain ⟨-, rfl⟩ := Prod.mk.inj run
    exact .inr (Nat.lt_succ_self _)
  · obtain ⟨ha, -⟩ := Prod.mk.inj run
    obtain rfl := Except.ok.inj ha
    exact .inl spoiled

theorem receiveRound_reports (a : Assembly) (s : Linked) :
    Reports w (.inr .repeatRequest) roundTellsDisorder (a.spoiled = true) s ((receiveRound a).run s).1
      ((receiveRound a).run s).2 := by
  refine .bind (parameters_heeds _) fun p t _ => ?_
  have awaited := awaitPacket_reports h a p.retries.toNat false t
  refine .pass (awaited.mono fun early => .inl (early.resolve_left nofun)) trivial (fun _ => rfl) fun r u => ?_
  match r with
  | none => exact .value fun _ => trivial
  | some (packet, crc, a') =>
    refine .bind (count_heeds h fun _ => Nat.le_refl _) fun _ u _ => ?_
    refine .bind (changeLink_heeds h fun _ => rfl) fun _ u _ => ?_
    refine .bind (writeControl_heeds h _) fun _ u _ => ?_
    refine .bind (place_heeds h _ _ _) fun a'' v placed => ?_
    have known : a''.spoiled = true → a'.spoiled = true ∨ u.disorder < v.disorder := spoiled_of_place placed
    split
    · refine .value fun told => (known ?_).imp_left fun early => .inl (.inl (.inl early))
      cases hs : a''.spoiled with
      | true => rfl
      | false =>
        rw [hs] at told
        cases told
    · exact .value fun spoiled => (known spoiled).imp_left fun early => .inl (.inl (.inl early))

theorem receiveMessage_reports (s : Linked) :
    Reports w .repeatRequest (· = .repeatRequest) False s (receiveMessage.run s).1 (receiveMessage.run s).2 := by
  unfold receiveMessage
  rw [Step.run_get_bind]
  -- the invariant of the rounds: all was calm so far, and a spoiled response was counted
  let I (a : Assembly) (t : Linked) : Prop := (watch w).calm s t ∧ (a.spoiled = true → s.disorder < t.disorder)
  let E : Except Fault Received → Linked → Prop := Reports w .repeatRequest (· = .repeatRequest) False s
  have start : I {} s := ⟨(watch w).refl s, fun spoiled => by cases spoiled⟩
  refine Step.repeatWhileFed_leads (I := I) (E := E) (fun a t ⟨calm, counted⟩ => ?_)
    (fun _ t ⟨calm, _⟩ => .after calm (.throw _)) _ start
  have round := receiveRound_reports h a t
  rcases hr : (receiveRound a).run t with ⟨r, u⟩
  rw [hr] at round
  have more (tells : a.spoiled = true ∨ t.disorder < u.disorder) : s.disorder < u.disorder :=
    tells.elim (fun spoiled => Nat.lt_of_lt_of_le (counted spoiled) round.disorder_le) (Nat.lt_of_le_of_lt calm.2)
  match r with
  | .error e =>
    have failed : (watch w).Tells t (.error e) u := round.heeds.resolve_right nofun
    exact .after calm (.of_error (.error failed.of_error))
  | .ok (.inl a') =>
    have calm' : (watch w).calm t u := (round.heeds.resolve_right nofun).calm_of_ok
    exact ⟨(watch w).trans calm calm', fun spoiled => more (round.disordered _ rfl spoiled)⟩
  | .ok (.inr b) =>
    refine ⟨?_, fun b' hb told => .inr (more (round.disordered _ rfl ?_))⟩
    · rcases round.heeds with told | ⟨hb, e, alarm⟩
      · exact .inl (.inl ((watch w).trans calm told.calm_of_ok))
      · obtain rfl : b = .repeatRequest := Sum.inr.inj (Except.ok.inj hb)
        exact .inr ⟨rfl, e, (watch w).before calm alarm⟩
    · obtain rfl := Except.ok.inj hb
      exact told

/-! ## Requests -/

theorem exchange_reports (message : Bytes) (s : Linked) :
    Reports w .repeatRequest (· = .repeatRequest) False s ((exchange message).run s).1 ((exchange message).run s).2 :=
  .bind (sendMessage_heeds h message) fun _ t _ => .mono False.elim (receiveMessage_reports h t)

theorem prepareRepeat_heeds : (watch w).Heeds prepareRepeat :=
  .bind (changeLink_heeds h fun _ => rfl) fun _ => .bind (parameters_heeds _) fun _ => sleep_heeds h _

/-- If what is done where the request has to be repeated heeds the lenient watch, so does the whole. -/
theorem again_heeds (message : Bytes) {again : Step Linked Bytes} (hagain : (lenient w).Heeds again) :
    (lenient w).Heeds (exchange message >>= fun
      | .message response => pure response
      | .repeatRequest => again) := by
  intro s
  have exchanged := exchange_reports h message s
  rw [Step.run_bind]
  rcases hr : (exchange message).run s with ⟨r, t⟩
  rw [hr] at exchanged
  match r with
  | .error e =>
    have failed : (watch w).Tells s (.error e) t := exchanged.heeds.resolve_right nofun
    exact lenient_of_watch (.error failed.of_error)
  | .ok (.message response) => exact lenient_of_watch (.inl (exchanged.heeds.resolve_right nofun).calm_of_ok)
  | .ok .repeatRequest =>
    have calm : (lenient w).calm s t := by
      rcases exchanged.heeds with calm | -
      · exact ⟨calm.calm_of_ok.2, .inl calm.calm_of_ok.1⟩
      · -- an alarm was passed over, and the response was in disorder
        exact ⟨exchanged.disorder_le, .inr ((exchanged.disordered _ rfl rfl).resolve_left id)⟩
    exact .after calm (hagain t)

/-- **A request heeds the watch**, unless packets of a response came twice or out of their place. -/
theorem request_heeds (message : Bytes) : (lenient w).Heeds (request message) := by
  refine .bind (parameters_heeds _) fun p => ?_
  induction p.retries.toNat with
  | zero => exact again_heeds h message (.throw _)
  | succ retries ih => exact again_heeds h message (.bind (fun t => lenient_of_watch (prepareRepeat_heeds h t)) fun _ => ih)

end Watched

end Linked

end Metering
