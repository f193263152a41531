import Metering.Proofs.Frames
import Metering.Proofs.Reassembly

set_option autoImplicit false

/-! # Requests that are repeated

A request is repeated for one of two reasons. Its response was lost: the last accepted packet came once more
and was acknowledged, and then nothing could be read (`Linked.Lost`); the toggle bit that is due is turned
back. Or what came did not fit, and the response was spoiled; the toggle bit is left as it is.

A toggle bit that is turned back once makes up for an odd number of packets, so a request is repeated
unchanged after a lost response exactly if it has an odd number of them (`Linked.frames_of_repeats`). And a
repetition forgets the last accepted packet. Until then that packet is not taken for a response
(`Linked.fresh_of_request`), but afterwards it is (`Linked.request_staleTwice`). -/

namespace Metering

namespace Linked

open Step (Moves Same)

variable {s s' t u v w : Linked} {message : Bytes}

/-! ## Lost responses -/

/-- The last accepted packet, which was alone, came once more and was acknowledged. -/
def HearsAgain (s s' : Linked) : Prop :=
  ∃ t p crc, (receivePacket false).run s = (.ok (p, crc), t) ∧
    t.link.lastReceived = some (p.control.toggle, crc) ∧ p.control.isMulti = false ∧
    (writeControl ackByte).run (repeated t) = (.ok (), s')

/-- No packet could be read, and the toggle bit that is due was turned back. -/
def GivesUp (s s' : Linked) : Prop :=
  ∃ t e, (receivePacket false).run s = (.error e, t) ∧ s' = { t with link.nextToggle := !t.link.nextToggle }

/-- The response is lost: after tries that passed, the last accepted packet came once more, and then
nothing could be read. -/
def Lost (s s' : Linked) : Prop := ∃ t u, Passes s t ∧ HearsAgain t u ∧ GivesUp u s'

/-- The toggle bit that is due is the same. -/
abbrev Due : Linked → Linked → Prop := Same fun s => s.link.nextToggle

theorem HearsAgain.pass (h : HearsAgain s t) : Pass s t := by
  obtain ⟨u, p, crc, tried, known, -, acknowledged⟩ := h
  exact .again tried known acknowledged

theorem Pass.due (h : Pass s t) : Due s t := by
  have w := listens_nextToggle.toWorks
  cases h with
  | refused tried refused => exact trans_of Due ((w.receivePacket _).of_run tried) (w.refuse.of_run refused)
  | again tried known acknowledged =>
    have answered := (w.writeControl _).of_run acknowledged
    exact trans_of Due ((w.receivePacket _).of_run tried) answered

theorem Passes.due (h : Passes s t) : Due s t := by
  induction h with
  | refl => exact refl_of Due s
  | tail _ pass ih => exact trans_of Due ih pass.due

theorem GivesUp.due (h : GivesUp s t) : t.link.nextToggle = !s.link.nextToggle := by
  obtain ⟨u, e, tried, rfl⟩ := h
  exact congrArg (!·) ((listens_nextToggle.receivePacket _).of_run tried)

theorem Lost.due (h : Lost s t) : t.link.nextToggle = !s.link.nextToggle := by
  obtain ⟨u, v, passes, again, silent⟩ := h
  rw [silent.due]
  exact congrArg (!·) (trans_of Due passes.due again.pass.due)

theorem Delivers.due {fs : List Framed} (h : Delivers s fs t) : Due s t := by
  have w := listens_nextToggle
  induction h with
  | none => exact refl_of Due s
  | more _ last ih =>
    obtain ⟨t1, u1, v, total, passes, tried, -, sent, -, rfl⟩ := last
    have read := trans_of Due passes.due ((w.receivePacket _).of_run tried)
    have answered := (w.writeControl _).of_run sent
    exact trans_of Due ih (trans_of Due read answered)

/-- A try leaves the toggle bit that is due, unless it ends the wait or goes on after a repeat. -/
theorem tryPacket_due {a : Assembly} {lost : Bool} {again : Option (Bool → Step Linked Accepted)} {r : Accepted}
    (sound : lost = true → a.spoiled = false) (h : (tryPacket a lost again).run s = (.ok r, s')) :
    Due s s' ∨ (r = none ∧ lost = true ∧ GivesUp s s') ∨
      ∃ next lost' t, again = some next ∧ (next lost').run t = (.ok r, s') ∧ Due s t ∧
        (lost' = true → a.spoiled = false ∧ HearsAgain s t) ∧ (a.spoiled = false → Pass s t) := by
  have w := listens_nextToggle
  cases tryPacket_tried h with
  | anyway _ read | new _ read => exact .inl ((w.receivePacket _).of_run read)
  | ended failed => exact .inl ((w.receivePacket _).of_run failed)
  | misplaced read noted =>
    have kept : Moves Due (do
        changeLink Link.forget
        count fun n => { n with sequenceErrors := n.sequenceErrors + 1 } : Step Linked Unit) :=
      .bind w.forget fun _ => w.count _
    exact .inl (trans_of Due ((w.receivePacket _).of_run read) (kept.of_run noted))
  | lost isLost failed =>
    rw [sound isLost] at failed
    exact .inr (.inl ⟨rfl, isLost, _, _, failed, rfl⟩)
  | duplicate spoiled read known acknowledged left rest =>
    have pass : Pass s _ := .again read known acknowledged
    refine .inr (.inr ⟨_, _, _, left, rest, pass.due, fun alone => ⟨spoiled, ?_⟩, fun _ => pass⟩)
    exact ⟨_, _, _, read, known, by simpa using alone, acknowledged⟩
  | refused notLost failed refused left rest =>
    have kept := trans_of Due ((w.receivePacket _).of_run failed) (w.refuse.of_run refused)
    exact .inr (.inr ⟨_, _, _, left, rest, kept, fun isLost => absurd (notLost.symm.trans isLost) Bool.false_ne_true,
      fun spoiled => .refused (spoiled ▸ failed) refused⟩)

/-- **A wait for a packet** leaves the toggle bit that is due, unless it finds that the response is lost. -/
theorem awaitPacket_due {a : Assembly} {retries : Nat} {lost : Bool} {r : Accepted}
    (sound : lost = true → a.spoiled = false) (h : (awaitPacket a retries lost).run s = (.ok r, s')) :
    Due s s' ∨ r = none ∧ a.spoiled = false ∧ (lost = true ∧ GivesUp s s' ∨ Lost s s') := by
  induction retries generalizing s lost with
  | zero =>
    rcases tryPacket_due sound h with kept | ⟨none, isLost, silent⟩ | ⟨next, _, _, again, -⟩
    · exact .inl kept
    · exact .inr ⟨none, sound isLost, .inl ⟨isLost, silent⟩⟩
    · cases again
  | succ retries ih =>
    rcases tryPacket_due sound h with kept | ⟨none, isLost, silent⟩ | ⟨next, lost', t, again, h, kept, heard, pass⟩
    · exact .inl kept
    · exact .inr ⟨none, sound isLost, .inl ⟨isLost, silent⟩⟩
    · obtain rfl := Option.some.inj again
      rcases ih (fun isLost => (heard isLost).1) h with later | ⟨none, spoiled, ⟨isLost, silent⟩ | ⟨x, y, passes, again, silent⟩⟩
      · exact .inl (trans_of Due kept later)
      · exact .inr ⟨none, spoiled, .inr ⟨s, t, .refl, (heard isLost).2, silent⟩⟩
      · exact .inr ⟨none, spoiled, .inr ⟨x, y, .head (pass spoiled) passes, again, silent⟩⟩

/-- From one state to the other packets were delivered, and then the response was lost. -/
def AnswerLost (w v : Linked) : Prop := ∃ fs t, Delivers w fs t ∧ Lost t v

theorem AnswerLost.due (h : AnswerLost w v) : v.link.nextToggle = !w.link.nextToggle := by
  obtain ⟨fs, t, delivered, lost⟩ := h
  rw [lost.due]
  exact congrArg (!·) delivered.due

/-- A round that has the request repeated left the toggle bit that is due, or found that the response is lost. -/
theorem receiveRound_due (w : Linked) :
    Step.Carries (fun a t => Due w t ∧ (a.spoiled = false → ∃ fs, Assembled w fs a t))
      (fun r t => r = .repeatRequest → Due w t ∨ AnswerLost w t) receiveRound := by
  rintro a t r t' ⟨due, before⟩ h
  have l := listens_nextToggle
  have assembled := receiveRound_carries w a t r t' before h
  obtain ⟨_, _, found, h⟩ := Step.run_bind_ok.1 h
  obtain rfl := (Prod.mk.inj found).2
  obtain ⟨result, u, awaited, h⟩ := Step.run_bind_ok.1 h
  have waited := awaitPacket_due (fun never => absurd never Bool.false_ne_true) awaited
  cases result with
  | none =>
    obtain ⟨hr, rfl⟩ := Prod.mk.inj h
    obtain rfl := Except.ok.inj hr
    intro _
    rcases waited with kept | ⟨-, spoiled, ⟨never, -⟩ | lost⟩
    · exact .inl (trans_of Due due kept)
    · cases never
    · obtain ⟨fs, assembly⟩ := before spoiled
      exact .inr ⟨fs, t, assembly.delivered, lost⟩
  | some result =>
    have kept : Due t u := waited.resolve_right (fun stopped => nomatch stopped.1)
    obtain ⟨_, t1, counted, h⟩ := Step.run_bind_ok.1 h
    obtain ⟨_, t2, identified, h⟩ := Step.run_bind_ok.1 h
    have same : Due t1 t2 := congrArg (·.link.nextToggle) (Prod.mk.inj identified).2.symm
    obtain ⟨_, t3, acknowledged, h⟩ := Step.run_bind_ok.1 h
    obtain ⟨a2, t4, placed, h⟩ := Step.run_bind_ok.1 h
    have turned : Due w t4 :=
      calc t4.link.nextToggle
        _ = t3.link.nextToggle := (l.place _ _ _).of_run placed
        _ = t2.link.nextToggle := (l.writeControl _).of_run acknowledged
        _ = t1.link.nextToggle := same
        _ = u.link.nextToggle := (l.count _).of_run counted
        _ = t.link.nextToggle := kept
        _ = w.link.nextToggle := due
    split at h
    · obtain ⟨hr, rfl⟩ := Prod.mk.inj h
      obtain rfl := Except.ok.inj hr
      exact fun _ => .inl turned
    · obtain ⟨hr, rfl⟩ := Prod.mk.inj h
      obtain rfl := Except.ok.inj hr
      exact ⟨turned, assembled⟩

theorem receiveMessage_due (h : receiveMessage.run w = (.ok .repeatRequest, v)) : Due w v ∨ AnswerLost w v := by
  unfold receiveMessage at h
  rw [Step.run_get_bind] at h
  exact Step.repeatWhileFed_ok (receiveRound_due w) _ ⟨rfl, fun _ => ⟨[], .start w⟩⟩ h rfl

/-! ## Repetitions -/

/-- Why a request is repeated. -/
inductive Cause where
  | lost
  | spoiled
  deriving DecidableEq, Repr

/-- A request was sent and not answered, and its repetition was prepared. -/
inductive Repeats (message : Bytes) (s : Linked) : Cause → Linked → Prop where
  | lost {w v u : Linked} (sent : (sendMessage message).run s = (.ok (), w))
      (unanswered : receiveMessage.run w = (.ok .repeatRequest, v)) (lost : AnswerLost w v)
      (prepared : prepareRepeat.run v = (.ok (), u)) : Repeats message s .lost u
  | spoiled {w v u : Linked} (sent : (sendMessage message).run s = (.ok (), w))
      (unanswered : receiveMessage.run w = (.ok .repeatRequest, v)) (due : Due w v)
      (prepared : prepareRepeat.run v = (.ok (), u)) : Repeats message s .spoiled u

/-- A request was repeated, for whatever cause. -/
def Repeated (message : Bytes) (s u : Linked) : Prop := ∃ cause, Repeats message s cause u

theorem repeated_of_exchange (h : (exchange message).run s = (.ok .repeatRequest, v))
    (prepared : prepareRepeat.run v = (.ok (), u)) : Repeated message s u := by
  obtain ⟨_, w, sent, unanswered⟩ := Step.run_bind_ok.1 h
  rcases receiveMessage_due unanswered with due | lost
  · exact ⟨.spoiled, .spoiled sent unanswered due prepared⟩
  · exact ⟨.lost, .lost sent unanswered lost prepared⟩

/-- **Every repetition of a request** is one of these, and the last transmission is answered. -/
theorem requestRepeatedly_ok {retries : Nat} {m : Bytes}
    (h : (requestRepeatedly message retries).run s = (.ok m, s')) :
    ∃ u, Relation.ReflTransGen (Repeated message) s u ∧ (exchange message).run u = (.ok (.message m), s') := by
  induction retries generalizing s with
  | zero =>
    obtain ⟨r, t, exchanged, h⟩ := Step.run_bind_ok.1 h
    cases r with
    | message m' =>
      obtain ⟨hm, rfl⟩ := Prod.mk.inj h
      obtain rfl := Except.ok.inj hm
      exact ⟨s, .refl, exchanged⟩
    | repeatRequest => exact absurd h Step.run_throw_ne_ok
  | succ retries ih =>
    obtain ⟨r, t, exchanged, h⟩ := Step.run_bind_ok.1 h
    cases r with
    | message m' =>
      obtain ⟨hm, rfl⟩ := Prod.mk.inj h
      obtain rfl := Except.ok.inj hm
      exact ⟨s, .refl, exchanged⟩
    | repeatRequest =>
      obtain ⟨_, u, prepared, h⟩ := Step.run_bind_ok.1 h
      obtain ⟨u', repeated, answered⟩ := ih h
      exact ⟨u', .head (repeated_of_exchange exchanged prepared) repeated, answered⟩

/-! ## What a repetition sends -/

section Due

variable {cause : Cause}

theorem Repeats.terms (h : Repeats message s cause u) : u.terms = s.terms := by
  have c := converses_terms
  cases h with
  | lost sent unanswered _ prepared | spoiled sent unanswered _ prepared =>
    exact trans_of (Same Linked.terms) ((c.sendMessage _).of_run sent)
      (trans_of (Same Linked.terms) (c.receiveMessage.of_run unanswered) (c.prepareRepeat.of_run prepared))

/-- The toggle bit that is due for the repetition. -/
theorem Repeats.due {frames : List Bytes} (h : Repeats message s cause u) (framed : s.frames message = .ok frames) :
    u.link.nextToggle = (s.link.nextToggle ^^ decide (frames.length % 2 = 1) ^^ decide (cause = .lost)) := by
  have sentDue {w : Linked} (sent : (sendMessage message).run s = (.ok (), w)) :
      w.link.nextToggle = (s.link.nextToggle ^^ decide (frames.length % 2 = 1)) := by
    rw [sendMessage_run framed] at sent
    exact sendFrames_toggle sent
  cases h with
  | lost sent unanswered lost prepared =>
    have kept := listens_nextToggle.prepareRepeat.of_run prepared
    simp [kept, lost.due, sentDue sent]
  | spoiled sent unanswered due prepared =>
    have kept := listens_nextToggle.prepareRepeat.of_run prepared
    simp [kept, due, sentDue sent]

/-- **What a repetition sends.** A request and its repetition go out as frames. They are the same frames after
a lost response exactly if the request has an odd number of packets, and after a spoiled one exactly if it has
an even number. -/
theorem frames_of_repeats (h : Repeats message s cause u) :
    ∃ frames frames', s.frames message = .ok frames ∧ u.frames message = .ok frames' ∧
      (sendMessage message).run s = (sendFrames frames).run s ∧
      (sendMessage message).run u = (sendFrames frames').run u ∧
      (frames' = frames ↔ (frames.length % 2 = 1 ↔ cause = .lost)) := by
  obtain ⟨frames, framed⟩ : ∃ frames, s.frames message = .ok frames := by
    cases h with
    | lost sent | spoiled sent => exact frames_of_sent sent
  obtain ⟨frames', framed'⟩ : ∃ frames', u.frames message = .ok frames' := by
    obtain ⟨parameters, size, -⟩ := Prod.mk.inj h.terms |>.imp_right Prod.mk.inj
    obtain ⟨packets, split, -⟩ := Step.except_bind_ok.1 framed
    rw [← parameters, ← size] at split
    obtain ⟨frames', framed', -⟩ := frames_of_split split
    exact ⟨frames', framed'⟩
  refine ⟨frames, frames', framed, framed', sendMessage_run framed, sendMessage_run framed', ?_⟩
  rw [frames_eq_iff h.terms framed framed', h.due framed]
  by_cases odd : frames.length % 2 = 1 <;> by_cases lost : cause = .lost <;> simp [odd, lost]

/-- What a lost response is known by: the toggle bit was turned back. -/
theorem repeats_lost {packets : List Packet} (due : Bool)
    (split : Packet.split s.link.parameters.identity s.link.parameters.dataFormat message s.link.packetSize.toNat =
      .ok packets)
    (run : ((do
      let r ← exchange message
      prepareRepeat
      return (r, (← get).link.nextToggle) : Step Linked (Received × Bool)).run s).1 = .ok (.repeatRequest, due))
    (turned : due ≠ (s.link.nextToggle ^^ decide (packets.length % 2 = 1))) :
    ∃ u, Repeats message s .lost u ∧ u.link.nextToggle = due := by
  obtain ⟨r, v, exchanged, h⟩ := Step.run_bind_ok.1 (Step.run_eq_of_fst run)
  obtain ⟨_, u, prepared, h⟩ := Step.run_bind_ok.1 h
  rw [Step.run_get_bind] at h
  obtain ⟨rfl, rfl⟩ := Prod.mk.inj (Except.ok.inj (Prod.mk.inj h).1)
  obtain ⟨cause, repetition⟩ := repeated_of_exchange exchanged prepared
  cases cause with
  | lost => exact ⟨u, repetition, rfl⟩
  | spoiled =>
    obtain ⟨frames, framed, encoded⟩ := frames_of_split split
    have due := repetition.due framed
    rw [Packet.length_encodings encoded] at due
    simp only [reduceCtorEq, decide_false, Bool.xor_false] at due
    exact absurd due turned

end Due

/-- A link that has accepted a response, on a line where each message is answered with some bytes. -/
def afterResponse (packetSize : UInt16) (answers : List Bytes) : Linked where
  channel :=
    { line :=
        { isClosed := false
          answers := answers.map fun bytes _ => [(Duration.ofMillis 10, .arrival (.data bytes))] }
      connected := true }
  link :=
    { Link.ofParameters (.ofConfig { packetSize }) with
      nextToggle := true
      lastReceived := some (false, 0x3111) }

/-- The packet with that response. -/
def lastResponse : Bytes := [0xEE, 0x00, 0x00, 0x00, 0x00, 0x01, 0x00, 0x11, 0x31]

/-- A request of one packet is repeated unchanged after a lost response. -/
theorem frames_of_repeats_onePacket :
    ∃ u frames, Repeats [0x30, 0x00, 0x02] (afterResponse 64 [ackByte :: lastResponse, []]) .lost u ∧
      (afterResponse 64 [ackByte :: lastResponse, []]).frames [0x30, 0x00, 0x02] = .ok frames ∧
      u.frames [0x30, 0x00, 0x02] = .ok frames := by
  have split : Packet.split 0 0 [0x30, 0x00, 0x02] 64 = .ok [⟨0, ⟨0⟩, 0, [0x30, 0x00, 0x02]⟩] := rfl
  obtain ⟨u, repetition, -⟩ := repeats_lost (s := afterResponse 64 [ackByte :: lastResponse, []]) true
    split (by decide +kernel) (by decide)
  obtain ⟨frames, frames', framed, framed', -, -, same⟩ := frames_of_repeats repetition
  have single : frames.length = 1 := length_frames framed split
  obtain rfl := same.2 (by simp [single])
  exact ⟨u, frames', repetition, framed, framed'⟩

/-- **A request of two packets is repeated with other toggle bits** after a lost response. -/
theorem not_frames_of_repeats_twoPackets :
    ∃ u frames frames', Repeats (List.replicate 25 0) (afterResponse 32 [[ackByte], ackByte :: lastResponse, []]) .lost u ∧
      (afterResponse 32 [[ackByte], ackByte :: lastResponse, []]).frames (List.replicate 25 0) = .ok frames ∧
      u.frames (List.replicate 25 0) = .ok frames' ∧ frames' ≠ frames := by
  generalize hs : afterResponse 32 [[ackByte], ackByte :: lastResponse, []] = s
  have split : Packet.split 0 0 (List.replicate 25 0) 32 =
      .ok [⟨0, ⟨0xC0⟩, 1, List.replicate 24 0⟩, ⟨0, ⟨0x80⟩, 0, [0]⟩] := rfl
  obtain ⟨u, repetition, due⟩ := repeats_lost (s := s) false (by rw [← hs]; exact split)
    (by rw [← hs]; decide +kernel) (by rw [← hs]; decide)
  obtain ⟨frames, framed, -⟩ := frames_of_split (s := s) (by rw [← hs]; exact split)
  have split' : Packet.split u.link.parameters.identity u.link.parameters.dataFormat (List.replicate 25 0)
      u.link.packetSize.toNat = .ok [⟨0, ⟨0xC0⟩, 1, List.replicate 24 0⟩, ⟨0, ⟨0x80⟩, 0, [0]⟩] := by
    obtain ⟨parameters, size, -⟩ := Prod.mk.inj repetition.terms |>.imp_right Prod.mk.inj
    rw [parameters, size, ← hs]
    exact split
  obtain ⟨frames', framed', -⟩ := frames_of_split split'
  refine ⟨u, frames, frames', repetition, framed, framed', fun same => ?_⟩
  have turned := (frames_eq_iff repetition.terms framed framed').1 same
  rw [due, ← hs] at turned
  exact absurd turned (by decide)

/-! ## What a request takes for its response -/

/-- A message that a request returns was put together from packets that came after the last transmission. -/
theorem request_ok {m : Bytes} (h : (request message).run s = (.ok m, s')) :
    ∃ u v fs, Relation.ReflTransGen (Repeated message) s u ∧ (sendMessage message).run u = (.ok (), v) ∧
      Reassembled v m fs s' := by
  obtain ⟨_, _, found, h⟩ := Step.run_bind_ok.1 h
  obtain rfl := (Prod.mk.inj found).2
  obtain ⟨u, repetitions, answered⟩ := requestRepeatedly_ok h
  obtain ⟨_, v, sent, received⟩ := Step.run_bind_ok.1 answered
  unfold receiveMessage at received
  rw [Step.run_get_bind] at received
  obtain ⟨fs, reassembled⟩ :=
    Step.repeatWhileFed_ok (receiveRound_carries v) _ (fun _ => ⟨[], .start v⟩) received m rfl
  exact ⟨u, v, fs, repetitions, sent, reassembled⟩

/-- **A response to the first transmission of a request is fresh.** A message that a request returns was put
together from packets that came after the last transmission of the request. Only if the request was repeated,
the first of them may be the packet that was accepted last before the request. -/
theorem fresh_of_request {m : Bytes} (h : (request message).run s = (.ok m, s')) :
    ∃ u v fs, Relation.ReflTransGen (Repeated message) s u ∧ (sendMessage message).run u = (.ok (), v) ∧
      Reassembled v m fs s' ∧
      ∀ f rest, fs = f :: rest → s.link.lastReceived = some (f.toggle, f.checksum) →
        Relation.TransGen (Repeated message) s u := by
  obtain ⟨u, v, fs, repetitions, sent, reassembled⟩ := request_ok h
  refine ⟨u, v, fs, repetitions, sent, reassembled, ?_⟩
  intro f rest hfs stale
  rcases Relation.reflTransGen_iff_eq_or_transGen.1 repetitions with rfl | repeated
  · -- sending leaves the last accepted packet known, and the first packet has not its toggle bit
    have known : v.link.lastReceived = u.link.lastReceived := (sends_lastReceived.sendMessage _).of_run sent
    have toggles := reassembled.toggles
    rw [known, stale, hfs] at toggles
    simp at toggles
  · exact repeated

/-- The last response comes once more before the one that was asked for, and is passed over. -/
theorem fresh_of_request_lateRepeat :
    ∃ s', (request [0x30, 0x00, 0x02]).run (afterResponse 64 [ackByte :: lastResponse,
        [0xEE, 0x00, 0x20, 0x00, 0x00, 0x02, 0x00, 0x02, 0x57, 0xB8]]) = (.ok [0x00, 0x02], s') ∧
      ∃ u v fs, (sendMessage [0x30, 0x00, 0x02]).run u = (.ok (), v) ∧ Reassembled v [0x00, 0x02] fs s' := by
  have answered : ((request [0x30, 0x00, 0x02]).run (afterResponse 64 [ackByte :: lastResponse,
      [0xEE, 0x00, 0x20, 0x00, 0x00, 0x02, 0x00, 0x02, 0x57, 0xB8]])).1 = .ok [0x00, 0x02] := by
    decide +kernel
  obtain ⟨u, v, fs, -, sent, reassembled, -⟩ := fresh_of_request (Step.run_eq_of_fst answered)
  exact ⟨_, Step.run_eq_of_fst answered, u, v, fs, sent, reassembled⟩

/-- **The last response is returned once more** when it comes twice: the first time it is passed over, but
then the request is repeated, and the second time it is taken for the response. Nothing else was accepted. -/
theorem request_staleTwice :
    ∃ s', (request [0x30, 0x00, 0x02]).run
        (afterResponse 64 [ackByte :: lastResponse, [], ackByte :: lastResponse]) = (.ok [0x00], s') ∧
      s'.link.reports = [1] ∧
      ∃ u v f, (sendMessage [0x30, 0x00, 0x02]).run u = (.ok (), v) ∧ Reassembled v [0x00] [f] s' ∧
        (afterResponse 64 [ackByte :: lastResponse, [], ackByte :: lastResponse]).link.lastReceived =
          some (f.toggle, f.checksum) := by
  have run : ((do
      let m ← request [0x30, 0x00, 0x02]
      return (m, (← get).link.reports, (← get).link.lastReceived) :
        Step Linked (Bytes × List Nat × Option (Bool × UInt16))).run
      (afterResponse 64 [ackByte :: lastResponse, [], ackByte :: lastResponse])).1 =
        .ok ([0x00], [1], some (false, 0x3111)) := by
    decide +kernel
  obtain ⟨m, s', returned, h⟩ := Step.run_bind_ok.1 (Step.run_eq_of_fst run)
  obtain ⟨rfl, left⟩ := Prod.mk.inj (Except.ok.inj (Prod.mk.inj h).1)
  obtain ⟨reports, last⟩ := Prod.mk.inj left
  obtain ⟨u, v, fs, -, sent, reassembled⟩ := request_ok returned
  -- one byte comes from one packet
  obtain ⟨f, rfl⟩ : ∃ f, fs = [f] := by
    have message := congrArg List.length reassembled.message
    rcases fs with _ | ⟨f, _ | ⟨g, rest⟩⟩
    · simp at message
    · exact ⟨f, rfl⟩
    · have first := (reassembled.sizes f (by simp)).1
      have second := (reassembled.sizes g (by simp)).1
      simp only [List.flatMap_cons, List.length_append, List.length_cons, List.length_nil] at message
      omega
  exact ⟨s', returned, reports, u, v, f, sent, reassembled, last.symm.trans reassembled.last⟩

end Linked

end Metering
