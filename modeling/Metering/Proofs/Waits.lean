import Metering.Proofs.Exchange
import Metering.Proofs.Framing

set_option autoImplicit false

/-! # Waits for an answer

An exchange waits for its answer when its APDU was sent and, over datagrams, again whenever that was sent
again after a wait that missed (`Associated.Waits`). It is answered exactly when one of these waits is
(`Associated.attempt_iff`). What a wait accepts it consumed in one piece (`Associated.receive_ok`), and it
would have accepted the same if APDUs that answer other invocations had come before, in time
(`Associated.receive_run`): they are passed over one by one, and nothing is kept of them but the bytes that
were consumed and the time that passed. -/

namespace Metering

open Timed
open Step (Moves Same)

namespace Channel

/-- Something may have been consumed and sent. -/
def Follows (c c' : Channel) : Prop := ∃ consumed sent, Observed c c' consumed sent

instance : IsPreorder Channel Follows where
  refl _ := ⟨[], [], .of_eq rfl rfl⟩
  trans _ _ _ := fun ⟨x, w, h⟩ ⟨y, v, h'⟩ => ⟨x ++ y, w ++ v, h.trans h'⟩

theorem Reads.follows {c c' : Channel} (h : Reads c c') : Follows c c' := h.imp fun _ h => ⟨[], h⟩

/-- What was written went out whole. -/
theorem writeApdu_ok {apdu : Bytes} {turnaround timeout : Duration} {c c' : Channel}
    (h : (writeApdu apdu turnaround timeout).run c = (.ok (), c')) : ∃ echo, Observed c c' echo apdu := by
  have written {d : Channel} (h : (do let _ ← write apdu timeout : Step Channel Unit).run d = (.ok (), c')) :
      ∃ echo, Observed d c' echo apdu := by
    obtain ⟨n, d', wrote, h⟩ := Step.run_bind_ok.1 h
    obtain ⟨-, rfl⟩ := Prod.mk.inj h
    exact write_ok wrote
  unfold writeApdu at h
  split at h
  · obtain ⟨_, d, slept, h⟩ := Step.run_bind_ok.1 h
    obtain ⟨echo, observed⟩ := written h
    exact ⟨echo, ((sleep_quiet _).of_run slept).trans observed⟩
  · exact written h

/-- Between two states of a channel an APDU was read, which is the last that was consumed. -/
def EndsWith (c c' : Channel) (bytes : Bytes) : Prop :=
  ∃ d before sent timeout garbage, Observed c d before sent ∧ (readApdu timeout).run d = (.ok bytes, c') ∧
    Observed d c' (garbage ++ bytes) []

theorem EndsWith.after {c d c' : Channel} {bytes : Bytes} (h : EndsWith d c' bytes) (follows : Follows c d) :
    EndsWith c c' bytes := by
  obtain ⟨consumed, sent, before⟩ := follows
  obtain ⟨e, more, sent', timeout, garbage, observed, read, last⟩ := h
  exact ⟨e, _, _, timeout, garbage, before.trans observed, read, last⟩

end Channel

namespace Associated

variable {services : List Bytes} {apdu : Bytes} {retries : Nat} {s w t : Associated} {m : Acse.Incoming}

/-! ## The waits of an exchange -/

/-- In an exchange of some services that starts at a state, a wait begins; the APDU may be sent again so many
times. -/
inductive Waits (services : List Bytes) (s : Associated) : (retries : Nat) → (apdu : Bytes) → Associated → Prop where
  | first {apdu : Bytes} {t w : Associated} (packed : (pack services).run s = (.ok apdu, t))
      (sent : (send apdu).run t = (.ok (), w)) (awaited : w.association.parameters.response ≠ .never) :
      Waits services s (if w.channel.kind = .udp then w.association.linkRetries.toNat else 0) apdu w
  | again {retries : Nat} {apdu : Bytes} {w t w' : Associated} {e : Fault}
      (before : Waits services s (retries + 1) apdu w) (missed : Misses w t e)
      (sent : (send apdu).run t = (.ok (), w')) : Waits services s retries apdu w'

/-- What becomes of an exchange is what becomes of its wait. -/
theorem attempt_of_waits (h : Waits services s retries apdu w) :
    (attempt services).run s = (awaitAnswer apdu retries).run w := by
  induction h with
  | first packed sent awaited =>
    unfold attempt awaitReply
    rw [Step.run_bind_of_ok packed, Step.run_bind_of_ok sent, Step.run_get_bind, if_neg awaited]
  | again before missed sent ih =>
    rw [ih, awaitAnswer, awaitOnce_of_misses missed, Step.run_bind_of_ok sent]

theorem awaitAnswer_some {u : Associated} (wait : Waits services s retries apdu w)
    (h : (awaitAnswer apdu retries).run w = (.ok (some m), u)) :
    ∃ retries w, Waits services s retries apdu w ∧ receive.run w = (.ok m, u) := by
  induction retries generalizing w with
  | zero =>
    rcases awaitOnce_ok h with ⟨m', hm, same⟩ | ⟨-, none⟩ | ⟨next, none, -⟩
    · obtain rfl := Option.some.inj same
      exact ⟨0, w, wait, hm⟩
    · cases none
    · cases none
  | succ retries ih =>
    rcases awaitOnce_ok h with ⟨m', hm, same⟩ | ⟨-, none⟩ | ⟨next, hnext, e, t, missed, hrun⟩
    · obtain rfl := Option.some.inj same
      exact ⟨retries + 1, w, wait, hm⟩
    · cases none
    · obtain rfl := Option.some.inj hnext
      obtain ⟨_, w', sent, hawait⟩ := Step.run_bind_ok.1 hrun
      exact ih (.again wait missed sent) hawait

/-- **An exchange is answered** exactly when one of its waits is. -/
theorem attempt_iff {u : Associated} :
    (attempt services).run s = (.ok (some m), u) ↔
      ∃ retries apdu w, Waits services s retries apdu w ∧ receive.run w = (.ok m, u) := by
  constructor
  · intro h
    obtain ⟨apdu, t, packed, rest⟩ := Step.run_bind_ok.1 h
    obtain ⟨_, w, sent, rest⟩ := Step.run_bind_ok.1 rest
    by_cases awaited : w.association.parameters.response = .never
    · unfold awaitReply at rest
      rw [Step.run_get_bind, if_pos awaited] at rest
      exact absurd (Prod.mk.inj rest).1 (by simp)
    · have wait := Waits.first packed sent awaited
      rw [attempt_of_waits wait] at h
      obtain ⟨retries, w', wait', received⟩ := awaitAnswer_some wait h
      exact ⟨retries, apdu, w', wait', received⟩
  · rintro ⟨retries, apdu, w, wait, received⟩
    rw [attempt_of_waits wait]
    have once (again : Option (Step Associated (Option Acse.Incoming))) :
        (awaitOnce again).run w = (.ok (some m), u) := by
      unfold awaitOnce
      rw [Step.run_outcome_bind, received]
      rfl
    cases retries with
    | zero => exact once none
    | succ retries => exact once _

/-- Packing changes the association only, and by it alone. -/
theorem pack_run (services : List Bytes) (s : Associated) :
    (pack services).run s =
      let o : Acse.Outgoing :=
        ⟨(prepare s.association).invocationId, none, withLeading (prepare s.association) services⟩
      (((Association.build o).run (prepare s.association)).1,
        { s with association := ((Association.build o).run (prepare s.association)).2 }) :=
  rfl

theorem Waits.association (h : Waits services s retries apdu w) :
    w.association = ((pack services).run s).2.association := by
  induction h with
  | first packed sent =>
    rw [packed]
    exact (send_association _).of_run sent
  | again before missed sent ih =>
    exact ((send_association _).of_run sent).trans ((receive_association.of_run missed.run).trans ih)

/-! ## What a wait consumes -/

theorem send_ok {s' : Associated} (h : (send apdu).run s = (.ok (), s')) :
    ∃ echo, Channel.Observed s.channel s'.channel echo apdu := by
  unfold send at h
  rw [Step.run_get_bind] at h
  obtain ⟨c, wrote, rfl⟩ := Step.run_within_eq.1 h
  exact Channel.writeApdu_ok wrote

theorem send_follows {s' : Associated} (h : (send apdu).run s = (.ok (), s')) : s.channel.Follows s'.channel :=
  (send_ok h).imp fun _ observed => ⟨apdu, observed⟩

/-- Something may have been consumed, nothing was sent. -/
def Reads (s s' : Associated) : Prop := s.channel.Reads s'.channel

instance : IsPreorder Associated Reads where
  refl s := refl_of Channel.Reads s.channel
  trans _ _ _ := trans_of Channel.Reads

theorem receiveRound_reads (deadline : Moment) (u : Unit) : Moves Reads (receiveRound deadline u) := by
  unfold receiveRound
  refine .bind .get fun s => ?_
  dsimp only
  split
  · exact .throw _
  refine .bind (.within (Channel.readApdu_reads _) fun _ _ h => h) fun bytes => .bind (.ofExcept _) fun incoming => ?_
  split
  · exact .pure _
  · exact .bind (.ofExcept _) fun _ => .pure _

theorem receive_reads : Moves Reads receive :=
  .bind .get fun _ => .repeatUpTo (receiveRound_reads _) _ _

theorem Waits.follows (h : Waits services s retries apdu w) : s.channel.Follows w.channel := by
  induction h with
  | first packed sent =>
    rw [pack_run] at packed
    obtain ⟨-, rfl⟩ := Prod.mk.inj packed
    have wrote := send_follows sent
    exact wrote
  | again before missed sent ih =>
    exact trans_of Channel.Follows ih
      (trans_of Channel.Follows (receive_reads.of_run missed.run).follows (send_follows sent))

/-- **What a wait accepts** is an APDU that it read in one piece and that passes the checks. -/
theorem receive_ok {u : Associated} (h : receive.run w = (.ok m, u)) :
    ∃ bytes, w.channel.EndsWith u.channel bytes ∧
      Acse.Incoming.parse bytes w.association.parameters.maxIncoming = .ok m ∧
      m.verifyResponse w.association.parameters w.association.invocationId = .ok () := by
  unfold receive at h
  rw [Step.run_get_bind] at h
  refine Step.repeatUpTo_ok (I := fun _ t => t.association = w.association ∧ Reads w t)
    (Q := fun m u => ∃ bytes, w.channel.EndsWith u.channel bytes ∧
      Acse.Incoming.parse bytes w.association.parameters.maxIncoming = .ok m ∧
      m.verifyResponse w.association.parameters w.association.invocationId = .ok ()) ?_ _ ⟨rfl, refl_of Reads w⟩ h
  rintro x t r t' ⟨same, read⟩ hrun
  cases r with
  | inl x' =>
    exact ⟨((receiveRound_association _ x).of_run hrun).trans same, trans_of Reads read ((receiveRound_reads _ x).of_run hrun)⟩
  | inr m' =>
    obtain ⟨bytes, accepted⟩ := receiveRound_ok hrun
    obtain ⟨garbage, observed⟩ := Channel.readApdu_ok accepted.read
    obtain ⟨before, passed⟩ := read
    exact ⟨bytes, ⟨t.channel, before, [], _, garbage, passed, accepted.read, observed⟩, same ▸ accepted.parsed,
      same ▸ accepted.verified⟩

theorem patient_of_receive {u : Associated} (h : receive.run w = (.ok m, u)) :
    w.association.options.responseTimeout ≠ 0 := by
  intro none
  unfold receive Step.repeatUpTo at h
  rw [Step.run_get_bind, none] at h
  obtain ⟨r, t, h1, -⟩ := Step.run_bind_ok.1 h
  unfold receiveRound at h1
  rw [Step.run_get_bind] at h1
  dsimp only at h1
  rw [if_pos (Nat.add_sub_cancel_left _ _)] at h1
  exact Step.run_throw_ne_ok h1

/-! ## APDUs that answer other invocations -/

theorem isStale_of_verified {p : Acse.Parameters} {id : UInt32} (h : m.verifyResponse p id = .ok ()) :
    m.isStale id = false := by
  rw [Acse.Incoming.isStale, Acse.Incoming.calledId_of_verifyResponse h]
  simp

/-- One look at an APDU that is read and can be taken apart. -/
theorem receiveRound_of_read {deadline : Moment} {bytes : Bytes} {c : Channel} (early : deadline - s.channel.now ≠ 0)
    (read : (Channel.readApdu (deadline - s.channel.now)).run s.channel = (.ok bytes, c))
    (parsed : Acse.Incoming.parse bytes s.association.parameters.maxIncoming = .ok m) :
    (receiveRound deadline ()).run s =
      (if m.isStale s.association.invocationId then .ok (.inl ())
        else (m.verifyResponse s.association.parameters s.association.invocationId).map fun _ => .inr m,
        { s with channel := c }) := by
  have taken : (onChannel (Channel.readApdu (deadline - s.channel.now))).run s = (.ok bytes, { s with channel := c }) :=
    Step.run_within_eq.2 ⟨c, read, rfl⟩
  unfold receiveRound
  rw [Step.run_get_bind]
  dsimp only
  rw [if_neg early, Step.run_bind_of_ok taken, parsed, Step.run_bind, Step.run_ofExcept]
  dsimp only
  by_cases stale : m.isStale s.association.invocationId = true
  · rw [if_pos stale, if_pos stale]
    rfl
  · rw [if_neg stale, if_neg stale, Step.run_bind, Step.run_ofExcept]
    cases m.verifyResponse s.association.parameters s.association.invocationId <;> rfl

/-- A wait with so many rounds left comes to read an APDU before its deadline: at once, or after others that
it passed over. -/
inductive Reaches (deadline : Moment) : (rounds : Nat) → Associated → Bytes → Prop where
  | reads {rounds : Nat} {s : Associated} {bytes : Bytes} {c : Channel} (early : deadline - s.channel.now ≠ 0)
      (read : (Channel.readApdu (deadline - s.channel.now)).run s.channel = (.ok bytes, c)) :
      Reaches deadline (rounds + 1) s bytes
  | passes {rounds : Nat} {s t : Associated} {bytes : Bytes}
      (passed : (receiveRound deadline ()).run s = (.ok (.inl ()), t)) (next : Reaches deadline rounds t bytes) :
      Reaches deadline (rounds + 1) s bytes

theorem receiveRounds_of_reaches {deadline : Moment} {rounds : Nat} {bytes : Bytes}
    (reaches : Reaches deadline rounds s bytes)
    (parsed : Acse.Incoming.parse bytes s.association.parameters.maxIncoming = .ok m)
    (current : m.isStale s.association.invocationId = false) :
    ∃ c, (Step.repeatUpTo (receiveRound deadline) rounds ()).run s =
      ((m.verifyResponse s.association.parameters s.association.invocationId).map fun _ => m,
        { s with channel := c }) := by
  induction reaches with
  | @reads rounds s bytes c early read =>
    have round := receiveRound_of_read early read parsed
    rw [if_neg (by simp [current])] at round
    refine ⟨c, ?_⟩
    rw [Step.repeatUpTo, Step.run_bind, round]
    cases m.verifyResponse s.association.parameters s.association.invocationId <;> rfl
  | @passes rounds s t bytes passed next ih =>
    have same : t.association = s.association := (receiveRound_association _ _).of_run passed
    rw [same] at ih
    obtain ⟨c, run⟩ := ih parsed current
    exact ⟨c, by rw [Step.repeatUpTo, Step.run_bind_of_ok passed]; exact run⟩

/-- A wait looks at an APDU. -/
def LooksAt (w : Associated) (bytes : Bytes) : Prop :=
  Reaches (w.channel.now + w.association.options.responseTimeout)
    (w.channel.line.waiting + w.channel.input.length + 1) w bytes

/-- **A wait ends with an APDU that it looks at**, unless that answers another invocation. -/
theorem receive_of_looksAt {bytes : Bytes} (looks : w.LooksAt bytes)
    (parsed : Acse.Incoming.parse bytes w.association.parameters.maxIncoming = .ok m)
    (current : m.isStale w.association.invocationId = false) :
    ∃ c, receive.run w = ((m.verifyResponse w.association.parameters w.association.invocationId).map fun _ => m,
      { w with channel := c }) := by
  unfold receive
  rw [Step.run_get_bind]
  exact receiveRounds_of_reaches looks parsed current

/-- One look at an APDU that comes in time. -/
theorem readApdu_of_due {c : Channel} {deadline : Moment} {d : Delivery} {more : List Timed} {max : UInt32}
    (h : c.Unhindered) (due : c.due = since c.now (d.all ++ more)) (early : c.now < deadline)
    (timely : Channel.InParts c.limit deadline c.now d.parts) (parsed : Acse.Incoming.parse d.bytes max = .ok m) :
    ∃ c', (Channel.readApdu (deadline - c.now)).run c = (.ok d.bytes, c') ∧
      c.Later c' d.all.length ∧ c'.due = since c'.now more ∧ c'.now = latest c.now d.all := by
  have same : c.now + (deadline - c.now) = deadline := Nat.add_sub_cancel' (Nat.le_of_lt early)
  exact Channel.readApdu_run h due (Acse.Incoming.isFrame_of_parse parsed) (Nat.sub_ne_zero_of_lt early) (by rwa [same])

/-- What comes to a wait: APDUs that answer other invocations, in time, and then an answer, in time. -/
structure Brings (w : Associated) (late : List Delivery) (answer : Delivery) (more : List Timed) : Prop where
  unhindered : w.channel.Unhindered
  due : w.channel.due = late.flatMap Delivery.all ++ (answer.all ++ more)
  stale : ∀ d ∈ late, ∃ m, Acse.Incoming.parse d.bytes w.association.parameters.maxIncoming = .ok m ∧
    m.isStale w.association.invocationId = true
  inTime : ∀ d ∈ late, ∀ x ∈ d.all, x.1 < w.channel.now + w.association.options.responseTimeout ∧
    x.1 ≤ max w.channel.now (w.channel.limit (w.channel.now + w.association.options.responseTimeout))
  answered : Channel.InParts w.channel.limit (w.channel.now + w.association.options.responseTimeout)
    (latest w.channel.now (late.flatMap Delivery.all)) answer.parts

theorem length_le_flatMap {max : UInt32} {late : List Delivery} {P : Acse.Incoming → Prop}
    (h : ∀ d ∈ late, ∃ m, Acse.Incoming.parse d.bytes max = .ok m ∧ P m) :
    late.length ≤ (late.flatMap Delivery.all).length := by
  induction late with
  | nil => exact Nat.le_refl _
  | cons d late ih =>
    obtain ⟨m, parsed, -⟩ := h d List.mem_cons_self
    obtain ⟨first, octets, elements, hbytes, -⟩ := Acse.Incoming.isFrame_of_parse parsed
    have some := congrArg List.length hbytes
    rw [Delivery.bytes, List.length_map, List.length_cons] at some
    have rest := ih fun e he => h e (List.mem_cons_of_mem d he)
    rw [List.flatMap_cons, List.length_append, List.length_cons, Delivery.all, List.length_append]
    omega

/-- The rounds of a wait pass over what is late, and reach the answer. -/
theorem reaches_answer {c : Channel} {a : Association} {deadline : Moment} {late : List Delivery} {d : Delivery}
    {more : List Timed} (h : c.Unhindered)
    (due : c.due = since c.now (late.flatMap Delivery.all ++ (d.all ++ more))) (early : c.now < deadline)
    (stale : ∀ e ∈ late, ∃ m, Acse.Incoming.parse e.bytes a.parameters.maxIncoming = .ok m ∧
      m.isStale a.invocationId = true)
    (inTime : ∀ e ∈ late, ∀ x ∈ e.all, x.1 < deadline ∧ x.1 ≤ max c.now (c.limit deadline))
    (answered : Channel.InParts c.limit deadline (latest c.now (late.flatMap Delivery.all)) d.parts)
    (parsed : Acse.Incoming.parse d.bytes a.parameters.maxIncoming = .ok m) {rounds : Nat}
    (enough : late.length < rounds) : Reaches deadline rounds ⟨c, a⟩ d.bytes := by
  induction late generalizing c rounds with
  | nil =>
    obtain ⟨rounds, rfl⟩ := Nat.exists_eq_succ_of_ne_zero (Nat.ne_zero_of_lt enough)
    obtain ⟨c', read, -⟩ := readApdu_of_due h due early answered parsed
    exact .reads (Nat.sub_ne_zero_of_lt early) read
  | cons e late ih =>
    obtain ⟨rounds, rfl⟩ := Nat.exists_eq_succ_of_ne_zero (Nat.ne_zero_of_lt enough)
    obtain ⟨m', parsed', stale'⟩ := stale e List.mem_cons_self
    have first := inTime e List.mem_cons_self
    rw [List.flatMap_cons, List.append_assoc] at due
    rw [List.flatMap_cons, latest_append] at answered
    have timely : Channel.InParts c.limit deadline c.now e.parts :=
      Channel.inParts_of_le (c.limit_le deadline) fun part hpart x hx => (first x (Delivery.mem_all_of_mem_parts hpart hx)).2
    obtain ⟨c1, read, later, due1, now1⟩ := readApdu_of_due h due early timely parsed'
    have round := receiveRound_of_read (s := ⟨c, a⟩) (Nat.sub_ne_zero_of_lt early) read parsed'
    rw [if_pos stale'] at round
    rw [← now1, ← later.limit_eq] at answered
    have early1 : c1.now < deadline := now1 ▸ latest_lt early fun x hx => (first x hx).1
    have inTime1 : ∀ e ∈ late, ∀ x ∈ e.all, x.1 < deadline ∧ x.1 ≤ max c1.now (c1.limit deadline) := by
      intro e' he' x hx
      obtain ⟨before, timely⟩ := inTime e' (List.mem_cons_of_mem e he') x hx
      rw [later.limit_eq]
      exact ⟨before, Nat.le_trans timely (Nat.max_le.2
        ⟨Nat.le_trans later.now_le (Nat.le_max_left _ _), Nat.le_max_right _ _⟩)⟩
    exact .passes round (ih later.unhindered due1 early1 (fun e' he' => stale e' (List.mem_cons_of_mem e he')) inTime1
      answered (Nat.lt_of_succ_lt_succ enough))

/-- **A wait passes over what is late**: it looks at the answer that comes behind it. -/
theorem looksAt_answer {late : List Delivery} {d : Delivery} {more : List Timed} (brings : w.Brings late d more)
    (patient : w.association.options.responseTimeout ≠ 0)
    (parsed : Acse.Incoming.parse d.bytes w.association.parameters.maxIncoming = .ok m) : w.LooksAt d.bytes := by
  have due : w.channel.due = since w.channel.now (late.flatMap Delivery.all ++ (d.all ++ more)) := by
    rw [← brings.due, Channel.due_since]
  -- each of the late ones takes up some of the bytes that are counted
  have few : late.length ≤ w.channel.line.waiting + w.channel.input.length := by
    refine Nat.le_trans ?_ w.channel.length_due_le
    rw [brings.due, List.length_append]
    exact Nat.le_trans (length_le_flatMap brings.stale) (Nat.le_add_right _ _)
  exact reaches_answer brings.unhindered due (Nat.lt_add_of_pos_right (Nat.pos_of_ne_zero patient)) brings.stale
    brings.inTime brings.answered parsed (Nat.lt_succ_of_le few)

/-- A wait accepts the answer that comes behind what is late. -/
theorem receive_run {late : List Delivery} {d : Delivery} {more : List Timed} (brings : w.Brings late d more)
    (patient : w.association.options.responseTimeout ≠ 0)
    (parsed : Acse.Incoming.parse d.bytes w.association.parameters.maxIncoming = .ok m)
    (verified : m.verifyResponse w.association.parameters w.association.invocationId = .ok ()) :
    ∃ c', receive.run w = (.ok m, { w with channel := c' }) := by
  obtain ⟨c, run⟩ := receive_of_looksAt (looksAt_answer brings patient parsed) parsed (isStale_of_verified verified)
  rw [verified] at run
  exact ⟨c, run⟩

end Associated

end Metering
