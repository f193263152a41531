import Metering.Association.Exchange
import Metering.Proofs.Steps

set_option autoImplicit false

/-! # What an exchange does to its association

Sending and waiting leave the association alone, packing and opening leave the channel alone. So an
exchange keeps its addressing, and it moves on to the next invocation id exactly when it came
through: when an answer was accepted, or none was to be expected (`exchange_association`). An
accepted answer names the id of the exchange (`attempt_calledId`). -/

namespace Metering

open Step (Moves Same)

namespace Acse.Incoming

/-- An answer that passes the checks names the invocation it answers. -/
theorem calledId_of_verifyResponse {m : Incoming} {p : Parameters} {id : UInt32}
    (h : m.verifyResponse p id = .ok ()) : m.calledId = some id := by
  unfold verifyResponse at h
  by_cases hid : m.calledId = some id
  · exact hid
  · simp only [hid, ne_eq, not_false_eq_true, if_true] at h
    split at h
    · cases h
    · split at h <;> cases h

end Acse.Incoming

namespace Association

/-- What no step of an association changes. -/
structure Settings where
  parameters : Acse.Parameters
  options : NetworkOptions
  leadingSecurity : Option Bytes

/-- What packing keeps. -/
structure Identity where
  settings : Settings
  invocationId : UInt32

/-- What opening keeps. -/
structure Outgoing where
  identity : Identity
  security : Option SecurityContext
  authentication : Option Acse.Authentication

def settings (a : Association) : Settings := ⟨a.parameters, a.options, a.leadingSecurity⟩

def identity (a : Association) : Identity := ⟨a.settings, a.invocationId⟩

def outgoing (a : Association) : Outgoing := ⟨a.identity, a.security, a.authentication⟩

theorem chooseAuthentication_identity (s : SecurityContext) :
    Moves (Same identity) (chooseAuthentication s) := by
  unfold chooseAuthentication
  refine .bind .get fun a => ?_
  split
  · exact .pure _
  · refine .bind (.modify fun _ => rfl) fun _ => .bind (.ofExcept _) fun _ => ?_
    exact .bind (.modify fun _ => rfl) fun _ => .pure _

theorem chooseSeal_identity : Moves (Same identity) chooseSeal := by
  unfold chooseSeal
  refine .bind .get fun a => ?_
  split
  · split
    · exact .throw _
    · exact .bind (chooseAuthentication_identity _) fun _ => .pure _
  · exact .pure _

theorem build_identity (o : Acse.Outgoing) : Moves (Same identity) (build o) :=
  .bind chooseSeal_identity fun _ => .bind .get fun _ => .ofExcept _

theorem adoptAuthentication_outgoing (authentication : Acse.Authentication) :
    Moves (Same outgoing) (adoptAuthentication authentication) := by
  unfold adoptAuthentication
  refine .bind .get fun a => ?_
  split
  · split
    · exact .throw _
    · exact .modify fun _ => rfl
  · exact .modify fun _ => rfl

theorem openBody_outgoing (incoming : Acse.Incoming) : Moves (Same outgoing) (openBody incoming) := by
  unfold openBody
  split
  · refine .bind (adoptAuthentication_outgoing _) fun _ => .bind .get fun a => ?_
    exact .ite (.throw_bind _ _) (.bind (.ofExcept _) fun _ => .pure _)
  · refine .bind .get fun a => ?_
    exact .ite (.throw_bind _ _) (.bind (.ofExcept _) fun _ => .pure _)

end Association

namespace Associated

variable {α : Type}

/-! ## What stays -/

theorem onChannel_association (x : Step Channel α) : Moves (Same association) (onChannel x) :=
  fun _ => rfl

theorem receiveRound_association (deadline : Moment) (u : Unit) :
    Moves (Same association) (receiveRound deadline u) := by
  unfold receiveRound
  refine .bind .get fun s => ?_
  dsimp only
  split
  · exact .throw _
  refine .bind (onChannel_association _) fun bytes => .bind (.ofExcept _) fun incoming => ?_
  split
  · exact .pure _
  · exact .bind (.ofExcept _) fun _ => .pure _

theorem receive_association : Moves (Same association) receive :=
  .bind .get fun _ => .repeatUpTo (receiveRound_association _) _ _

theorem send_association (apdu : Bytes) : Moves (Same association) (send apdu) :=
  .bind .get fun _ => onChannel_association _

theorem awaitOnce_association {again : Option (Step Associated (Option Acse.Incoming))}
    (h : ∀ next ∈ again, Moves (Same association) next) :
    Moves (Same association) (awaitOnce again) := by
  unfold awaitOnce
  refine .bind (.outcome receive_association) fun r => ?_
  cases r with
  | ok incoming => exact .pure _
  | error e =>
    refine .bind .get fun s => ?_
    dsimp only
    split
    · exact .throw _
    split
    · exact .pure _
    cases again with
    | none => exact .throw _
    | some next => exact .ite (h next rfl) (.throw _)

theorem awaitAnswer_association (apdu : Bytes) (retries : Nat) :
    Moves (Same association) (awaitAnswer apdu retries) := by
  induction retries with
  | zero => exact awaitOnce_association (by simp)
  | succ retries ih =>
    refine awaitOnce_association ?_
    intro next h
    obtain rfl := Option.some.inj h
    exact .bind (send_association apdu) fun _ => ih

theorem awaitReply_association (apdu : Bytes) : Moves (Same association) (awaitReply apdu) := by
  unfold awaitReply
  refine .bind .get fun s => ?_
  split
  · exact .pure _
  · exact awaitAnswer_association _ _

theorem attempt_association (services : List Bytes) (s : Associated) :
    ((attempt services).run s).2.association = ((pack services).run s).2.association := by
  unfold attempt
  rw [Step.run_bind]
  rcases (pack services).run s with ⟨r, t⟩
  cases r with
  | error e => rfl
  | ok apdu =>
    have rest : Moves (Same association) (send apdu >>= fun _ => awaitReply apdu) :=
      .bind (send_association apdu) fun _ => awaitReply_association apdu
    exact rest t

theorem openAnswer_outgoing (services : List Bytes) (answer : Option Acse.Incoming) :
    Moves (Same fun s => s.association.outgoing) (openAnswer services answer) := by
  cases answer with
  | none => exact .pure _
  | some incoming =>
    have opened : Moves (Same fun s => s.association.outgoing)
        (onAssociation (Association.openBody incoming)) :=
      .within (Association.openBody_outgoing incoming) fun _ _ h => h
    exact .bind opened fun _ => .bind (.ofExcept _) fun _ => .bind .get fun _ => .ofExcept _

/-- The exchange of some services comes through: its APDU was answered, or needs no answer. -/
def comesThrough (services : List Bytes) (s : Associated) : Bool :=
  ((attempt services).run s).1.toBool

/-- **What an exchange leaves of its association.** It is what packing left, with the id moved on
if the exchange came through; the fault of an exchange that did not leaves the id in place. -/
theorem exchange_outgoing (services : List Bytes) (s : Associated) :
    ((exchange services).run s).2.association.outgoing =
      if comesThrough services s then ((pack services).run s).2.association.advanceId.outgoing
      else ((pack services).run s).2.association.outgoing := by
  have packed := attempt_association services s
  unfold exchange comesThrough
  rw [Step.run_bind]
  rcases h : (attempt services).run s with ⟨r, t⟩
  rw [h] at packed
  cases r with
  -- a fault comes before the id is moved on
  | error e => exact congrArg Association.outgoing packed
  | ok answer =>
    have opened := openAnswer_outgoing services answer { t with association := t.association.advanceId }
    rw [← packed]
    exact opened

/-! ## The answer that is accepted -/

/-- An APDU is accepted: it is read before a deadline, can be taken apart, and passes the checks. -/
structure Accepts (deadline : Moment) (s s' : Associated) (bytes : Bytes) (m : Acse.Incoming) : Prop where
  early : deadline - s.channel.now ≠ 0
  read : (Channel.readApdu (deadline - s.channel.now)).run s.channel = (.ok bytes, s'.channel)
  parsed : Acse.Incoming.parse bytes s.association.parameters.maxIncoming = .ok m
  verified : m.verifyResponse s.association.parameters s.association.invocationId = .ok ()

theorem receiveRound_ok {deadline : Moment} {u : Unit} {s s' : Associated} {m : Acse.Incoming}
    (h : (receiveRound deadline u).run s = (.ok (.inr m), s')) : ∃ bytes, Accepts deadline s s' bytes m := by
  unfold receiveRound at h
  rw [Step.run_get_bind] at h
  dsimp only at h
  split at h
  · exact absurd h Step.run_throw_ne_ok
  next early =>
    obtain ⟨bytes, t, h1, h⟩ := Step.run_bind_ok.1 h
    obtain ⟨c, read, rfl⟩ := Step.run_within_eq.1 h1
    obtain ⟨incoming, t, h2, h⟩ := Step.run_bind_ok.1 h
    obtain ⟨parsed, rfl⟩ := Prod.mk.inj ((Step.run_ofExcept _ _).symm.trans h2)
    split at h
    · exact absurd (Prod.mk.inj h).1 (by simp)
    obtain ⟨_, t, h3, h⟩ := Step.run_bind_ok.1 h
    obtain ⟨verified, rfl⟩ := Prod.mk.inj ((Step.run_ofExcept _ _).symm.trans h3)
    obtain ⟨accepted, rfl⟩ := Prod.mk.inj h
    obtain rfl := Sum.inr.inj (Except.ok.inj accepted)
    exact ⟨bytes, early, read, parsed, verified⟩

/-- **An accepted answer names the id of the exchange.** Answers to earlier ids are passed over. -/
theorem receive_calledId {s s' : Associated} {m : Acse.Incoming} (h : receive.run s = (.ok m, s')) :
    m.calledId = some s.association.invocationId := by
  unfold receive at h
  rw [Step.run_get_bind] at h
  -- the rounds leave the association alone, so the last one checks the id of the first
  refine Step.repeatUpTo_ok (I := fun _ t => t.association = s.association)
    (Q := fun m _ => m.calledId = some s.association.invocationId) ?_ _ rfl h
  intro u t r t' ht hrun
  cases r with
  | inl u' => exact ((receiveRound_association _ u).of_run hrun).trans ht
  | inr m' =>
    obtain ⟨bytes, accepted⟩ := receiveRound_ok hrun
    have named := Acse.Incoming.calledId_of_verifyResponse accepted.verified
    rwa [ht] at named

/-- A wait ends without an answer, in such a way that the APDU may be sent again. -/
structure Misses (s s' : Associated) (e : Fault) : Prop where
  run : receive.run s = (.error e, s')
  inTime : s'.channel.deadlineHit = false
  objects : ¬ (isSilence e = true ∧ s'.association.parameters.response = .onException)
  resend : allowsResend e = true

/-- The ways in which one wait succeeds: with an answer, with a silence that means consent, or by
what follows it. -/
theorem awaitOnce_ok {again : Option (Step Associated (Option Acse.Incoming))} {s s' : Associated}
    {answer : Option Acse.Incoming} (h : (awaitOnce again).run s = (.ok answer, s')) :
    (∃ m, receive.run s = (.ok m, s') ∧ answer = some m) ∨
      (s.association.parameters.response = .onException ∧ answer = none) ∨
      ∃ next ∈ again, ∃ e t, Misses s t e ∧ next.run t = (.ok answer, s') := by
  unfold awaitOnce at h
  rw [Step.run_outcome_bind] at h
  have same := receive_association s
  rcases hr : receive.run s with ⟨r, t⟩
  rw [hr] at h same
  cases r with
  | ok m =>
    obtain ⟨ha, rfl⟩ := Prod.mk.inj h
    exact .inl ⟨m, rfl, (Except.ok.inj ha).symm⟩
  | error e =>
    simp only [Step.run_get_bind] at h
    split at h
    · exact absurd h Step.run_throw_ne_ok
    next inTime =>
      split at h
      next silent =>
        simp only [Bool.and_eq_true, decide_eq_true_eq] at silent
        rw [show t.association = s.association from same] at silent
        exact .inr (.inl ⟨silent.2, (Except.ok.inj (Prod.mk.inj h).1).symm⟩)
      next objects =>
        simp only [Bool.and_eq_true, decide_eq_true_eq] at objects
        cases again with
        | none => exact absurd h Step.run_throw_ne_ok
        | some next =>
          dsimp only at h
          split at h
          next resend => exact .inr (.inr ⟨next, rfl, e, t, ⟨hr, by simpa using inTime, objects, resend⟩, h⟩)
          · exact absurd h Step.run_throw_ne_ok

/-- Where a wait misses, what follows it goes on. -/
theorem awaitOnce_of_misses {next : Step Associated (Option Acse.Incoming)} {s t : Associated} {e : Fault}
    (h : Misses s t e) : (awaitOnce (some next)).run s = next.run t := by
  unfold awaitOnce
  rw [Step.run_outcome_bind, h.run]
  dsimp only
  rw [Step.run_get_bind, if_neg (by simp [h.inTime]), if_neg (by simpa using h.objects), if_pos h.resend]

/-- The answer to an exchange names its id, and where every request is to be answered there is
one. -/
structure Answers (a : Association) (answer : Option Acse.Incoming) : Prop where
  calledId : ∀ m, answer = some m → m.calledId = some a.invocationId
  isSome : a.parameters.response = .always → answer.isSome

theorem awaitOnce_answers {again : Option (Step Associated (Option Acse.Incoming))} {s s' : Associated}
    {answer : Option Acse.Incoming}
    (hagain : ∀ next ∈ again, ∀ t, t.association = s.association →
      next.run t = (.ok answer, s') → Answers s.association answer)
    (h : (awaitOnce again).run s = (.ok answer, s')) : Answers s.association answer := by
  rcases awaitOnce_ok h with ⟨m, hm, rfl⟩ | ⟨silent, rfl⟩ | ⟨next, hnext, e, t, missed, hrun⟩
  · refine ⟨fun m' h' => ?_, fun _ => rfl⟩
    obtain rfl := Option.some.inj h'
    exact receive_calledId hm
  · exact ⟨by simp, fun always => absurd (silent.symm.trans always) (by simp)⟩
  · exact hagain next hnext t (receive_association.of_run missed.run) hrun

theorem awaitAnswer_answers {apdu : Bytes} {retries : Nat} {s s' : Associated}
    {answer : Option Acse.Incoming} (h : (awaitAnswer apdu retries).run s = (.ok answer, s')) :
    Answers s.association answer := by
  induction retries generalizing s with
  | zero => exact awaitOnce_answers (by simp) h
  | succ retries ih =>
    refine awaitOnce_answers ?_ h
    intro next hnext t ht hrun
    obtain rfl := Option.some.inj hnext
    -- sending again goes through the channel only: the id is still that of the first try
    obtain ⟨_, t', hsend, hawait⟩ := Step.run_bind_ok.1 hrun
    have same := (send_association apdu).of_run hsend
    rw [← ht, ← same]
    exact ih hawait

/-- **The answer that an exchange goes by names the id under which its services were packed.** -/
theorem attempt_answers {services : List Bytes} {s s' : Associated} {answer : Option Acse.Incoming}
    (h : (attempt services).run s = (.ok answer, s')) : Answers s'.association answer := by
  obtain ⟨apdu, t, _, h⟩ := Step.run_bind_ok.1 h
  obtain ⟨_, t', hsend, h⟩ := Step.run_bind_ok.1 h
  have reply := (awaitReply_association apdu).of_run h
  rw [reply]
  unfold awaitReply at h
  rw [Step.run_get_bind] at h
  split at h
  next never =>
    obtain rfl := Except.ok.inj (Prod.mk.inj h).1
    exact ⟨by simp, fun always => absurd (never.symm.trans always) (by simp)⟩
  next => exact awaitAnswer_answers h

end Associated

end Metering
