import Metering.Proofs.Writes

set_option autoImplicit false

/-! # Faults that keep the session

What an operation hands over stays when it is settled (`settle_exchanges`). A fault that keeps the session is reported
as it is, and the channel stays as the operation left it (`settle_reports`): only where a deadline was set before does a
timeout stand in place of the fault, because no operation sets one by itself. -/

namespace Metering

open Step (Moves Same)

variable {α : Type}

/-! ## What keeps to the deadline -/

namespace Channel

/-- No deadline is set, and none is noted as passed. -/
def Unhurried (c : Channel) : Prop := c.deadline = none ∧ c.deadlineHit = false

theorem Paced.unhurried {c c' : Channel} (h : Paced c c') (unhurried : c.Unhurried) : c'.Unhurried :=
  ⟨h.deadline.trans unhurried.1, (h.unnoted unhurried.1).trans unhurried.2⟩

theorem readRemainder_pace (count : Nat) (deadline : Moment) :
    KeepsPace (remainderDeadline deadline >>= readExactUntil count) :=
  .bind (.bind .get fun _ => .pure _) fun _ => readExactly_pace _ _

theorem readLengthOctets_pace (first : UInt8) (deadline : Moment) : KeepsPace (readLengthOctets first deadline) := by
  refine .ite (.pure _) (.ite (.throw_bind _ _) ?_)
  rw [← bind_assoc]
  exact .bind (readRemainder_pace _ _) fun _ => .pure _

theorem readApdu_pace (timeout : Duration) : KeepsPace (readApdu timeout) := by
  refine .bind .get fun c => .bind (readStart_pace _ _) fun _ => ?_
  rw [← bind_assoc]
  refine .bind (readRemainder_pace _ _) fun first => .bind (readLengthOctets_pace _ _) fun ⟨octets, length⟩ => ?_
  dsimp only
  split
  · rw [← bind_assoc]
    exact .bind (readRemainder_pace _ _) fun _ => .pure _
  · exact .pure _

theorem writeApdu_pace (apdu : Bytes) (turnaround timeout : Duration) : KeepsPace (writeApdu apdu turnaround timeout) := by
  have written : KeepsPace (do let _ ← write apdu timeout : Step Channel Unit) := .bind (write_pace _ _) fun _ => .pure _
  exact .ite (.bind (sleep_pace _) fun _ => written) written

end Channel

namespace Associated

/-- The channel keeps its pace, and no deadline is noted that was not set. -/
def Unrushed (s s' : Associated) : Prop := Channel.Paced s.channel s'.channel

instance : IsPreorder Associated Unrushed where
  refl s := refl_of Channel.Paced s.channel
  trans _ _ _ := trans_of Channel.Paced

theorem onChannel_unrushed {x : Step Channel α} (h : Channel.KeepsPace x) : Moves Unrushed (onChannel x) :=
  .within h fun _ _ paced => paced

theorem onAssociation_unrushed (x : Step Association α) : Moves Unrushed (onAssociation x) :=
  fun s => refl_of Channel.Paced s.channel

theorem change_unrushed (f : Association → Association) : Moves Unrushed (change f) := fun s =>
  refl_of Channel.Paced s.channel

theorem receiveRound_unrushed (deadline : Moment) (u : Unit) : Moves Unrushed (receiveRound deadline u) := by
  refine .bind .get fun s => .ite (.throw_bind _ _) ?_
  exact .bind (onChannel_unrushed (Channel.readApdu_pace _)) fun _ => .bind (.ofExcept _) fun _ =>
    .ite (.pure _) (.bind (.ofExcept _) fun _ => .pure _)

theorem receive_unrushed : Moves Unrushed receive := .bind .get fun _ => .repeatUpTo (receiveRound_unrushed _) _ _

theorem send_unrushed (apdu : Bytes) : Moves Unrushed (send apdu) :=
  .bind .get fun _ => onChannel_unrushed (Channel.writeApdu_pace _ _ _)

theorem awaitOnce_unrushed {again : Option (Step Associated (Option Acse.Incoming))}
    (h : ∀ next ∈ again, Moves Unrushed next) : Moves Unrushed (awaitOnce again) := by
  refine .bind (.outcome receive_unrushed) fun r => ?_
  cases r with
  | ok incoming => exact .pure _
  | error e =>
    refine .bind .get fun s => .ite (.throw_bind _ _) (.ite (.pure _) ?_)
    cases again with
    | none => exact .throw _
    | some next => exact .ite (h next rfl) (.throw _)

theorem awaitAnswer_unrushed (apdu : Bytes) (retries : Nat) : Moves Unrushed (awaitAnswer apdu retries) := by
  induction retries with
  | zero => exact awaitOnce_unrushed nofun
  | succ retries ih =>
    refine awaitOnce_unrushed fun next h => ?_
    obtain rfl := Option.some.inj h
    exact .bind (send_unrushed apdu) fun _ => ih

theorem attempt_unrushed (services : List Bytes) : Moves Unrushed (attempt services) := by
  have packed : Moves Unrushed (pack services) :=
    .bind (change_unrushed _) fun _ => .bind .get fun _ => onAssociation_unrushed _
  exact .bind packed fun _ => .bind (send_unrushed _) fun _ => .bind .get fun _ => .ite (.pure _) (awaitAnswer_unrushed _ _)

/-- **A request** of an association keeps to the deadline of its channel. -/
theorem request_unrushed (service : Bytes) : Moves Unrushed (request service) := by
  have opened (answer : Option Acse.Incoming) : Moves Unrushed (openAnswer [service] answer) := by
    cases answer with
    | none => exact .pure _
    | some incoming =>
      exact .bind (onAssociation_unrushed _) fun _ => .bind (.ofExcept _) fun _ => .bind .get fun _ => .ofExcept _
  refine .bind (.bind (attempt_unrushed _) fun answer => .bind (change_unrushed _) fun _ => opened answer)
    fun responses => ?_
  cases responses with
  | nil => exact .throw _
  | cons response _ => exact .pure _

end Associated

namespace Client

/-- The channel keeps its pace, and no deadline is noted that was not set. -/
def Unrushed (c c' : Client) : Prop := Channel.Paced c.channel c'.channel

instance : IsPreorder Client Unrushed where
  refl c := refl_of Channel.Paced c.channel
  trans _ _ _ := trans_of Channel.Paced

theorem changeLink_unrushed (f : Link → Link) : Moves Unrushed (changeLink f) := by
  refine .modify fun c => ?_
  rcases c.wire with link | a <;> exact refl_of Channel.Paced c.channel

theorem onLinked_unrushed (otherwise : Fault) {x : Step Linked α} (h : Linked.KeepsPace x) :
    Moves Unrushed (onLinked otherwise x) := by
  refine .get_bind fun c => ?_
  rcases c.wire with link | a
  · dsimp only
    rw [Step.run_set_bind, Step.run_ofExcept]
    exact (h ⟨c.channel, link⟩).channel
  · exact refl_of Unrushed c

theorem onAssociated_unrushed {x : Step Associated α} (h : Moves Associated.Unrushed x) :
    Moves Unrushed (onAssociated x) := by
  refine .get_bind fun c => ?_
  rcases c.wire with link | a
  · exact refl_of Unrushed c
  · dsimp only
    rw [Step.run_set_bind, Step.run_ofExcept]
    exact h ⟨c.channel, a⟩

theorem frame_unrushed : Frame Unrushed where
  linked otherwise _ h := onLinked_unrushed otherwise h
  associated _ := onAssociated_unrushed (Associated.request_unrushed _)
  channel h := .within h fun _ _ paced => paced
  changed _ := changeLink_unrushed _
  noted c _ := refl_of Unrushed c
  recorded c _ := refl_of Unrushed c

theorem readActive_unrushed (d : Descriptor) : Moves Unrushed (readActive d) :=
  readActive_frame frame_unrushed.transfers.tables d

theorem writeActive_unrushed (d : Descriptor) (data : Bytes) : Moves Unrushed (writeActive d data) :=
  writeActive_frame frame_unrushed.transfers.tables d data

/-! ## What is reported -/

variable {c c' t : Client} {x : Step Client α} {r : Except Fault α} {e : Fault}

/-- The fault is reported. Where a deadline was set before, a timeout may stand in its place. -/
def Reports (c : Client) (e : Fault) (r : Except Fault α) : Prop :=
  r = .error e ∨ (¬ c.channel.Unhurried ∧ r = .error (.readTimeout 0))

theorem excuse_eq (e : Fault) (t : Client) :
    ∃ e' t', (excuse e).run t = (.ok e', t') ∧ t'.channel = t.channel ∧ t'.exchanges = t.exchanges ∧
      e' = if t.channel.deadlineHit && !endsChannel e then .readTimeout 0 else e := by
  unfold excuse
  rw [Step.run_get_bind]
  split
  · refine ⟨_, ((changeLink Link.forget).run t).2, rfl, ?_, changeLink_exchanges Link.forget t, rfl⟩
    unfold changeLink
    rw [Step.run_modify]
    rcases t.wire with link | a <;> rfl
  · exact ⟨_, t, rfl, rfl, rfl, rfl⟩

/-- What an operation handed over stays when it is settled, and so does what it gives. -/
theorem settle_exchanges (run : (settle x).run c = (r, c')) :
    c'.exchanges = (x.run c).2.exchanges ∧ ∀ a, r = .ok a → x.run c = (.ok a, c') := by
  rcases hx : x.run c with ⟨e | a, t⟩
  · obtain ⟨e', t', excused, -, kept, -⟩ := excuse_eq e t
    obtain ⟨rfl, rfl⟩ := Prod.mk.inj (run.symm.trans (settle_run_excused hx excused))
    refine ⟨?_, fun a ok => nomatch ok⟩
    split
    · exact (shutdown_exchanges t').trans kept
    · exact kept
  · obtain ⟨rfl, rfl⟩ := Prod.mk.inj (run.symm.trans (settle_run_ok hx))
    refine ⟨rfl, fun a' ok => ?_⟩
    obtain rfl := Except.ok.inj ok
    rfl

/-- **A fault that keeps the session** is reported, and the channel stays as it is. -/
theorem settle_reports (unrushed : Moves Unrushed x) (run : (settle x).run c = (r, c')) (failed : x.run c = (.error e, t))
    (keeps : e.disposition = .keepSession) : Reports c e r ∧ c'.channel = t.channel := by
  have outward : endsChannel e = false := by
    cases e <;> first | rfl | cases keeps
  obtain ⟨e', t', excused, channel, -, judged⟩ := excuse_eq e t
  rw [outward, Bool.not_false, Bool.and_true] at judged
  have lasts : e'.disposition ≠ .disconnect := by
    rw [judged]
    split
    · nofun
    · rw [keeps]
      nofun
  have settled := settle_run_excused failed excused
  rw [if_neg fun ends => lasts ends.1] at settled
  obtain ⟨rfl, rfl⟩ := Prod.mk.inj (run.symm.trans settled)
  refine ⟨?_, channel⟩
  cases hit : t.channel.deadlineHit with
  | false =>
    rw [hit, if_neg Bool.false_ne_true] at judged
    exact .inl (congrArg _ judged)
  | true =>
    rw [hit, if_pos rfl] at judged
    refine .inr ⟨fun unhurried => ?_, congrArg _ judged⟩
    cases hit.symm.trans ((unrushed.of_run failed).unhurried unhurried).2

end Client

end Metering
