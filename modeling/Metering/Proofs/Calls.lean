import Metering.Proofs.Handshake
import Metering.Proofs.Writes

set_option autoImplicit false

/-! # Services with their repeats

A service is handed to the wire again only where the meter answered that it cannot do it now, and no more often
than the configuration says (`Transaction.Repeats`). So what a client hands over falls into calls, each of them
all that one run of a service handed over (`Client.IsCall`), and what a step hands over is a list of calls
(`Client.Sends`). A step performs a list of services if its calls follow them one by one, each handed over only
behind one that passed (`Client.Performs`). -/

namespace Metering

open Step (Moves Same Establishes)

/-! ## What came of a service -/

namespace Transaction

/-- The meter refused the service with this code. -/
def RefusedWith (t : Transaction) (code : NokCode) : Prop :=
  ∃ response extra, t.result = .ok response ∧ Response.results response = .error (.nok code extra)

/-- The meter answered that it is busy or that the data is not ready. -/
def FoundBusy (t : Transaction) : Prop := t.RefusedWith .busy ∨ t.RefusedWith .dataNotReady

/-- The meter refused the service for good. -/
def Declined (t : Transaction) : Prop := ∃ code : NokCode, code.isRetryable = false ∧ t.RefusedWith code

/-- Between the two states an APDU was read that answers the present request of the association before. -/
def Heard (t : Transaction) (a : Association) : Prop :=
  ∃ bytes m, t.before.1.EndsWith t.after.1 bytes ∧
    Acse.Incoming.parse bytes a.parameters.maxIncoming = .ok m ∧
    m.verifyResponse a.parameters (Associated.prepare a).invocationId = .ok ()

/-- The service was answered with a code that says it was carried out. Only an association that does not have every
request answered may take that for granted. -/
structure Passed (t : Transaction) : Prop where
  accepted : ∃ code results, Response.isNok code = false ∧
    (t.Identified (code :: results) ∨ t.Brought (code :: results))
  heard : ∀ a, t.before.2 = .apdus a → a.parameters.response = .always → t.Heard a

/-- The service was handed over and, as often as the meter could not do it then, once more. -/
structure Repeats (request : Request) (retries : Nat) (call : List Transaction) : Prop where
  some : call ≠ []
  few : call.length ≤ retries + 1
  same : ∀ t ∈ call, t.request = request
  busy : ∀ t ∈ call.dropLast, t.FoundBusy

variable {t : Transaction} {request : Request} {retries : Nat} {call : List Transaction} {response results : Bytes}

theorem foundBusy_of_results {e : Fault} (result : t.result = .ok response) (failed : Response.results response = .error e)
    (again : e.isRetryable = true) : t.FoundBusy := by
  cases response with
  | nil =>
    cases failed
    cases again
  | cons code rest =>
    rw [Response.results, Response.parse_cons] at failed
    split at failed
    · obtain rfl := Except.error.inj failed
      have refused : t.RefusedWith (NokCode.ofByte code) := ⟨_, rest, result, by
        rw [Response.results, Response.parse_cons, if_pos ‹_›]⟩
      revert refused again
      generalize NokCode.ofByte code = nok
      intro again refused
      cases nok with
      | busy => exact .inl refused
      | dataNotReady => exact .inr refused
      | _ => cases again
    · cases failed

theorem Passed.not_declined (h : t.Passed) : ¬ t.Declined := by
  rintro ⟨code', -, response, extra, result, refused⟩
  obtain ⟨code, results, accepted, came⟩ := h.accepted
  have carried : t.result = .ok (code :: results) := came.elim (·.2.1) (·.1)
  obtain rfl := Except.ok.inj (result.symm.trans carried)
  rw [Response.results_ok.2 ⟨code, accepted, rfl⟩] at refused
  cases refused

theorem Identified.passed {i : Identification} {x : Step Reader Identification} (h : t.Identified response)
    (parsed : Response.parse x response = .ok i) : t.Passed := by
  obtain ⟨code, rest, accepted, rfl⟩ := Response.parse_ok parsed
  refine ⟨⟨code, rest, accepted, .inl h⟩, fun a associated => ?_⟩
  obtain ⟨-, -, channel, link, channel', link', before, -⟩ := h
  rw [before] at associated
  cases associated

/-- Where every request has to be answered, what was brought is the answer. -/
theorem Brought.heard {a : Association} (h : t.Brought response) (associated : t.before.2 = .apdus a)
    (always : a.parameters.response = .always) : t.Heard a := by
  obtain ⟨request, r, ⟨channel, wire⟩, channel', wire'⟩ := t
  obtain rfl : wire = .apdus a := associated
  obtain ⟨-, ran⟩ := h
  cases wire' with
  | packets link => cases ran
  | apdus a' =>
    dsimp only at ran
    obtain ⟨responses, u, exchanged, ran⟩ := Step.run_bind_ok.1 ran
    obtain ⟨retries, apdu, w, m, v, wait, received⟩ :=
      Associated.receive_of_exchange (s := ⟨channel, a⟩) always exchanged
    obtain ⟨bytes, ends, parsed, verified⟩ := Associated.receive_ok received
    have id : w.association.invocationId = (Associated.prepare a).invocationId :=
      wait.association ▸ congrArg (·.invocationId) (Associated.pack_identity [request.bytes] ⟨channel, a⟩)
    rw [wait.parameters, id] at verified
    rw [wait.parameters] at parsed
    -- nothing is read behind the answer
    have last : u.channel = v.channel := by
      rw [Associated.exchange_of_receive wait received] at exchanged
      obtain ⟨r', b, opens⟩ := Associated.openAnswer_run [request.bytes] (.some m) w.association.advanceId
      rw [opens] at exchanged
      exact congrArg (·.2.channel) exchanged.symm
    have ended : channel' = u.channel := by
      cases responses with
      | nil => exact absurd ran Step.run_throw_ne_ok
      | cons first more => exact congrArg (·.2.channel) ran.symm
    refine ⟨bytes, m, ?_, parsed, verified⟩
    rw [ended, last]
    exact ends.after wait.follows

theorem Answered.passed (h : t.Answered request results) : t.Passed := by
  obtain ⟨-, code, accepted, brought⟩ := h
  exact ⟨⟨code, results, accepted, .inr brought⟩, fun a => brought.heard⟩

theorem Repeats.single (same : t.request = request) : Repeats request retries [t] where
  some := List.cons_ne_nil _ _
  few := by simp
  same := by simpa using same
  busy := by simp

/-- A busy meter is asked once more. -/
theorem Repeats.cons (h : Repeats request retries call) (same : t.request = request) (busy : t.FoundBusy) :
    Repeats request (retries + 1) (t :: call) where
  some := List.cons_ne_nil _ _
  few := Nat.succ_le_succ h.few
  same := List.forall_mem_cons.2 ⟨same, h.same⟩
  busy := by
    rw [List.dropLast_cons_of_ne_nil h.some]
    exact List.forall_mem_cons.2 ⟨busy, h.busy⟩

end Transaction

namespace Client

variable {α β : Type} {dialect : Dialect} {config : Config} {c d c' : Client} {request : Request} {reporting : Bool}

/-! ## Steps that hand nothing over -/

/-- The client goes on by its configuration, and nothing was handed over. -/
structure Quiet (dialect : Dialect) (config : Config) (c c' : Client) : Prop where
  continues : Continues dialect config c c'
  exchanges : c'.exchanges = c.exchanges

instance : IsPreorder Client (Quiet dialect config) where
  refl c := ⟨refl_of _ c, rfl⟩
  trans _ _ _ h h' := ⟨trans_of _ h.continues h'.continues, h'.exchanges.trans h.exchanges⟩

theorem quiet_of_moves {x : Step Client α} (continues : Moves (Continues dialect config) x)
    (same : Moves (Same exchanges) x) : Moves (Quiet dialect config) x :=
  fun c => ⟨continues c, same c⟩

theorem onLink_quiet (x : Step Linked α) : Moves (Quiet dialect config) (onLink x) :=
  .bind .get fun _ => quiet_of_moves (onLinked_continues _ _) (onLinked_exchanges _ _)

theorem onChannel_quiet (x : Step Channel α) : Moves (Quiet dialect config) (onChannel x) :=
  quiet_of_moves (onChannel_continues x) fun _ => rfl

theorem changeLink_quiet (f : Link → Link) : Moves (Quiet dialect config) (changeLink f) :=
  quiet_of_moves (changeLink_continues f) (changeLink_exchanges f)

theorem change_quiet {f : Association → Association}
    (h : ∀ a : Association, a.Serves config → (f a).Serves config) :
    Moves (Quiet dialect config) (onAssociated (Associated.change f)) :=
  quiet_of_moves (onAssociated_continues (.modify fun s => h s.association)) (onAssociated_exchanges _)

theorem moveTo_quiet (phase : Phase) : Moves (Quiet dialect config) (moveTo phase) := by
  refine quiet_of_moves (moveTo_frame startFrame_continues phase) (.get_bind fun c => ?_)
  cases c.phase.moveTo phase <;> rfl

theorem shutdown_quiet : Moves (Quiet dialect config) shutdown :=
  quiet_of_moves shutdown_continues shutdown_exchanges

theorem wireFrame_quiet : WireFrame (fun _ => True) (Quiet dialect config) where
  requested _ := onLink_quiet _
  associated _ := quiet_of_moves (frame_continues.associated _) (onAssociated_exchanges _)
  unreported := changeLink_quiet _
  noted c n := ⟨frame_continues.noted c n, rfl⟩

/-! ## Calls -/

/-- What a service that is handed to the wire once adds to the record. -/
structure Adds (dialect : Dialect) (config : Config) (reporting : Bool) (request : Request) (c : Client)
    (r : Except Fault Bytes) (c' : Client) (t : Transaction) : Prop where
  continues : Continues dialect config c c'
  exchanges : c'.exchanges = t :: c.exchanges
  same : t.request = request
  result : t.result = r
  wire : t.before.2 = c.wire
  brought : reporting = false → ∀ response, r = .ok response → t.Brought response

theorem exchange_adds (dialect : Dialect) (config : Config) (reporting : Bool) (request : Request) (c : Client) :
    ∃ t, Adds dialect config reporting request c ((exchange reporting request).run c).1
      ((exchange reporting request).run c).2 t := by
  have carried : Quiet dialect config c ((carry reporting request.bytes).run c).2 :=
    carry_frame wireFrame_quiet reporting trivial c
  rcases hr : (carry reporting request.bytes).run c with ⟨r, d⟩
  rw [hr] at carried
  unfold exchange note
  rw [Step.run_get_bind, Step.run_outcome_bind, hr, Step.run_modify_bind, Step.run_ofExcept]
  have recorded := fun t => trans_of _ carried.continues (frame_continues.recorded d t)
  refine ⟨⟨request, r, (c.channel, c.wire), (d.channel, d.wire)⟩, recorded _, ?_, rfl, rfl, rfl, ?_⟩
  · exact congrArg _ carried.exchanges
  · intro plain response same
    obtain rfl : reporting = false := plain
    obtain rfl : r = .ok response := same
    exact carry_brought hr

/-- The last of the transactions came with an answer that says that the service was carried out. -/
def Passes (call : List Transaction) : Prop := ∃ t, call.getLast? = some t ∧ t.Passed

/-- The last of the transactions was refused for good. -/
def Declines (call : List Transaction) : Prop := ∃ t, call.getLast? = some t ∧ t.Declined

theorem Passes.not_declines {call : List Transaction} (h : Passes call) : ¬ Declines call := by
  obtain ⟨t, last, passed⟩ := h
  rintro ⟨t', last', declined⟩
  obtain rfl := Option.some.inj (last.symm.trans last')
  exact passed.not_declined declined

/-- What a service hands over with its repeats, and how its result shows what came of it. -/
structure Concludes (dialect : Dialect) (config : Config) (reporting : Bool) (request : Request) (retries : Nat)
    (c : Client) (r : Except Fault Bytes) (c' : Client) (call : List Transaction) : Prop where
  continues : Continues dialect config c c'
  exchanges : c'.exchanges = call.reverse ++ c.exchanges
  repeats : Transaction.Repeats request retries call
  served : c.GoesBy dialect config → ∀ t ∈ call, t.before.2.Serves dialect config
  passed : reporting = false → ∀ results, r = .ok results → Passes call
  declined : ∀ e, r = .error e → Declines call → isNok e = true

section Concluded

variable {r : Except Fault Bytes} {retries : Nat} {t : Transaction} {call : List Transaction}

theorem Adds.served (h : Adds dialect config reporting request c r c' t) (goes : c.GoesBy dialect config) :
    t.before.2.Serves dialect config :=
  h.wire ▸ goes.wired

/-- A service that is not repeated ends with what the response says. -/
theorem Adds.concludes (h : Adds dialect config reporting request c r c' t) :
    Concludes dialect config reporting request retries c (r >>= Response.results) c' [t] where
  continues := h.continues
  exchanges := h.exchanges
  repeats := .single h.same
  served goes := List.forall_mem_singleton.2 (h.served goes)
  passed := by
    intro plain results carried
    obtain ⟨response, brought, carried⟩ := Step.except_bind_ok.1 carried
    obtain ⟨code, accepted, rfl⟩ := Response.results_ok.1 carried
    have answered : t.Answered request results := ⟨h.same, code, accepted, h.brought plain _ brought⟩
    exact ⟨t, rfl, answered.passed⟩
  declined := by
    rintro e failed ⟨t', last, code, -, response, extra, result, refused⟩
    obtain rfl : t = t' := Option.some.inj last
    rw [← h.result, result] at failed
    obtain rfl := Except.error.inj (refused.symm.trans failed)
    rfl

/-- A wait for the meter that fails leaves the service at the answer that it is busy. -/
theorem Adds.concludes_busy (h : Adds dialect config reporting request c r d t) (busy : t.FoundBusy)
    (waited : Quiet dialect config d c') {e : Fault} :
    Concludes dialect config reporting request retries c (.error e) c' [t] where
  continues := trans_of _ h.continues waited.continues
  exchanges := waited.exchanges.trans h.exchanges
  repeats := .single h.same
  served goes := List.forall_mem_singleton.2 (h.served goes)
  passed _ := nofun
  declined := by
    rintro _ - ⟨t', last, code, final, response, extra, result, refused⟩
    obtain rfl : t = t' := Option.some.inj last
    have again : code.isRetryable = true := by
      rcases busy with ⟨response', extra', result', busy⟩ | ⟨response', extra', result', busy⟩
      all_goals
        obtain rfl := Except.ok.inj (result.symm.trans result')
        obtain ⟨rfl, -⟩ := Fault.nok.inj (Except.error.inj (refused.symm.trans busy))
        rfl
    rw [final] at again
    cases again

/-- After a wait for the meter the service is handed over again. -/
theorem Adds.concludes_again {e : Client} {q : Except Fault Bytes} (h : Adds dialect config reporting request c r d t)
    (busy : t.FoundBusy) (waited : Quiet dialect config d e)
    (rest : Concludes dialect config reporting request retries e q c' call) :
    Concludes dialect config reporting request (retries + 1) c q c' (t :: call) where
  continues := trans_of _ h.continues (trans_of _ waited.continues rest.continues)
  exchanges := by
    rw [rest.exchanges, waited.exchanges, h.exchanges, List.reverse_cons, List.append_assoc]
    rfl
  repeats := rest.repeats.cons h.same busy
  served goes := List.forall_mem_cons.2 ⟨h.served goes, rest.served (waited.continues.goesBy (h.continues.goesBy goes))⟩
  passed plain results ok := by
    obtain ⟨last, found, passed⟩ := rest.passed plain results ok
    exact ⟨last, (List.getLast?_cons_of_ne_nil rest.repeats.some).trans found, passed⟩
  declined e failed := by
    rintro ⟨last, found, declined⟩
    rw [List.getLast?_cons_of_ne_nil rest.repeats.some] at found
    exact rest.declined e failed ⟨last, found, declined⟩

end Concluded

/-- **A service** is repeated only while the meter cannot do it, and no more often than allowed. -/
theorem transactRepeatedly_concludes (dialect : Dialect) (config : Config) (reporting : Bool) (request : Request)
    (retries : Nat) (c : Client) :
    ∃ call, Concludes dialect config reporting request retries c ((transactRepeatedly reporting request retries).run c).1
      ((transactRepeatedly reporting request retries).run c).2 call := by
  induction retries generalizing c with
  | zero =>
    obtain ⟨t, adds⟩ := exchange_adds dialect config reporting request c
    refine ⟨[t], ?_⟩
    unfold transactRepeatedly
    rw [Step.run_bind]
    rcases hx : (exchange reporting request).run c with ⟨r, d⟩
    rw [hx] at adds
    cases r with
    | error e => exact adds.concludes
    | ok response =>
      dsimp only
      rw [Step.run_ofExcept]
      exact adds.concludes
  | succ retries ih =>
    obtain ⟨t, adds⟩ := exchange_adds dialect config reporting request c
    unfold transactRepeatedly
    rw [Step.run_bind]
    rcases hx : (exchange reporting request).run c with ⟨r, d⟩
    rw [hx] at adds
    cases r with
    | error e => exact ⟨[t], adds.concludes⟩
    | ok response =>
      have concluded : Concludes dialect config reporting request (retries + 1) c (Response.results response) d [t] :=
        adds.concludes
      dsimp only
      cases hr : Response.results response with
      | ok results =>
        rw [hr] at concluded
        exact ⟨[t], concluded⟩
      | error e =>
        rw [hr] at concluded
        dsimp only
        split
        · exact ⟨[t], concluded⟩
        next again =>
          have busy : t.FoundBusy := Transaction.foundBusy_of_results adds.result hr (by simpa using again)
          rw [Step.run_get_bind, Step.run_bind]
          have waited : Quiet dialect config d ((onChannel (Channel.sleep d.config.applicationRetryDelay)).run d).2 :=
            onChannel_quiet _ d
          rcases hs : (onChannel (Channel.sleep d.config.applicationRetryDelay)).run d with ⟨r, e'⟩
          rw [hs] at waited
          cases r with
          | error _ => exact ⟨[t], adds.concludes_busy busy waited⟩
          | ok _ =>
            obtain ⟨call, rest⟩ := ih e'
            exact ⟨t :: call, adds.concludes_again busy waited rest⟩

/-- Identify is handed over once. -/
theorem identify_adds (dialect : Dialect) (config : Config) (withFeatures : Bool) (c : Client) :
    ∃ t, Continues dialect config c ((identify withFeatures).run c).2 ∧
      ((identify withFeatures).run c).2.exchanges = t :: c.exchanges ∧ t.request = .identify ∧ t.before.2 = c.wire ∧
      (((identify withFeatures).run c).1 = .ok () → t.Passed) := by
  have continued : Continues dialect config c ((identify withFeatures).run c).2 :=
    identify_frame startFrame_continues.toSessionFrame startFrame_continues.recognised withFeatures c
  have learnt (r : Except Fault Bytes) : Moves (Same exchanges) (do
      let response ← Step.ofExcept r
      let identification ← Step.ofExcept
        (Response.parse (if withFeatures then Identification.takeWithFeatures else Identification.take) response)
      modify ({ · with identification := some identification }) : Step Client Unit) :=
    .bind (.ofExcept _) fun _ => .bind (.ofExcept _) fun _ => .modify fun _ => rfl
  have asked : Moves (Same exchanges) askIdentity := onLinked_exchanges _ _
  obtain ⟨t, noted, request, wire⟩ : ∃ t : Transaction,
      ((identify withFeatures).run c).2.exchanges = t :: c.exchanges ∧ t.request = .identify ∧ t.before.2 = c.wire := by
    have same := asked c
    rcases ran : askIdentity.run c with ⟨r, d⟩
    rw [ran] at same
    unfold askIdentity at ran
    unfold identify note
    rw [Step.run_get_bind, Step.run_outcome_bind, ran, Step.run_modify_bind]
    exact ⟨_, (learnt r _).trans (congrArg _ same), rfl, rfl⟩
  refine ⟨t, continued, noted, request, wire, fun ok => ?_⟩
  obtain ⟨t', response, i, ⟨made, found, mem⟩, identified, -, parsed⟩ := identify_identified (Step.run_eq_of_fst ok)
  have only : made ++ c.exchanges = [t] ++ c.exchanges := found.symm.trans noted
  rw [List.append_cancel_right only] at mem
  obtain rfl := List.mem_singleton.1 mem
  exact identified.passed parsed

/-- These transactions are all that one run of a service handed over, oldest first. -/
inductive IsCall (retries : Nat) (call : List Transaction) : Prop
  | identify {withFeatures : Bool} {c : Client}
      (all : ((identify withFeatures).run c).2.exchanges = call.reverse ++ c.exchanges) : IsCall retries call
  | service {reporting : Bool} {request : Request} {c : Client}
      (all : ((transactRepeatedly reporting request retries).run c).2.exchanges = call.reverse ++ c.exchanges) :
      IsCall retries call

/-- A call is one service with its repeats. -/
theorem IsCall.repeats {retries : Nat} {call : List Transaction} (h : IsCall retries call) :
    ∃ request, Transaction.Repeats request retries call := by
  cases h with
  | @identify withFeatures c all =>
    obtain ⟨t, -, noted, request, -, -⟩ := identify_adds c.dialect c.config withFeatures c
    have only : call.reverse = [t] := List.append_cancel_right (all.symm.trans noted)
    obtain rfl : call = [t] := List.reverse_eq_iff.1 only
    exact ⟨.identify, .single request⟩
  | @service reporting request c all =>
    obtain ⟨call', concluded⟩ := transactRepeatedly_concludes c.dialect c.config reporting request retries c
    have same : call.reverse = call'.reverse := List.append_cancel_right (all.symm.trans concluded.exchanges)
    obtain rfl := List.reverse_injective same
    exact ⟨request, concluded.repeats⟩

/-! ## What a step hands over -/

/-- Between the two states these calls were handed to the wire, oldest first. -/
structure HandsOver (dialect : Dialect) (config : Config) (c c' : Client) (calls : List (List Transaction)) : Prop where
  continues : Continues dialect config c c'
  exchanges : c'.exchanges = calls.flatten.reverse ++ c.exchanges
  whole : ∀ call ∈ calls, IsCall config.applicationRetries.toNat call
  served : ∀ call ∈ calls, ∀ t ∈ call, t.before.2.Serves dialect config

theorem Quiet.handsOver (h : Quiet dialect config c c') : HandsOver dialect config c c' [] :=
  ⟨h.continues, h.exchanges, nofun, nofun⟩

theorem HandsOver.trans {xs ys : List (List Transaction)} (h : HandsOver dialect config c d xs)
    (h' : HandsOver dialect config d c' ys) : HandsOver dialect config c c' (xs ++ ys) where
  continues := trans_of _ h.continues h'.continues
  exchanges := by
    rw [h'.exchanges, h.exchanges, List.flatten_append, List.reverse_append, List.append_assoc]
  whole := List.forall_mem_append.2 ⟨h.whole, h'.whole⟩
  served := List.forall_mem_append.2 ⟨h.served, h'.served⟩

theorem HandsOver.quiet {xs : List (List Transaction)} (h : HandsOver dialect config c d xs)
    (h' : Quiet dialect config d c') : HandsOver dialect config c c' xs :=
  List.append_nil xs ▸ h.trans h'.handsOver

/-- Every run of a step that starts from a client of the configuration hands over calls that its result fits. -/
def Sends (dialect : Dialect) (config : Config) (x : Step Client α)
    (P : Except Fault α → List (List Transaction) → Prop) : Prop :=
  ∀ c, c.GoesBy dialect config → ∃ calls, HandsOver dialect config c (x.run c).2 calls ∧ P (x.run c).1 calls

/-! ## Lists of services -/

/-- The call is one of a service among these. -/
def Offers (services : List Service) (call : List Transaction) : Prop := ∀ t ∈ call, t.request.service ∈ services

/-- The calls are of these services, one after the other, and each was made only behind one that passed. -/
inductive Follows : List (List Service) → List (List Transaction) → Prop
  | nil (steps : List (List Service)) : Follows steps []
  | last {step : List Service} {call : List Transaction} (offers : Offers step call) (steps : List (List Service)) :
      Follows (step :: steps) [call]
  | next {step : List Service} {steps : List (List Service)} {call : List Transaction} {calls : List (List Transaction)}
      (offers : Offers step call) (passed : Passes call) (rest : Follows steps calls) :
      Follows (step :: steps) (call :: calls)

/-- The calls are of all these services, and each passed. -/
def Completes : List (List Service) → List (List Transaction) → Prop :=
  List.Forall₂ fun step call => Offers step call ∧ Passes call

section Lists

variable {v w : List (List Service)} {xs ys : List (List Transaction)}

theorem Follows.weaken (h : Follows v xs) (w : List (List Service)) : Follows (v ++ w) xs := by
  induction h with
  | nil steps => exact .nil _
  | last offers steps => exact .last offers _
  | next offers passed rest ih => exact .next offers passed ih

theorem Completes.append (h : Completes v xs) (h' : Completes w ys) : Completes (v ++ w) (xs ++ ys) :=
  List.rel_append h h'

theorem Completes.followed (h : Completes v xs) (h' : Follows w ys) : Follows (v ++ w) (xs ++ ys) := by
  induction h with
  | nil => exact h'
  | cons first rest ih => exact .next first.1 first.2 ih

theorem Completes.follows (h : Completes v xs) : Follows v xs := by
  simpa using h.followed (.nil [])

theorem Completes.passes (h : Completes v xs) {call : List Transaction} (mem : call ∈ xs) : Passes call := by
  induction h with
  | nil => cases mem
  | cons first rest ih =>
    rcases List.mem_cons.1 mem with rfl | mem
    · exact first.2
    · exact ih mem

end Lists

/-- What a step hands over for a list of services. A fault shows where a service was refused for good. -/
structure Performed (steps : List (List Service)) (shows : Fault → Bool) (r : Except Fault α)
    (calls : List (List Transaction)) : Prop where
  follows : Follows steps calls
  completes : ∀ a, r = .ok a → Completes steps calls
  declined : ∀ e call, r = .error e → calls.getLast? = some call → Declines call → shows e = true

namespace Performed

variable {v w steps : List (List Service)} {shows shows' : Fault → Bool} {xs ys calls : List (List Transaction)}
  {r : Except Fault β} {a : α} {e : Fault}

theorem stop (h : Performed v shows (.error e : Except Fault α) xs) (w : List (List Service)) :
    Performed (v ++ w) shows (.error e : Except Fault β) xs where
  follows := h.follows.weaken w
  completes _ := nofun
  declined e' call failed := by
    obtain rfl := Except.error.inj failed
    exact h.declined e call rfl

theorem andThen (h : Performed v shows (.ok a) xs) (h' : Performed w shows r ys) :
    Performed (v ++ w) shows r (xs ++ ys) where
  follows := (h.completes a rfl).followed h'.follows
  completes b ok := (h.completes a rfl).append (h'.completes b ok)
  declined e call failed last declines := by
    rcases List.eq_nil_or_concat ys with rfl | ⟨front, final, rfl⟩
    · rw [List.append_nil] at last
      exact absurd declines ((h.completes a rfl).passes (List.mem_of_getLast? last)).not_declines
    · refine h'.declined e call failed ?_ declines
      simpa [← List.append_assoc] using last

theorem mono (h : Performed steps shows r calls) (weaker : ∀ e, shows e = true → shows' e = true) :
    Performed steps shows' r calls where
  follows := h.follows
  completes := h.completes
  declined e call failed last declines := weaker e (h.declined e call failed last declines)

/-- Success has no fault to show. -/
theorem of_ok (h : Performed steps shows (.ok a) calls) : Performed steps shows' (.ok a) calls where
  follows := h.follows
  completes := h.completes
  declined _ _ := nofun

end Performed

/-- A step hands over these services in their order. -/
abbrev Performs (dialect : Dialect) (config : Config) (steps : List (List Service)) (shows : Fault → Bool)
    (x : Step Client α) : Prop := Sends dialect config x (Performed steps shows)

namespace Performs

variable {v w steps : List (List Service)} {shows shows' : Fault → Bool} {x y : Step Client α} {f : α → Step Client β}

theorem silent (h : Moves (Quiet dialect config) x) : Performs dialect config [] shows x := by
  intro c _
  refine ⟨[], (h c).handsOver, .nil [], fun _ _ => .nil, ?_⟩
  intro e call _ last
  cases last

theorem mono (h : Performs dialect config steps shows x) (weaker : ∀ e, shows e = true → shows' e = true) :
    Performs dialect config steps shows' x := by
  intro c goes
  obtain ⟨calls, handed, performed⟩ := h c goes
  exact ⟨calls, handed, performed.mono weaker⟩

theorem bind (hx : Performs dialect config v shows x) (hf : ∀ a, Performs dialect config w shows (f a)) :
    Performs dialect config (v ++ w) shows (x >>= f) := by
  intro c goes
  obtain ⟨xs, handed, performed⟩ := hx c goes
  rw [Step.run_bind]
  rcases hr : x.run c with ⟨r, d⟩
  rw [hr] at handed performed
  cases r with
  | error e => exact ⟨xs, handed, performed.stop w⟩
  | ok a =>
    obtain ⟨ys, handed', performed'⟩ := hf a d (handed.continues.goesBy goes)
    exact ⟨xs ++ ys, handed.trans handed', performed.andThen performed'⟩

/-- What comes before the services hands nothing over. -/
theorem before (hx : Moves (Quiet dialect config) x) (hf : ∀ a, Performs dialect config w shows (f a)) :
    Performs dialect config w shows (x >>= f) :=
  (silent hx).bind hf

/-- What comes after the services hands nothing over. -/
theorem after (hx : Performs dialect config v shows x) (hf : ∀ a, Moves (Quiet dialect config) (f a)) :
    Performs dialect config v shows (x >>= f) := by
  simpa using hx.bind fun a => silent (hf a)

theorem get_bind {f : Client → Step Client α}
    (hf : ∀ c, c.GoesBy dialect config → Performs dialect config steps shows (f c)) :
    Performs dialect config steps shows (get >>= f) :=
  fun c goes => hf c goes c goes

theorem ite {p : Prop} [Decidable p] (hx : Performs dialect config steps shows x)
    (hy : Performs dialect config steps shows y) : Performs dialect config steps shows (if p then x else y) := by
  split
  · exact hx
  · exact hy

/-- A service after which a fault is reported in another way, but reported. -/
theorem rescue {f : Except Fault α → Step Client β} (hx : Performs dialect config v shows x)
    (hf : ∀ r, Moves (Quiet dialect config) (f r))
    (fails : ∀ e, Establishes (fun _ => True) (f (.error e)) fun _ => False) :
    Performs dialect config v (fun _ => true) (x.outcome >>= f) := by
  intro c goes
  obtain ⟨xs, handed, performed⟩ := hx c goes
  rw [Step.run_outcome_bind]
  rcases hr : x.run c with ⟨r, d⟩
  rw [hr] at handed performed
  refine ⟨xs, handed.quiet (hf r d), performed.follows, fun b ok => ?_, fun _ _ _ _ _ => rfl⟩
  cases r with
  | ok a => exact performed.completes a rfl
  | error e => exact (fails e d b _ trivial (Step.run_eq_of_fst ok)).elim

/-- What is checked first may fail, and then nothing is handed over. -/
theorem throw_bind (e : Fault) (f : α → Step Client β) :
    Performs dialect config steps shows ((throw e : Step Client α) >>= f) := by
  intro c _
  refine ⟨[], (refl_of (Quiet dialect config) c).handsOver, .nil steps, fun _ ok => ?_, ?_⟩
  · cases ok
  · intro e' call _ last
    cases last

end Performs

/-- A service with as many repeats as the configuration allows. -/
def called (reporting : Bool) (request : Request) : Step Client Bytes := do
  transactRepeatedly reporting request (← get).config.applicationRetries.toNat

/-- A service with its repeats is a call. -/
theorem called_concludes (goes : c.GoesBy dialect config) (reporting : Bool) (request : Request) :
    ∃ call, HandsOver dialect config c ((called reporting request).run c).2 [call] ∧
      Concludes dialect config reporting request config.applicationRetries.toNat c ((called reporting request).run c).1
        ((called reporting request).run c).2 call := by
  have same : c.config.applicationRetries = config.applicationRetries := by rw [goes.configured]
  unfold called
  rw [Step.run_get_bind, same]
  obtain ⟨call, concluded⟩ :=
    transactRepeatedly_concludes dialect config reporting request config.applicationRetries.toNat c
  refine ⟨call, ⟨concluded.continues, ?_, ?_, ?_⟩, concluded⟩
  · simpa using concluded.exchanges
  · exact List.forall_mem_singleton.2 (.service concluded.exchanges)
  · exact List.forall_mem_singleton.2 (concluded.served goes)

theorem Concludes.offers {r : Except Fault Bytes} {retries : Nat} {call : List Transaction} {services : List Service}
    (h : Concludes dialect config reporting request retries c r c' call) (among : request.service ∈ services) :
    Offers services call := by
  intro t mem
  rw [h.repeats.same t mem]
  exact among

/-- **A service** is performed by running it. -/
theorem transact_performs {services : List Service} (among : request.service ∈ services) :
    Performs dialect config [services] isNok (transact request) := by
  intro c goes
  obtain ⟨call, handed, concluded⟩ := called_concludes goes false request
  refine ⟨[call], handed, .last (concluded.offers among) [], fun results ok => ?_, ?_⟩
  · exact .cons ⟨concluded.offers among, concluded.passed rfl results ok⟩ .nil
  · intro e last failed found
    obtain rfl : call = last := Option.some.inj found
    exact concluded.declined e failed

theorem identify_performs (withFeatures : Bool) :
    Performs dialect config [[.identify]] (fun _ => true) (identify withFeatures) := by
  intro c goes
  obtain ⟨t, continued, noted, request, wire, passed⟩ := identify_adds dialect config withFeatures c
  have offers : Offers [.identify] [t] := by
    intro t' mem
    obtain rfl := List.mem_singleton.1 mem
    rw [request]
    decide
  refine ⟨[[t]], ⟨continued, noted, ?_, ?_⟩, .last offers [], fun _ ok => ?_, fun _ _ _ _ _ => rfl⟩
  · exact List.forall_mem_singleton.2 (.identify noted)
  · exact List.forall_mem_singleton.2 (List.forall_mem_singleton.2 (wire ▸ goes.wired))
  · exact .cons ⟨offers, t, rfl, passed ok⟩ .nil

end Client

end Metering
