import Metering.Proofs.Contents
import Metering.Proofs.Reports

set_option autoImplicit false

/-! # Outcomes of services

A service is handed over, again where the meter was busy, and what it gives is what the last answer says
(`Client.Called`), unless the wait for a busy meter failed. What a meter takes all of these transactions for is one
request for a table (`Transaction.Tries`). -/

namespace Metering

namespace Transaction

/-- These transactions are one request for a table, handed over again only where the meter was busy. -/
structure Tries (q : TableRequest) (busy : List Transaction) (t : Transaction) : Prop where
  same : ∀ u ∈ busy ++ [t], TableRequest.ofBytes u.request.bytes = some q
  waited : ∀ u ∈ busy, u.FoundBusy

variable {q : TableRequest} {busy made made' : List Transaction} {t : Transaction}

@[simp] theorem supplied_append (made made' : List Transaction) :
    supplied (made ++ made') = supplied made ++ supplied made' :=
  List.flatMap_append

/-- A busy meter supplies nothing. -/
theorem Tries.supplied_eq (h : Tries q busy t) : supplied (busy ++ [t]) = t.supply?.getD [] := by
  have nothing : supplied busy = [] :=
    List.flatMap_eq_nil_iff.2 fun u mem => by rw [(h.waited u mem).supply?_eq]; rfl
  rw [supplied_append, nothing]
  exact List.flatMap_singleton _ _

/-- A meter that is never busy is asked once. -/
theorem Tries.alone (h : Tries q busy t) (idle : ∀ u ∈ busy ++ [t], ¬ u.FoundBusy) : busy = [] := by
  refine List.eq_nil_iff_forall_not_mem.2 fun u mem => ?_
  exact idle u (List.mem_append_left _ mem) (h.waited u mem)

end Transaction

namespace Client

open Transaction (Tries)

variable {c c' : Client} {request : Request}

/-- One run of a service: it was handed over, again where the meter was busy, and what it gives is what the last answer
says, unless the wait for a busy meter failed. -/
structure Called (request : Request) (c : Client) (r : Except Fault Bytes) (c' : Client) (busy : List Transaction)
    (t : Transaction) : Prop where
  exchanges : c'.exchanges = (busy ++ [t]).reverse ++ c.exchanges
  same : ∀ u ∈ busy ++ [t], u.request = request
  waited : ∀ u ∈ busy, u.FoundBusy
  ended : (r = t.results ∧ c'.channel = t.after.1) ∨ (t.FoundBusy ∧ ∃ e, r = .error e)

theorem Called.tries {r : Except Fault Bytes} {busy : List Transaction} {t : Transaction} {q : TableRequest}
    (h : Called request c r c' busy t) (asks : TableRequest.ofBytes request.bytes = some q) : Tries q busy t where
  same u mem := by rw [h.same u mem, asks]
  waited := h.waited

theorem exchange_recorded (reporting : Bool) (request : Request) (c : Client) :
    ∃ t : Transaction, ((exchange reporting request).run c).2.exchanges = t :: c.exchanges ∧ t.request = request ∧
      t.result = ((exchange reporting request).run c).1 ∧ t.after.1 = ((exchange reporting request).run c).2.channel := by
  have carried : Quiet c.dialect c.config c ((carry reporting request.bytes).run c).2 :=
    carry_frame wireFrame_quiet reporting trivial c
  rcases hr : (carry reporting request.bytes).run c with ⟨r, d⟩
  rw [hr] at carried
  unfold exchange note
  rw [Step.run_get_bind, Step.run_outcome_bind, hr, Step.run_modify_bind, Step.run_ofExcept]
  exact ⟨⟨request, r, (c.channel, c.wire), (d.channel, d.wire)⟩, congrArg _ carried.exchanges, rfl, rfl, rfl⟩

/-- A service that is not handed over again gives what its answer says. -/
theorem Called.once {r : Except Fault Bytes} {t : Transaction} (noted : c'.exchanges = t :: c.exchanges)
    (same : t.request = request) (result : t.results = r) (channel : t.after.1 = c'.channel) :
    Called request c r c' [] t where
  exchanges := noted
  same := List.forall_mem_singleton.2 same
  waited := List.forall_mem_nil _
  ended := .inl ⟨result.symm, channel.symm⟩

/-- **A run of a service** ends with its last answer, or while it waits for a busy meter. -/
theorem transactRepeatedly_called (reporting : Bool) (request : Request) (retries : Nat) (c : Client) :
    ∃ busy t, Called request c ((transactRepeatedly reporting request retries).run c).1
      ((transactRepeatedly reporting request retries).run c).2 busy t := by
  induction retries generalizing c with
  | zero =>
    obtain ⟨t, noted, same, result, channel⟩ := exchange_recorded reporting request c
    have results : t.results = ((exchange reporting request).run c).1 >>= Response.results :=
      congrArg (· >>= Response.results) result
    unfold transactRepeatedly
    rw [Step.run_bind]
    rcases hx : (exchange reporting request).run c with ⟨e | response, d⟩
    all_goals rw [hx] at noted results channel
    · exact ⟨[], t, .once noted same results channel⟩
    · dsimp only
      rw [Step.run_ofExcept]
      exact ⟨[], t, .once noted same results channel⟩
  | succ retries ih =>
    obtain ⟨t, noted, same, result, channel⟩ := exchange_recorded reporting request c
    have results : t.results = ((exchange reporting request).run c).1 >>= Response.results :=
      congrArg (· >>= Response.results) result
    unfold transactRepeatedly
    rw [Step.run_bind]
    rcases hx : (exchange reporting request).run c with ⟨e | response, d⟩
    all_goals rw [hx] at noted result results channel
    · exact ⟨[], t, .once noted same results channel⟩
    replace results : t.results = Response.results response := results
    dsimp only
    rcases hr : Response.results response with e | found
    · dsimp only
      split
      · exact ⟨[], t, .once noted same (results.trans hr) channel⟩
      next again =>
        have busy : t.FoundBusy := Transaction.foundBusy_of_results result hr (by simpa using again)
        rw [Step.run_get_bind, Step.run_bind]
        have quiet : Quiet d.dialect d.config d ((onChannel (Channel.sleep d.config.applicationRetryDelay)).run d).2 :=
          onChannel_quiet _ d
        have waited := quiet.exchanges
        rcases hs : (onChannel (Channel.sleep d.config.applicationRetryDelay)).run d with ⟨e' | _, d'⟩
        all_goals rw [hs] at waited
        · refine ⟨[], t, ?_, List.forall_mem_singleton.2 same, List.forall_mem_nil _, .inr ⟨busy, e', rfl⟩⟩
          exact waited.trans noted
        · obtain ⟨more, last, called⟩ := ih d'
          refine ⟨t :: more, last, ?_, List.forall_mem_cons.2 ⟨same, called.same⟩,
            List.forall_mem_cons.2 ⟨busy, called.waited⟩, called.ended⟩
          dsimp only
          rw [called.exchanges, waited, noted]
          simp
    · exact ⟨[], t, .once noted same (results.trans hr) channel⟩

theorem transactReporting_called (request : Request) (c : Client) :
    ∃ busy t, Called request c ((transactReporting request).run c).1 ((transactReporting request).run c).2 busy t :=
  transactRepeatedly_called true request _ c

theorem transact_called (request : Request) (c : Client) :
    ∃ busy t, Called request c ((transact request).run c).1 ((transact request).run c).2 busy t :=
  transactRepeatedly_called false request _ c

end Client

end Metering
