import Metering.Proofs.Nonces

set_option autoImplicit false

/-! # Vectors over the life of a key

Three sources compete for the next vector: the choice of a caller, the clock cut to 32 bits, and the
successor of the last one. Whatever the clock does, whatever is chosen and whatever is sealed in
between, the vectors given out go up (`SecurityContext.vectors_increase`). What carries this through
all uses is that the last vector of the context is the last, and so the largest, of all that were
given out (`SecurityContext.Remembers`). -/

namespace Metering.SecurityContext

/-! ## Uses of a context -/

/-- What is done with a context, short of wiping it. -/
inductive Use where
  | takeVector
  | choose (iv : UInt32)
  /-- The clock shows any other time, also an earlier one. -/
  | setClock (seconds : UInt64)
  | sealBody (cleartext body : Bytes)
  deriving DecidableEq, Repr

/-- What a use gives. -/
inductive Use.Result where
  | vector (iv : UInt32)
  | sealed (bytes : Bytes)
  | nothing
  deriving DecidableEq, Repr

/-- The use as a step of the context. -/
def Use.step : Use → Step SecurityContext Use.Result
  | takeVector => return .vector (← nextVector)
  | choose iv => do
    modify (SecurityContext.choose iv)
    return .nothing
  | setClock seconds => do
    modify ({ · with clock := seconds })
    return .nothing
  | sealBody cleartext body => return .sealed ((← get).eax.sealWithTag cleartext body)

/-- The vector that a use gives out. -/
def Use.vector? (u : Use) (c : SecurityContext) : Option UInt32 :=
  match (u.step.run c).1 with
  | .ok (.vector iv) => some iv
  | _ => none

/-- The context after some uses. -/
def after (c : SecurityContext) (uses : List Use) : SecurityContext :=
  uses.foldl (fun c u => (u.step.run c).2) c

/-- The vectors given out in the course of some uses, oldest first. -/
def given (c : SecurityContext) : List Use → List UInt32
  | [] => []
  | u :: rest => (u.vector? c).toList ++ given (u.step.run c).2 rest

/-- The vectors given out up to the end of some uses, oldest first. Of those before the uses a
context knows the last one only. -/
def past (c : SecurityContext) (uses : List Use) : List UInt32 := c.lastVector.toList ++ c.given uses

/-! ## One vector more -/

/-- A vector is refused exactly when the largest one was the last. -/
theorem nextVector_error_iff {c : SecurityContext} {e : Fault} :
    (nextVector.run c).1 = .error e ↔ e = .security .vectorsExhausted ∧ c.lastVector = some 0xFFFFFFFF := by
  unfold nextVector
  rw [Step.run_get_bind, Step.run_set_bind]
  cases last : c.lastVector with
  | none => exact ⟨fun h => (nomatch h), fun h => (nomatch h.2)⟩
  | some v =>
    dsimp only
    by_cases used : c.candidate ≤ v
    · rw [if_pos used]
      by_cases largest : v = 0xFFFFFFFF
      · rw [if_pos largest, largest]
        exact ⟨fun h => ⟨(Except.error.inj h).symm, rfl⟩, fun h => h.1 ▸ rfl⟩
      · rw [if_neg largest]
        exact ⟨fun h => (nomatch h), fun h => absurd (Option.some.inj h.2) largest⟩
    · -- nothing comes after the largest vector
      rw [if_neg used]
      refine ⟨fun h => (nomatch h), fun h => absurd ?_ used⟩
      rw [Option.some.inj h.2]
      exact UInt32.le_iff_toNat_le.2 (Nat.le_of_lt_succ c.candidate.toNat_lt)

/-- A context remembers the vectors given out so far by the last of them. -/
structure Remembers (c : SecurityContext) (past : List UInt32) : Prop where
  increasing : past.Pairwise (· < ·)
  last : c.lastVector = past.getLast?

namespace Remembers

variable {c : SecurityContext} {past : List UInt32}

theorem exists_last (h : c.Remembers past) {v : UInt32} (hv : v ∈ past) : ∃ last, c.lastVector = some last :=
  ⟨_, h.last.trans (List.getLast?_eq_some_getLast (List.ne_nil_of_mem hv))⟩

/-- Every vector given out is at most the last one. -/
theorem le_last (h : c.Remembers past) {v last : UInt32} (hv : v ∈ past) (hlast : c.lastVector = some last) :
    v ≤ last := by
  obtain ⟨front, rfl⟩ := List.getLast?_eq_some_iff.1 (h.last.symm.trans hlast)
  rcases List.mem_append.1 hv with earlier | here
  · exact UInt32.le_of_lt ((List.pairwise_append.1 h.increasing).2.2 v earlier last (List.mem_singleton_self last))
  · exact UInt32.le_of_eq (List.mem_singleton.1 here)

/-- A vector above the last one is above all. -/
theorem snoc (h : c.Remembers past) {c' : SecurityContext} {iv : UInt32} (kept : c'.lastVector = some iv)
    (above : ∀ last, c.lastVector = some last → last < iv) : c'.Remembers (past ++ [iv]) where
  increasing := by
    refine List.pairwise_append.2 ⟨h.increasing, List.pairwise_singleton _ _, ?_⟩
    intro v hv w hw
    obtain rfl := List.mem_singleton.1 hw
    obtain ⟨last, hlast⟩ := h.exists_last hv
    exact UInt32.lt_of_le_of_lt (h.le_last hv hlast) (above last hlast)
  last := kept.trans List.getLast?_concat.symm

/-- The largest vector was given out exactly when it is the last one. -/
theorem largest_mem_iff (h : c.Remembers past) : 0xFFFFFFFF ∈ past ↔ c.lastVector = some 0xFFFFFFFF := by
  constructor
  · intro mem
    obtain ⟨last, hlast⟩ := h.exists_last mem
    have above : (0xFFFFFFFF : UInt32) ≤ last := h.le_last mem hlast
    have below : last ≤ 0xFFFFFFFF := UInt32.le_iff_toNat_le.2 (Nat.le_of_lt_succ last.toNat_lt)
    rw [hlast, UInt32.le_antisymm below above]
  · intro largest
    exact List.mem_of_getLast? (h.last.symm.trans largest)

/-- What gives out no vector leaves the last one. -/
theorem still (h : c.Remembers past) {c' : SecurityContext} (kept : c'.lastVector = c.lastVector) :
    c'.Remembers (past ++ []) := by
  rw [List.append_nil]
  exact ⟨h.increasing, kept.trans h.last⟩

/-- **One use** leaves a context that remembers the vectors before and the one it gave out. -/
theorem use (h : c.Remembers past) (u : Use) :
    (u.step.run c).2.Remembers (past ++ (u.vector? c).toList) := by
  cases u with
  | takeVector =>
    unfold Use.vector? Use.step
    rw [Step.run_bind]
    rcases nextVector_run c with ⟨kept, e, refused⟩ | ⟨iv, made, kept, above⟩
    · rw [Step.run_eq_of_fst refused]
      exact h.still kept
    · rw [Step.run_eq_of_fst made]
      exact h.snoc kept above
  | choose iv => exact h.still rfl
  | setClock seconds => exact h.still rfl
  | sealBody cleartext body => exact h.still rfl

theorem uses (h : c.Remembers past) (uses : List Use) : (c.after uses).Remembers (past ++ c.given uses) := by
  induction uses generalizing c past with
  | nil => simpa [after, given] using h
  | cons u rest ih =>
    rw [given, ← List.append_assoc]
    exact ih (h.use u)

end Remembers

/-! ## All uses of a context -/

/-- A context remembers all vectors that were given out. -/
theorem remembers_past (c : SecurityContext) (uses : List Use) : (c.after uses).Remembers (c.past uses) := by
  refine Remembers.uses ⟨?_, ?_⟩ uses
  · cases c.lastVector <;> simp
  · cases c.lastVector <;> rfl

/-- A context that has nothing left to give out stays so. -/
theorem exhausted_later {c : SecurityContext} (h : c.lastVector = some 0xFFFFFFFF) (uses : List Use) :
    (c.after uses).lastVector = some 0xFFFFFFFF := by
  refine (c.remembers_past uses).largest_mem_iff.1 ?_
  rw [past, h]
  exact List.mem_append_left _ (List.mem_singleton_self _)

/-- **Vectors never repeat.** Those that a context gives out go up, whatever is chosen, whatever the
clock shows and whatever is sealed in between. A call fails exactly when the largest vector was given
out before; the failure says that the vectors are exhausted and leaves the last one as it was, and
every later call fails in the same way. -/
theorem vectors_increase (c : SecurityContext) (uses : List Use) :
    (c.past uses).Pairwise (· < ·) ∧
      (∀ e, (nextVector.run (c.after uses)).1 = .error e ↔
        e = .security .vectorsExhausted ∧ 0xFFFFFFFF ∈ c.past uses) ∧
      ∀ e, (nextVector.run (c.after uses)).1 = .error e →
        (nextVector.run (c.after uses)).2.lastVector = (c.after uses).lastVector ∧
          ∀ more, (nextVector.run (c.after (uses ++ .takeVector :: more))).1 = .error e := by
  have remembers := c.remembers_past uses
  refine ⟨remembers.increasing, fun e => ?_, fun e failed => ?_⟩
  · rw [nextVector_error_iff, remembers.largest_mem_iff]
  · obtain ⟨rfl, largest⟩ := nextVector_error_iff.1 failed
    have kept : (nextVector.run (c.after uses)).2.lastVector = (c.after uses).lastVector := by
      rcases nextVector_run (c.after uses) with ⟨kept, -⟩ | ⟨iv, made, -⟩
      · exact kept
      · exact absurd (failed.symm.trans made) (by simp)
    refine ⟨kept, fun more => nextVector_error_iff.2 ⟨rfl, ?_⟩⟩
    rw [after, List.foldl_append]
    exact exhausted_later largest (.takeVector :: more)

/-- A context without a past whose clock shows the largest vector. -/
def lastSecond : SecurityContext where
  key := ⟨List.replicate 16 0x11⟩
  keyId := 2
  eax := .ofCipher (Aes.cipher (Block.ofBytes (List.replicate 16 0x11))).encrypt
  lastVector := none
  chosenVector := none
  clock := 0x1FFFFFFFF

/-- After the largest vector neither a choice nor a clock that was set back gives another one. -/
theorem vectors_increase_lastSecond :
    lastSecond.past [.takeVector] = [0xFFFFFFFF] ∧
      (nextVector.run (lastSecond.after [.takeVector])).1 = .error (.security .vectorsExhausted) ∧
      ∀ iv seconds, (nextVector.run (lastSecond.after
        [.takeVector, .takeVector, .choose iv, .setClock seconds])).1 = .error (.security .vectorsExhausted) := by
  have past : lastSecond.past [.takeVector] = [0xFFFFFFFF] := by decide
  obtain ⟨-, fails, later⟩ := vectors_increase lastSecond [.takeVector]
  have failed := (fails _).2 ⟨rfl, past ▸ List.mem_singleton_self _⟩
  exact ⟨past, failed, fun iv seconds => (later _ failed).2 [.choose iv, .setClock seconds]⟩

end Metering.SecurityContext
