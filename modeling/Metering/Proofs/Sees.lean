import Metering.Proofs.Steps

set_option autoImplicit false

/-! # Steps that see part of the state

Which part of a state is seen is said by a function that blanks the rest. A step sees no more than that part if it
gives the same result with the rest blanked, and leaves the same part behind (`Step.Sees`). So it does the same in all
states that share the part (`Step.Sees.alike`), and what is put together from such steps is one, too. -/

namespace Metering.Step

variable {σ α β : Type}

/-- What is blanked stays blank. -/
class Blanks (f : σ → σ) : Prop where
  twice (s : σ) : f (f s) = f s

/-- What a step does depends on nothing that is blanked. -/
def Sees (f : σ → σ) (x : Step σ α) : Prop :=
  ∀ s, (x.run (f s)).1 = (x.run s).1 ∧ f (x.run (f s)).2 = f (x.run s).2

namespace Sees

variable {f : σ → σ} {x : Step σ α} {g : α → Step σ β}

/-- States that share the part are left sharing it. -/
theorem alike (h : Sees f x) {s s' : σ} (same : f s = f s') :
    (x.run s).1 = (x.run s').1 ∧ f (x.run s).2 = f (x.run s').2 := by
  obtain ⟨result, left⟩ := h s
  obtain ⟨result', left'⟩ := h s'
  rw [same] at result left
  exact ⟨result.symm.trans result', left.symm.trans left'⟩

theorem bind (h : Sees f x) (hg : ∀ a, Sees f (g a)) : Sees f (x >>= g) := by
  intro s
  obtain ⟨result, left⟩ := h s
  rw [run_bind, run_bind]
  rcases hs : x.run s with ⟨r, t⟩
  rcases hb : x.run (f s) with ⟨r', t'⟩
  rw [hs, hb] at result left
  obtain rfl : r' = r := result
  cases r' with
  | ok a => exact (hg a).alike left
  | error e => exact ⟨rfl, left⟩

/-- A step that starts by reading the state may use what is seen of it. -/
theorem get_bind {k : σ → Step σ α} (same : ∀ s, k (f s) = k s) (hk : ∀ s, Sees f (k s)) :
    Sees f (MonadState.get >>= k) := by
  intro s
  rw [run_get_bind, run_get_bind, same]
  exact hk s s

theorem modify {k : σ → σ} (h : ∀ s, f (k (f s)) = f (k s)) : Sees f (modify k : Step σ PUnit) :=
  fun s => ⟨rfl, h s⟩

theorem outcome (h : Sees f x) : Sees f x.outcome := by
  intro s
  obtain ⟨result, left⟩ := h s
  rw [run_outcome, run_outcome, result]
  exact ⟨rfl, left⟩

theorem ite {c : Prop} [Decidable c] {y : Step σ α} (hx : Sees f x) (hy : Sees f y) : Sees f (if c then x else y) := by
  split
  · exact hx
  · exact hy

/-! ## Steps that leave the state alone -/

variable [Blanks f]

theorem pure (a : α) : Sees f (Pure.pure a : Step σ α) := fun s => ⟨rfl, Blanks.twice s⟩

theorem throw (e : Fault) : Sees f (MonadExcept.throw e : Step σ α) := fun s => ⟨rfl, Blanks.twice s⟩

/-- What stands behind a fault is not reached. -/
theorem throw_bind (e : Fault) (g : α → Step σ β) : Sees f ((MonadExcept.throw e : Step σ α) >>= g) :=
  fun s => ⟨rfl, Blanks.twice s⟩

theorem ofExcept (r : Except Fault α) : Sees f (ofExcept r : Step σ α) := by
  cases r with
  | ok a => exact pure a
  | error e => exact throw e

/-! ## Loops -/

theorem repeatUpTo {next : α → Step σ (α ⊕ β)} (h : ∀ a, Sees f (next a)) (fuel : Nat) (a : α) :
    Sees f (repeatUpTo next fuel a) := by
  induction fuel generalizing a with
  | zero => exact throw _
  | succ fuel ih =>
    refine bind (h a) fun r => ?_
    cases r with
    | inl a => exact ih a
    | inr b => exact pure b

theorem repeatUntilFewer {answers : σ → Nat} {next : α → Step σ (α ⊕ β)} {again : α → Step σ β}
    (same : ∀ s, answers (f s) = answers s) (h : ∀ a, Sees f (next a)) (hagain : ∀ a, Sees f (again a))
    (left fuel : Nat) (a : α) : Sees f (repeatUntilFewer answers next again left fuel a) := by
  induction fuel generalizing a with
  | zero => exact throw _
  | succ fuel ih =>
    refine bind (h a) fun r => ?_
    cases r with
    | inl a =>
      refine get_bind (fun s => ?_) fun s => ite (hagain a) (ih a)
      rw [same]
    | inr b => exact pure b

theorem repeatWhileFed {answers waiting : σ → Nat} {next : α → Step σ (α ⊕ β)}
    (same : ∀ s, answers (f s) = answers s) (same' : ∀ s, waiting (f s) = waiting s) (h : ∀ a, Sees f (next a))
    (rounds : Nat) (a : α) : Sees f (repeatWhileFed answers waiting next rounds a) := by
  induction rounds generalizing a with
  | zero =>
    refine get_bind (fun s => ?_) fun s => repeatUntilFewer same h (fun _ => throw _) _ _ a
    rw [same, same']
  | succ rounds ih =>
    refine get_bind (fun s => ?_) fun s => repeatUntilFewer same h ih _ _ a
    rw [same, same']

end Sees

end Metering.Step
