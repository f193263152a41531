import Mathlib.Order.Defs.Unbundled
import Metering.Step

set_option autoImplicit false

/-! # Reasoning about steps

Two ways to reason about a step. A run that ended in a known way is taken apart into the runs of
its parts (`run_bind_ok`, `run_within_eq`). What every run respects, whether it succeeds or fails, is
a relation between the state before and the state after (`Step.Moves`): it holds of a sequence as
soon as it holds of the parts, and of a loop as soon as it holds of a round.
A part of the state that a step leaves alone is the relation `Same`. -/

namespace Metering.Step

variable {σ τ α β γ : Type}

/-! ## Runs of the basic steps -/

@[simp] theorem run_get (s : σ) : (get : Step σ σ).run s = (.ok s, s) := rfl

@[simp] theorem run_set (s' s : σ) : (set s' : Step σ PUnit).run s = (.ok ⟨⟩, s') := rfl

@[simp] theorem run_modify (f : σ → σ) (s : σ) : (modify f : Step σ PUnit).run s = (.ok ⟨⟩, f s) := rfl

@[simp] theorem run_ofExcept (r : Except Fault α) (s : σ) : (ofExcept r : Step σ α).run s = (r, s) := by
  cases r <;> rfl

@[simp] theorem run_get_bind (f : σ → Step σ α) (s : σ) : (get >>= f).run s = (f s).run s := rfl

@[simp] theorem run_set_bind (s' : σ) (f : PUnit → Step σ α) (s : σ) :
    (set s' >>= f).run s = (f ⟨⟩).run s' := rfl

@[simp] theorem run_modify_bind (g : σ → σ) (f : PUnit → Step σ α) (s : σ) :
    (modify g >>= f).run s = (f ⟨⟩).run (g s) := rfl

@[simp] theorem run_pure_bind (a : α) (f : α → Step σ β) (s : σ) :
    (pure a >>= f).run s = (f a).run s := rfl

@[simp] theorem run_throw_bind (e : Fault) (f : α → Step σ β) (s : σ) :
    ((throw e : Step σ α) >>= f).run s = (.error e, s) := rfl

@[simp] theorem run_outcome_bind (x : Step σ α) (f : Except Fault α → Step σ β) (s : σ) :
    (x.outcome >>= f).run s = (f (x.run s).1).run (x.run s).2 := rfl

/-! ## Runs taken apart -/

theorem run_throw_ne_ok {e : Fault} {s s' : σ} {a : α} : (throw e : Step σ α).run s ≠ (.ok a, s') :=
  fun h => nomatch (Prod.mk.inj h).1

/-- A sequence without state that succeeds is a success of both parts. -/
theorem except_bind_ok {x : Except Fault α} {f : α → Except Fault β} {b : β} :
    (x >>= f) = .ok b ↔ ∃ a, x = .ok a ∧ f a = .ok b := by
  cases x with
  | ok a =>
    constructor
    · intro h
      exact ⟨a, rfl, h⟩
    · rintro ⟨a', h, hf⟩
      obtain rfl := Except.ok.inj h
      exact hf
  | error e =>
    constructor
    · intro h
      cases h
    · rintro ⟨a, h, -⟩
      cases h

theorem except_ok_of_toOption {x : Except Fault α} {a : α} (h : x.toOption = some a) : x = .ok a := by
  cases x with
  | ok a' => exact congrArg Except.ok (Option.some.inj h)
  | error e => cases h

/-- A sequence without state that fails is a failure of one of its parts. -/
theorem except_bind_error {x : Except Fault α} {f : α → Except Fault β} {e : Fault} (h : (x >>= f) = .error e) :
    x = .error e ∨ ∃ a, x = .ok a ∧ f a = .error e := by
  cases x with
  | ok a => exact .inr ⟨a, rfl, h⟩
  | error e' => exact .inl (congrArg Except.error (Except.error.inj h))

/-- A sequence that succeeds is a success of both parts. -/
theorem run_bind_ok {x : Step σ α} {f : α → Step σ β} {s s' : σ} {b : β} :
    (x >>= f).run s = (.ok b, s') ↔
      ∃ a t, x.run s = (.ok a, t) ∧ (f a).run t = (.ok b, s') := by
  rw [run_bind]
  rcases hx : x.run s with ⟨r, t⟩
  cases r with
  | ok a =>
    constructor
    · intro h
      exact ⟨a, t, rfl, h⟩
    · rintro ⟨a', t', h, hf⟩
      obtain ⟨ha, rfl⟩ := Prod.mk.inj h
      obtain rfl := Except.ok.inj ha
      exact hf
  | error e => simp

/-- A check that is passed gives what stands behind it. -/
theorem run_ofExcept_bind_ok {r : Except Fault α} {f : α → Step σ β} {s s' : σ} {b : β} :
    (ofExcept r >>= f : Step σ β).run s = (.ok b, s') ↔ ∃ a, r = .ok a ∧ (f a).run s = (.ok b, s') := by
  cases r with
  | ok a =>
    constructor
    · intro h
      exact ⟨a, rfl, h⟩
    · rintro ⟨a', same, h⟩
      obtain rfl := Except.ok.inj same
      exact h
  | error e =>
    constructor
    · intro h
      cases (Prod.mk.inj h).1
    · rintro ⟨a, none, -⟩
      cases none

/-- The run of a sequence after a first part whose run is known. -/
theorem run_bind_of_ok {x : Step σ α} {f : α → Step σ β} {s t : σ} {a : α}
    (h : x.run s = (.ok a, t)) : (x >>= f).run s = (f a).run t := by
  rw [run_bind, h]

theorem run_bind_of_error {x : Step σ α} {f : α → Step σ β} {s t : σ} {e : Fault}
    (h : x.run s = (.error e, t)) : (x >>= f).run s = (.error e, t) := by
  rw [run_bind, h]

theorem run_eq_of_fst {x : Step σ α} {s : σ} {r : Except Fault α} (h : (x.run s).1 = r) :
    x.run s = (r, (x.run s).2) :=
  Prod.ext h rfl

/-- A step of an inner layer is a run of that layer, and its state is put back. -/
theorem run_within_eq {get : τ → σ} {set : τ → σ → τ} {x : Step σ α} {t t' : τ}
    {r : Except Fault α} :
    (within get set x).run t = (r, t') ↔ ∃ s', x.run (get t) = (r, s') ∧ t' = set t s' := by
  rw [run_within]
  constructor
  · intro h
    obtain ⟨hr, ht⟩ := Prod.mk.inj h
    exact ⟨(x.run (get t)).2, Prod.ext hr rfl, ht.symm⟩
  · rintro ⟨s', h, rfl⟩
    rw [h]

/-! ## What every run respects -/

/-- Every run of a step, whether it succeeds or fails, leads from a state to a related one. -/
def Moves (R : σ → σ → Prop) (x : Step σ α) : Prop := ∀ s, R s (x.run s).2

/-- The part of a state that `f` shows is unchanged. -/
abbrev Same (f : σ → γ) : σ → σ → Prop := fun s s' => f s' = f s

instance (f : σ → γ) : IsPreorder σ (Same f) where
  refl _ := rfl
  trans _ _ _ h h' := h'.trans h

/-- What held before holds after. -/
abbrev Preserves (P : σ → Prop) : σ → σ → Prop := fun s s' => P s → P s'

instance (P : σ → Prop) : IsPreorder σ (Preserves P) where
  refl _ := id
  trans _ _ _ h h' := h' ∘ h

namespace Moves

variable {R R' : σ → σ → Prop}

theorem mono (h : ∀ s s', R s s' → R' s s') {x : Step σ α} (hx : Moves R x) : Moves R' x :=
  fun s => h _ _ (hx s)

/-- The state after a run that is known. -/
theorem of_run {x : Step σ α} (hx : Moves R x) {s s' : σ} {r : Except Fault α}
    (h : x.run s = (r, s')) : R s s' := by
  have := hx s
  rwa [h] at this

theorem modify {f : σ → σ} (h : ∀ s, R s (f s)) : Moves R (modify f : Step σ PUnit) := h

theorem outcome {x : Step σ α} (hx : Moves R x) : Moves R x.outcome := hx

/-- A step that starts by reading the state may use what it reads. -/
theorem get_bind {f : σ → Step σ α} (hf : ∀ s, R s ((f s).run s).2) : Moves R (MonadState.get >>= f) :=
  hf

theorem ite {c : Prop} [Decidable c] {x y : Step σ α} (hx : Moves R x) (hy : Moves R y) :
    Moves R (if c then x else y) := by
  split
  · exact hx
  · exact hy

section Preorder

variable [IsPreorder σ R]

theorem pure (a : α) : Moves R (Pure.pure a : Step σ α) := fun s => refl_of R s

theorem throw (e : Fault) : Moves R (MonadExcept.throw e : Step σ α) := fun s => refl_of R s

/-- What stands behind a fault is not reached. -/
theorem throw_bind (e : Fault) (f : α → Step σ β) : Moves R ((MonadExcept.throw e : Step σ α) >>= f) :=
  fun s => refl_of R s

theorem get : Moves R (MonadState.get : Step σ σ) := fun s => refl_of R s

theorem ofExcept (r : Except Fault α) : Moves R (Step.ofExcept r : Step σ α) := fun s => by
  rw [run_ofExcept]
  exact refl_of R s

theorem bind {x : Step σ α} {f : α → Step σ β} (hx : Moves R x) (hf : ∀ a, Moves R (f a)) :
    Moves R (x >>= f) := by
  intro s
  have h1 := hx s
  rw [run_bind]
  rcases h : x.run s with ⟨r, t⟩
  rw [h] at h1
  cases r with
  | ok a => exact trans_of R h1 (hf a t)
  | error e => exact h1

/-- What stands behind a check may use that the check passed. -/
theorem ofExcept_bind {r : Except Fault α} {f : α → Step σ β} (hf : ∀ a, r = .ok a → Moves R (f a)) :
    Moves R (Step.ofExcept r >>= f) := by
  cases r with
  | ok a => exact hf a rfl
  | error e => exact throw_bind e f

theorem repeatUpTo {next : α → Step σ (α ⊕ β)} (h : ∀ a, Moves R (next a)) (fuel : Nat) (a : α) :
    Moves R (Step.repeatUpTo next fuel a) := by
  induction fuel generalizing a with
  | zero => exact throw _
  | succ fuel ih =>
    refine bind (h a) fun r => ?_
    cases r with
    | inl a => exact ih a
    | inr b => exact pure b

theorem repeatUntilFewer {answers : σ → Nat} {next : α → Step σ (α ⊕ β)} {again : α → Step σ β}
    (h : ∀ a, Moves R (next a)) (hagain : ∀ a, Moves R (again a)) (left fuel : Nat) (a : α) :
    Moves R (Step.repeatUntilFewer answers next again left fuel a) := by
  induction fuel generalizing a with
  | zero => exact throw _
  | succ fuel ih =>
    refine bind (h a) fun r => ?_
    cases r with
    | inl a => exact bind get fun s => ite (hagain a) (ih a)
    | inr b => exact pure b

theorem repeatWhileFed {answers waiting : σ → Nat} {next : α → Step σ (α ⊕ β)}
    (h : ∀ a, Moves R (next a)) (rounds : Nat) (a : α) :
    Moves R (Step.repeatWhileFed answers waiting next rounds a) := by
  induction rounds generalizing a with
  | zero => exact bind get fun s => repeatUntilFewer h (fun _ => throw _) _ _ a
  | succ rounds ih => exact bind get fun s => repeatUntilFewer h ih _ _ a

end Preorder

/-- A step of an inner layer respects what its lens carries over. -/
theorem within {R : τ → τ → Prop} {Q : σ → σ → Prop} {get : τ → σ} {set : τ → σ → τ} {x : Step σ α}
    (hx : Moves Q x) (h : ∀ t s', Q (get t) s' → R t (set t s')) : Moves R (Step.within get set x) :=
  fun t => h _ _ (hx (get t))

end Moves

/-! ## What success establishes -/

/-- From a state with `P` success leads to one with `Q`. -/
def Establishes (P : σ → Prop) (x : Step σ α) (Q : σ → Prop) : Prop :=
  ∀ s a s', P s → x.run s = (.ok a, s') → Q s'

namespace Establishes

variable {P Q R : σ → Prop} {x y : Step σ α} {f : α → Step σ β}

theorem of_moves (h : Moves (Preserves P) x) : Establishes P x P := fun _ _ _ hP run => h.of_run run hP

theorem pre (h : Establishes Q x R) (hP : ∀ s, P s → Q s) : Establishes P x R := fun s a s' p => h s a s' (hP s p)

theorem throw (e : Fault) : Establishes P (MonadExcept.throw e : Step σ α) Q :=
  fun _ _ _ _ run => absurd run run_throw_ne_ok

theorem throw_bind (e : Fault) (f : α → Step σ β) : Establishes P ((MonadExcept.throw e : Step σ α) >>= f) Q :=
  fun _ _ _ _ run => nomatch (Prod.mk.inj run).1

theorem pure (a : α) : Establishes P (Pure.pure a : Step σ α) P := of_moves (.pure a)

theorem ofExcept (r : Except Fault α) : Establishes P (Step.ofExcept r) P := of_moves (.ofExcept r)

theorem get : Establishes P (MonadState.get : Step σ σ) P := of_moves .get

theorem modify {g : σ → σ} (h : ∀ s, P s → Q (g s)) : Establishes P (modify g : Step σ PUnit) Q :=
  fun s _ _ p run => (Prod.mk.inj run).2 ▸ h s p

theorem ite {c : Prop} [Decidable c] (hx : Establishes P x Q) (hy : Establishes P y Q) :
    Establishes P (if c then x else y) Q := by
  split
  · exact hx
  · exact hy

theorem bind (hx : Establishes P x Q) (hf : ∀ a, Establishes Q (f a) R) : Establishes P (x >>= f) R := by
  intro s b s' p run
  obtain ⟨a, t, first, second⟩ := run_bind_ok.1 run
  exact hf a t b s' (hx s a t p first) second

/-- What is done about a fault starts from what holds after every run. -/
theorem outcome_bind {K : σ → Prop} {f : Except Fault α → Step σ β} (kept : Moves (fun s s' => P s → K s') x)
    (hx : Establishes P x Q) (hok : ∀ a, Establishes Q (f (.ok a)) R) (herror : ∀ e, Establishes K (f (.error e)) R) :
    Establishes P (x.outcome >>= f) R := by
  intro s b s' p run
  rw [run_outcome_bind] at run
  rcases hr : x.run s with ⟨r, t⟩
  rw [hr] at run
  cases r with
  | ok a => exact hok a t b s' (hx s a t p hr) run
  | error e => exact herror e t b s' (kept.of_run hr p) run

theorem repeatUpTo {next : α → Step σ (α ⊕ β)} (h : ∀ a, Establishes P (next a) P) (fuel : Nat) (a : α) :
    Establishes P (Step.repeatUpTo next fuel a) P := by
  induction fuel generalizing a with
  | zero => exact throw _
  | succ fuel ih =>
    refine bind (h a) fun r => ?_
    cases r with
    | inl a => exact ih a
    | inr b => exact pure b

end Establishes

/-! ## Results of loops

A loop that gives a result did so in its last round, and every round before went on. An invariant
that a round keeps holds before that last round. -/

/-- An invariant of the rounds, and what the last round makes of it. -/
def Carries (I : α → σ → Prop) (Q : β → σ → Prop) (next : α → Step σ (α ⊕ β)) : Prop :=
  ∀ a s r s', I a s → (next a).run s = (.ok r, s') → Sum.elim (I · s') (Q · s') r

theorem repeatUpTo_ok {I : α → σ → Prop} {Q : β → σ → Prop} {next : α → Step σ (α ⊕ β)}
    (h : Carries I Q next) (fuel : Nat) {a : α} {s s' : σ} {b : β} (ha : I a s)
    (hr : (repeatUpTo next fuel a).run s = (.ok b, s')) : Q b s' := by
  -- on the fuel; the invariant is that of the round about to start
  induction fuel generalizing a s with
  | zero => exact absurd (Prod.mk.inj hr).1 (by simp)
  | succ fuel ih =>
    obtain ⟨r, t, h1, h2⟩ := run_bind_ok.1 hr
    have hnext := h a s r t ha h1
    cases r with
    | inl a' => exact ih hnext h2
    | inr b' =>
      obtain ⟨hb, rfl⟩ := Prod.mk.inj h2
      obtain rfl := Except.ok.inj hb
      exact hnext

theorem repeatUntilFewer_ok {answers : σ → Nat} {I : α → σ → Prop} {Q : β → σ → Prop}
    {next : α → Step σ (α ⊕ β)} {again : α → Step σ β} (h : Carries I Q next)
    (hagain : ∀ a s b s', I a s → (again a).run s = (.ok b, s') → Q b s') (left fuel : Nat)
    {a : α} {s s' : σ} {b : β} (ha : I a s)
    (hr : (repeatUntilFewer answers next again left fuel a).run s = (.ok b, s')) : Q b s' := by
  induction fuel generalizing a s with
  | zero => exact absurd (Prod.mk.inj hr).1 (by simp)
  | succ fuel ih =>
    obtain ⟨r, t, h1, h2⟩ := run_bind_ok.1 hr
    have hnext := h a s r t ha h1
    cases r with
    | inl a' =>
      simp only [run_get_bind] at h2
      split at h2
      · exact hagain a' t b s' hnext h2
      · exact ih hnext h2
    | inr b' =>
      obtain ⟨hb, rfl⟩ := Prod.mk.inj h2
      obtain rfl := Except.ok.inj hb
      exact hnext

theorem repeatWhileFed_ok {answers waiting : σ → Nat} {I : α → σ → Prop} {Q : β → σ → Prop}
    {next : α → Step σ (α ⊕ β)} (h : Carries I Q next) (rounds : Nat) {a : α} {s s' : σ} {b : β}
    (ha : I a s) (hr : (repeatWhileFed answers waiting next rounds a).run s = (.ok b, s')) :
    Q b s' := by
  induction rounds generalizing a s s' b with
  | zero =>
    rw [repeatWhileFed, run_get_bind] at hr
    refine repeatUntilFewer_ok h ?_ _ _ ha hr
    intro a s b s' _ h
    exact absurd (Prod.mk.inj h).1 (by simp)
  | succ rounds ih =>
    rw [repeatWhileFed, run_get_bind] at hr
    exact repeatUntilFewer_ok h (fun _ _ _ _ ha h => ih ha h) _ _ ha hr

/-! ## Loops that make progress

A loop comes to its result if each round that goes on leaves fewer answers, or as many and less that waits. -/

section Progress

variable {answers waiting : σ → Nat} {next : α → Step σ (α ⊕ β)} {again : α → Step σ β} {a : α} {s s' : σ} {b : β}

/-- The rounds of a loop up to its result. -/
inductive Rounds (answers waiting : σ → Nat) (next : α → Step σ (α ⊕ β)) : α → σ → β → σ → Prop where
  | last {a : α} {s s' : σ} {b : β} (run : (next a).run s = (.ok (.inr b), s')) : Rounds answers waiting next a s b s'
  | more {a a' : α} {s t s' : σ} {b : β} (run : (next a).run s = (.ok (.inl a'), t))
      (progress : answers t < answers s ∨ answers t = answers s ∧ waiting t < waiting s)
      (rest : Rounds answers waiting next a' t b s') : Rounds answers waiting next a s b s'

theorem repeatUntilFewer_run (rounds : Rounds answers waiting next a s b s') {left fuel : Nat} (same : answers s = left)
    (enough : waiting s < fuel)
    (hagain : ∀ a t, answers t < left → Rounds answers waiting next a t b s' → (again a).run t = (.ok b, s')) :
    (repeatUntilFewer answers next again left fuel a).run s = (.ok b, s') := by
  induction rounds generalizing fuel with
  | last run =>
    cases fuel with
    | zero => exact absurd enough (Nat.not_lt_zero _)
    | succ fuel =>
      unfold repeatUntilFewer
      rw [run_bind_of_ok run]
      rfl
  | more run progress rest ih =>
    cases fuel with
    | zero => exact absurd enough (Nat.not_lt_zero _)
    | succ fuel =>
      unfold repeatUntilFewer
      rw [run_bind_of_ok run]
      dsimp only
      rw [run_get_bind]
      rcases progress with fewer | ⟨kept, less⟩
      · rw [if_pos (same ▸ fewer)]
        exact hagain _ _ (same ▸ fewer) rest
      · rw [if_neg (by omega)]
        exact ih (kept.trans same) (by omega) hagain

theorem repeatWhileFed_run {rounds : Nat} (run : Rounds answers waiting next a s b s') (enough : answers s ≤ rounds) :
    (repeatWhileFed answers waiting next rounds a).run s = (.ok b, s') := by
  induction rounds generalizing a s with
  | zero =>
    unfold repeatWhileFed
    rw [run_get_bind]
    refine repeatUntilFewer_run run rfl (Nat.lt_succ_self _) fun a t fewer _ => ?_
    exact absurd fewer (by omega)
  | succ rounds ih =>
    unfold repeatWhileFed
    rw [run_get_bind]
    exact repeatUntilFewer_run run rfl (Nat.lt_succ_self _) fun a t fewer rest => ih rest (by omega)

end Progress

/-! ## Loops however they end

A loop runs until a round gives a result or fails. If each round that goes on makes something smaller that is never
more than what bounds the loop, nothing else ends it. -/

/-- The rounds of a loop, up to a result or a fault. Where `cut` holds, the loop may be given up after a round that
goes on. -/
inductive Loops (cut : Prop) (next : α → Step σ (α ⊕ β)) : α → σ → Except Fault β → σ → Prop where
  | last {a : α} {s s' : σ} {b : β} (run : (next a).run s = (.ok (.inr b), s')) : Loops cut next a s (.ok b) s'
  | failed {a : α} {s s' : σ} {e : Fault} (run : (next a).run s = (.error e, s')) : Loops cut next a s (.error e) s'
  | more {a a' : α} {s t s' : σ} {r : Except Fault β} (run : (next a).run s = (.ok (.inl a'), t))
      (rest : Loops cut next a' t r s') : Loops cut next a s r s'
  | givenUp {a a' : α} {s s' : σ} (run : (next a).run s = (.ok (.inl a'), s')) (allowed : cut) :
      Loops cut next a s (.error (.readTimeout 0)) s'

section Ends

variable {answers waiting : σ → Nat} {next : α → Step σ (α ⊕ β)} {again : α → Step σ β} {cut : Prop} {size : α → Nat}
  (shrinks : ∀ {a a' : α} {s t : σ}, (next a).run s = (.ok (.inl a'), t) → cut ∨ size a' < size a)

include shrinks

theorem repeatUntilFewer_loops {left fuel : Nat} {a : α} {s : σ} (enough : cut ∨ size a < fuel)
    (hagain : ∀ a t, answers t < left → Loops cut next a t ((again a).run t).1 ((again a).run t).2) :
    (cut ∧ fuel = 0) ∨ Loops cut next a s ((repeatUntilFewer answers next again left fuel a).run s).1
      ((repeatUntilFewer answers next again left fuel a).run s).2 := by
  induction fuel generalizing a s with
  | zero => exact .inl ⟨enough.resolve_right (Nat.not_lt_zero _), rfl⟩
  | succ fuel ih =>
    refine .inr ?_
    unfold repeatUntilFewer
    rw [run_bind]
    rcases run : (next a).run s with ⟨e | a' | b, t⟩
    · exact .failed run
    · dsimp only
      rw [run_get_bind]
      split
      next fewer => exact .more run (hagain _ _ fewer)
      next =>
        have enough' : cut ∨ size a' < fuel := by
          rcases enough, shrinks run with ⟨allowed | enough, allowed' | less⟩
          · exact .inl allowed
          · exact .inl allowed
          · exact .inl allowed'
          · exact .inr (by omega)
        rcases ih (s := t) enough' with ⟨allowed, rfl⟩ | rest
        · exact .givenUp run allowed
        · exact .more run rest
    · exact .last run

/-- **A loop** runs until a round gives a result or fails, or it may be given up. -/
theorem repeatWhileFed_loops {rounds : Nat} {a : α} {s : σ} (enough : answers s ≤ rounds)
    (waits : ∀ a s, size a ≤ waiting s) :
    Loops cut next a s ((repeatWhileFed answers waiting next rounds a).run s).1
      ((repeatWhileFed answers waiting next rounds a).run s).2 := by
  have bounded (a : α) (s : σ) : cut ∨ size a < waiting s + 1 := .inr (Nat.lt_succ_of_le (waits a s))
  induction rounds generalizing a s with
  | zero =>
    unfold repeatWhileFed
    rw [run_get_bind]
    refine (repeatUntilFewer_loops shrinks (bounded a s) fun _ _ fewer => absurd fewer ?_).resolve_left nofun
    omega
  | succ rounds ih =>
    unfold repeatWhileFed
    rw [run_get_bind]
    exact (repeatUntilFewer_loops shrinks (bounded a s) fun _ _ fewer => ih (by omega)).resolve_left nofun

end Ends

end Metering.Step
