import Metering.Proofs.Bits
import Metering.Proofs.Reader
import Metering.Proofs.Uid

set_option autoImplicit false

/-! # Arithmetic that traps

The definitions of the protocol count without bound and cut lists anywhere, where nothing can go wrong.
A machine counts in words and reads memory, and it traps: on a sum that leaves its type, on a difference
below zero, on an index or a slice out of range. A `Checked` computation is carried out as on a machine,
with every such operation spelled out. One that is equal to a definition never traps.

Reads go over bytes that a machine holds (`Held`), with the position as the state. Such a read `Follows`
a step of reading if it never traps, ends as the step does and stands where the step stands. -/

namespace Metering

/-- A machine, by the numbers that it counts bytes with. -/
structure Machine where
  /-- The largest such number. -/
  largest : Nat
  /-- It has 32 bits or more. -/
  wide : 0xFFFFFFFF ≤ largest

/-- A run of bytes in the memory of a machine. It is no longer than half of what can be counted. -/
structure Held (m : Machine) where
  bytes : Bytes
  fits : 2 * bytes.length ≤ m.largest

/-- A computation over a state that gives a value or a fault, or traps. -/
abbrev Checked (σ : Type) (α : Type) : Type := ExceptT Fault (StateT σ Option) α

namespace Checked

variable {σ α β : Type}

/-- How a computation ends, and the state it leaves; none if it traps. -/
def run (x : Checked σ α) (s : σ) : Option (Except Fault α × σ) := x s

/-- The end of a machine. -/
def trap : Checked σ α := fun _ => none

/-- A step, which cannot trap. -/
def ofStep (x : Step σ α) : Checked σ α := fun s => some (x.run s)

/-- A computation without state, which cannot trap. -/
def ofExcept (r : Except Fault α) : Checked σ α := ofStep (Step.ofExcept r)

/-! ## Operations that trap -/

/-- The largest number of a counter of 64 bits. -/
def largestCount : Nat := 0xFFFFFFFFFFFFFFFF

/-- The sum of two numbers of a type with a largest one. -/
def add (largest a b : Nat) : Checked σ Nat := if a + b ≤ largest then pure (a + b) else trap

/-- The product of two numbers of a type with a largest one. -/
def mul (largest a b : Nat) : Checked σ Nat := if a * b ≤ largest then pure (a * b) else trap

/-- The difference of two numbers that cannot be negative. -/
def sub (a b : Nat) : Checked σ Nat := if b ≤ a then pure (a - b) else trap

/-- A number as a byte. A machine would keep the low bits of a larger one; here that counts as a trap. -/
def byteOf (n : Nat) : Checked σ UInt8 := if n < 256 then pure (UInt8.ofNat n) else trap

/-- The element with an index. -/
def index (bytes : Bytes) (i : Nat) : Checked σ UInt8 :=
  match bytes[i]? with
  | some b => pure b
  | none => trap

/-- The elements from one index up to another. -/
def slice (bytes : Bytes) (start stop : Nat) : Checked σ Bytes :=
  if start ≤ stop ∧ stop ≤ bytes.length then pure ((bytes.drop start).take (stop - start)) else trap

/-- A run with the elements from one index up to another overwritten; there must be room for all of the new ones, and
no more. -/
def overwrite (target : Bytes) (start stop : Nat) (source : Bytes) : Checked σ Bytes :=
  if start ≤ stop ∧ stop ≤ target.length ∧ source.length = stop - start then
    pure (target.take start ++ source ++ target.drop stop)
  else trap

variable {bytes : Bytes} {largest a b i start stop : Nat}

theorem add_eq (h : a + b ≤ largest) : add largest a b = (pure (a + b) : Checked σ Nat) := if_pos h

theorem mul_eq (h : a * b ≤ largest) : mul largest a b = (pure (a * b) : Checked σ Nat) := if_pos h

theorem sub_eq (h : b ≤ a) : sub a b = (pure (a - b) : Checked σ Nat) := if_pos h

theorem byteOf_eq (h : a < 256) : byteOf a = (pure (UInt8.ofNat a) : Checked σ UInt8) := if_pos h

theorem index_eq {c : UInt8} (h : bytes[i]? = some c) : index bytes i = (pure c : Checked σ UInt8) := by
  rw [index, h]

theorem slice_eq (h : start ≤ stop) (h' : stop ≤ bytes.length) :
    slice bytes start stop = (pure ((bytes.drop start).take (stop - start)) : Checked σ Bytes) :=
  if_pos ⟨h, h'⟩

/-- The elements in front of an index. -/
theorem slice_front (h : stop ≤ bytes.length) :
    slice bytes 0 stop = (pure (bytes.take stop) : Checked σ Bytes) := slice_eq (Nat.zero_le stop) h

/-- The elements from an index on. -/
theorem slice_behind (h : start ≤ bytes.length) :
    slice bytes start bytes.length = (pure (bytes.drop start) : Checked σ Bytes) := by
  rw [slice_eq h (Nat.le_refl _), List.take_of_length_le (Nat.le_of_eq (List.length_drop ..))]

theorem overwrite_all {target source : Bytes} {n : Nat} (whole : target.length = n) (same : source.length = n) :
    overwrite target 0 n source = (pure source : Checked σ Bytes) := by
  rw [overwrite, if_pos ⟨Nat.zero_le n, Nat.le_of_eq whole.symm, same⟩, List.drop_eq_nil_of_le (Nat.le_of_eq whole),
    List.append_nil]
  rfl

/-! ## What never traps -/

theorem run_ofExcept (r : Except Fault α) (s : σ) : (ofExcept r : Checked σ α).run s = some (r, s) :=
  congrArg some (Step.run_ofExcept r s)

theorem ofExcept_ok (a : α) : (ofExcept (.ok a) : Checked σ α) = pure a := rfl

theorem run_bind (x : Checked σ α) (f : α → Checked σ β) (s : σ) :
    (x >>= f).run s = x.run s >>= fun
      | (.ok a, s) => (f a).run s
      | (.error e, s) => some (.error e, s) := by
  show (ExceptT.bind x f) s = _
  simp only [ExceptT.bind, ExceptT.mk, run, bind, StateT.bind]
  rcases x s with _ | ⟨_ | _, _⟩ <;> rfl

theorem ofExcept_bind (x : Except Fault α) (f : α → Except Fault β) :
    ofExcept (x >>= f) = (ofExcept x >>= fun a => ofExcept (f a) : Checked σ β) := by
  cases x <;> rfl

/-- How a computation over a position ends that starts in front; none if it traps. -/
def outcome (x : Checked Nat α) : Option (Except Fault α) := (x.run 0).map Prod.fst

theorem outcome_ofExcept (r : Except Fault α) : outcome (ofExcept r) = some r := by
  rw [outcome, run_ofExcept]
  rfl

/-! ## Steps that are carried out -/

/-- Carries out what concerns an inner layer, found by `get` and put back by `set`. -/
def within {τ : Type} (get : τ → σ) (set : τ → σ → τ) (x : Checked σ α) : Checked τ α :=
  fun t => (x.run (get t)).map fun (r, s) => (r, set t s)

/-- How a computation ended, as a value; it does not fail, but it may trap. -/
def attempt (x : Checked σ α) : Checked σ (Except Fault α) := fun s => (x.run s).map fun (r, s) => (.ok r, s)

/-- Repeats `next` until it gives a result, at most `fuel` times. -/
def repeatUpTo (next : α → Checked σ (α ⊕ β)) : (fuel : Nat) → α → Checked σ β
  | 0, _ => throw (.readTimeout 0)
  | fuel + 1, a => do
    match ← next a with
    | .inl a => repeatUpTo next fuel a
    | .inr b => pure b

/-- From a state the computation does as the step does: it does not trap, and ends and leaves the state alike. -/
def Agrees (s : σ) (x : Checked σ α) (y : Step σ α) : Prop := x.run s = some (y.run s)

namespace Agrees

variable {s : σ} {x : Checked σ α} {y : Step σ α} {f : α → Checked σ β} {g : α → Step σ β}

theorem ofStep (y : Step σ α) : Agrees s (Checked.ofStep y) y := rfl

theorem pure (a : α) : Agrees s (Pure.pure a) (Pure.pure a) := rfl

theorem throw (e : Fault) : Agrees s (MonadExcept.throw e : Checked σ α) (MonadExcept.throw e) := rfl

theorem ite {c : Prop} [Decidable c] {x' : Checked σ α} {y' : Step σ α} (hx : c → Agrees s x y)
    (hy : ¬ c → Agrees s x' y') : Agrees s (if c then x else x') (if c then y else y') := by
  split
  next h => exact hx h
  next h => exact hy h

theorem get_bind {f : σ → Checked σ α} {g : σ → Step σ α} (h : Agrees s (f s) (g s)) :
    Agrees s (get >>= f) (get >>= g) := h

/-- A look at the state that only the computation takes. -/
theorem get_left {f : σ → Checked σ α} (h : Agrees s (f s) y) : Agrees s (get >>= f) y := h

/-- Putting back what a change makes of the state is the change. -/
theorem modify_bind (k : σ → σ) {f : PUnit → Checked σ α} {g : PUnit → Step σ α} (h : Agrees (k s) (f ⟨⟩) (g ⟨⟩)) :
    Agrees s (set (k s) >>= f) (modify k >>= g) := h

theorem set_bind {t : σ} {f : PUnit → Checked σ α} {g : PUnit → Step σ α} (h : Agrees t (f ⟨⟩) (g ⟨⟩)) :
    Agrees s (set t >>= f) (set t >>= g) := h

/-- What follows in a row may go by the value and the state that were reached. -/
theorem bind (hx : Agrees s x y) (hf : ∀ a t, y.run s = (.ok a, t) → Agrees t (f a) (g a)) :
    Agrees s (x >>= f) (y >>= g) := by
  unfold Agrees
  rw [run_bind, hx, Step.run_bind]
  rcases ran : y.run s with ⟨_ | a, t⟩
  · rfl
  · exact hf a t ran

theorem within {τ : Type} {get : τ → σ} {set : τ → σ → τ} {t : τ} (h : Agrees (get t) x y) :
    Agrees t (Checked.within get set x) (Step.within get set y) := by
  show (x.run (get t)).map _ = _
  rw [h]
  rfl

/-- What follows an end goes by it, whether it is a value or a fault. -/
theorem attempt_bind {f : Except Fault α → Checked σ β} {g : Except Fault α → Step σ β} (hx : Agrees s x y)
    (hok : ∀ a t, y.run s = (.ok a, t) → Agrees t (f (.ok a)) (g (.ok a)))
    (herror : ∀ e t, y.run s = (.error e, t) → Agrees t (f (.error e)) (g (.error e))) :
    Agrees s (Checked.attempt x >>= f) (y.outcome >>= g) := by
  have ended : (Checked.attempt x).run s = (x.run s).map fun (r, s) => (.ok r, s) := rfl
  unfold Agrees
  rw [run_bind, ended, hx, Step.run_outcome_bind]
  rcases ran : y.run s with ⟨e | a, t⟩
  · exact herror e t ran
  · exact hok a t ran

/-- A loop agrees whose rounds do, as long as a condition holds that they keep. -/
theorem repeatUpTo {I : α → σ → Prop} {next : α → Checked σ (α ⊕ β)} {next' : α → Step σ (α ⊕ β)}
    (round : ∀ a s, I a s → Agrees s (next a) (next' a))
    (keeps : ∀ a s b t, I a s → (next' a).run s = (.ok (.inl b), t) → I b t) (fuel : Nat) {a : α} {s : σ} (h : I a s) :
    Agrees s (Checked.repeatUpTo next fuel a) (Step.repeatUpTo next' fuel a) := by
  induction fuel generalizing a s with
  | zero => exact throw _
  | succ fuel ih =>
    refine (round a s h).bind fun r t ran => ?_
    cases r with
    | inl b => exact ih (keeps a s b t h ran)
    | inr b => exact pure b

end Agrees

/-! ## The text of an identifier -/

/-- The text of an identifier. -/
def uidText (m : Machine) (bytes : Bytes) (relative : Bool) : Checked σ String := do
  if bytes.isEmpty then throw (.invalidData .emptyIdentifier)
  let _ ← mul m.largest bytes.length 3
  if relative then return String.ofList ((Uid.arcsOf 0 bytes).flatMap Uid.arcText)
  let shared ← index bytes 0
  let first := min (shared.toNat / 40) 2
  let second ← sub shared.toNat (← mul 0xFF first 40)
  let rest ← slice bytes 1 bytes.length
  return String.ofList ((toString first).toList ++ Uid.arcText second ++ (Uid.arcsOf 0 rest).flatMap Uid.arcText)

/-- **Decoding an identifier never traps**: the byte that two arcs share is large enough for what is
taken from it. -/
theorem uidText_eq {m : Machine} {bytes : Bytes} (short : bytes.length * 3 ≤ m.largest)
    (relative : Bool) : uidText m bytes relative = (ofExcept (Uid.decode bytes relative) : Checked σ String) := by
  cases bytes with
  | nil => rfl
  | cons shared rest =>
    have first : min (shared.toNat / 40) 2 * 40 ≤ shared.toNat := by omega
    have product : min (shared.toNat / 40) 2 * 40 ≤ 0xFF := by omega
    rw [uidText, mul_eq short, index_eq rfl, Uid.decode]
    cases relative with
    | true => rfl
    | false =>
      have behind : slice (shared :: rest) 1 (rest.length + 1) = (pure rest : Checked σ Bytes) :=
        slice_behind (Nat.le_add_left 1 rest.length)
      simp only [pure_bind, mul_eq product, sub_eq first, List.length_cons, behind]
      rfl

end Checked

/-! ## What reads give -/

namespace Reader

variable {r r' : Reader} {n : Nat}

/-- A read of so many bytes gives so many. -/
theorem length_of_take {count : Nat} {taken : Bytes}
    (h : (take count).run r = (.ok taken, r')) : taken.length = count := by
  rw [run_take] at h
  split at h
  · cases (Prod.mk.inj h).1
  · obtain rfl := Except.ok.inj (Prod.mk.inj h).1
    rw [List.length_take]
    omega

theorem number_lt {width : Nat} (h : (number width).run r = (.ok n, r')) :
    n < 256 ^ width := by
  obtain ⟨taken, r1, took, h⟩ := Step.run_bind_ok.1 h
  obtain rfl := Except.ok.inj (Prod.mk.inj h).1
  rw [← Bytes.fieldSize_eq, ← length_of_take took]
  exact Bytes.ofBigEndian_lt taken

/-- A length has three bytes at most. -/
theorem length_le (h : length.run r = (.ok n, r')) : n ≤ 0xFFFFFF := by
  obtain ⟨first, r1, -, h⟩ := Step.run_bind_ok.1 h
  split at h
  · obtain rfl := Except.ok.inj (Prod.mk.inj h).1
    have := first.toNat_lt
    omega
  dsimp only at h
  split at h
  · exact absurd h Step.run_throw_ne_ok
  next octets =>
    have bound := number_lt h
    have wide : 256 ^ (first.toNat % 128) ≤ 256 ^ 3 := Nat.pow_le_pow_right (by decide) (by omega)
    omega

end Reader

namespace Held

open Checked

variable {m : Machine} (b : Held m)

/-! ## Reading -/

/-- The number of bytes still to be read. -/
def remaining : Checked Nat Nat := do sub b.bytes.length (← get)

/-- The bytes still to be read. -/
def rest : Checked Nat Bytes := do slice b.bytes (← get) b.bytes.length

/-- What a read of `wanted` bytes reports when they are not there. -/
def short (wanted : Nat) : Checked Nat Fault := do
  return .partialData (← add m.largest (← get) wanted) b.bytes.length

/-- Takes one byte. -/
def byte : Checked Nat UInt8 := do
  match b.bytes[← get]? with
  | none => throw (← b.short 1)
  | some c =>
    set (← add m.largest (← get) 1)
    return c

/-- Takes `count` bytes. -/
def take (count : Nat) : Checked Nat Bytes := do
  if (← b.remaining) < count then throw (← b.short count)
  let position ← get
  let taken ← slice b.bytes position (← add m.largest position count)
  set (← add m.largest position count)
  return taken

/-- Passes over `count` bytes. -/
def skip (count : Nat) : Checked Nat Unit := do
  let _ ← b.take count

/-- Takes a number of `width` bytes. -/
def number (width : Nat) : Checked Nat Nat := do return Bytes.ofBigEndian (← b.take width)

/-- Takes a number of two bytes, one by one. -/
def number16 : Checked Nat Nat := do
  let taken ← b.take 2
  return Bytes.ofBigEndian [← index taken 0, ← index taken 1]

/-- Takes a length; it may have up to three bytes after the first. -/
def length : Checked Nat Nat := do
  let first ← b.byte
  if first < 0x80 then return first.toNat
  let octets := first.toNat % 128
  if octets = 0 ∨ octets > 3 then throw (.invalidData (.lengthOctets octets))
  b.number octets

/-- Takes an identifier: kind, length, identifier. -/
def uid : Checked Nat String := do
  let kind ← b.byte
  if kind ≠ Uid.absoluteTag ∧ kind ≠ Uid.relativeTag ∧ kind ≠ Uid.otherRelativeTag then
    throw (.invalidData (.identifierTag kind))
  let n ← b.length
  let taken ← b.take n
  uidText m taken (kind ≠ Uid.absoluteTag)

/-- Takes an integer of one to four bytes: tag, length, value. -/
def integer : Checked Nat UInt32 := do
  let kind ← b.byte
  let n ← b.length
  if kind ≠ Ber.integerTag ∨ n = 0 ∨ n > 4 then throw (.invalidData (.badInteger kind n))
  return UInt32.ofNat (← b.number n)

/-! ## Reads that follow a step -/

variable {α β : Type}

/-- A position as a place in received bytes. -/
def reader (p : Nat) : Reader := ⟨p, b.bytes.drop p⟩

/-- From a position the read does as the step does: it does not trap, ends alike and leaves the same
place, further on and not behind the end. -/
def Follows (p : Nat) (x : Checked Nat α) (y : Step Reader α) : Prop :=
  ∃ p', x.run p = some ((y.run (b.reader p)).1, p') ∧ (y.run (b.reader p)).2 = b.reader p' ∧
    p ≤ p' ∧ p' ≤ b.bytes.length

namespace Follows

variable {b} {p : Nat} {x : Checked Nat α} {y : Step Reader α} {f : α → Checked Nat β} {g : α → Step Reader β}

theorem pure (a : α) (h : p ≤ b.bytes.length) : b.Follows p (Pure.pure a) (Pure.pure a) :=
  ⟨p, rfl, rfl, Nat.le_refl p, h⟩

theorem throw (e : Fault) (h : p ≤ b.bytes.length) :
    b.Follows p (MonadExcept.throw e : Checked Nat α) (MonadExcept.throw e) := ⟨p, rfl, rfl, Nat.le_refl p, h⟩

theorem ofExcept (r : Except Fault α) (h : p ≤ b.bytes.length) :
    b.Follows p (Checked.ofExcept r) (Step.ofExcept r) := by
  cases r with
  | ok a => exact pure a h
  | error e => exact throw e h

/-- What follows in a row may go by the value that was read and by the place that was reached. -/
theorem bind (hx : b.Follows p x y)
    (hf : ∀ p' a, y.run (b.reader p) = (.ok a, b.reader p') → p ≤ p' → p' ≤ b.bytes.length →
      b.Follows p' (f a) (g a)) : b.Follows p (x >>= f) (y >>= g) := by
  obtain ⟨q, ran, place, on, inside⟩ := hx
  have stepped := Step.run_eq_of_fst (x := y) (s := b.reader p) rfl
  rw [place] at stepped
  unfold Follows
  rw [run_bind, ran, Step.run_bind, stepped]
  rcases ended : (y.run (b.reader p)).1 with e | a
  · exact ⟨q, rfl, rfl, on, inside⟩
  · rw [ended] at stepped
    obtain ⟨r, ran', place', on', inside'⟩ := hf q a stepped on inside
    exact ⟨r, ran', place', Nat.le_trans on on', inside'⟩

theorem ite {c : Prop} [Decidable c] {x' : Checked Nat α} {y' : Step Reader α} (hx : c → b.Follows p x y)
    (hy : ¬ c → b.Follows p x' y') : b.Follows p (if c then x else x') (if c then y else y') := by
  split
  next h => exact hx h
  next h => exact hy h

/-- A check that throws and what stands behind it. -/
theorem guard {c : Prop} [Decidable c] {e : Fault} (inside : p ≤ b.bytes.length) (h : ¬ c → b.Follows p x y) :
    b.Follows p (if c then MonadExcept.throw e else x) (if c then MonadExcept.throw e else y) :=
  ite (fun _ => throw e inside) h

/-- A look at the position. -/
theorem get_bind {f : Nat → Checked Nat α} {g : Reader → Step Reader α} (h : b.Follows p (f p) (g (b.reader p))) :
    b.Follows p (get >>= f) (get >>= g) := h

/-- A look at the place that only the step takes. -/
theorem get_left {g : Reader → Step Reader α} (h : b.Follows p x (g (b.reader p))) :
    b.Follows p x (get >>= g) := h

end Follows

variable {b} {p : Nat}

/-- A read of all bytes gives what the step makes of them. -/
theorem Follows.outcome_eq {x : Checked Nat α} {y : Step Reader α} (h : b.Follows 0 x y) :
    outcome x = some (Reader.parse y b.bytes) := by
  obtain ⟨q, ran, -⟩ := h
  rw [outcome, ran]
  rfl

theorem length_rest_reader : (b.reader p).rest.length = b.bytes.length - p := List.length_drop ..

/-! ## Bytes and numbers -/

theorem run_remaining (h : p ≤ b.bytes.length) : b.remaining.run p = some (.ok (b.bytes.length - p), p) := by
  show (sub b.bytes.length p : Checked Nat Nat).run p = _
  rw [sub_eq h]
  rfl

theorem follows_remaining (h : p ≤ b.bytes.length) : b.Follows p b.remaining Reader.remaining := by
  refine ⟨p, ?_, rfl, Nat.le_refl p, h⟩
  rw [run_remaining h, Reader.run_remaining, length_rest_reader]

/-- A look at what is left. -/
theorem Follows.remaining_bind {f : Nat → Checked Nat α} {y : Step Reader α} (inside : p ≤ b.bytes.length)
    (h : b.Follows p (f (b.bytes.length - p)) y) : b.Follows p (b.remaining >>= f) y := by
  unfold Follows
  rw [Checked.run_bind, run_remaining inside]
  exact h

theorem Follows.remaining_left {x : Checked Nat α} {g : Nat → Step Reader α}
    (h : b.Follows p x (g (b.bytes.length - p))) : b.Follows p x (Reader.remaining >>= g) := by
  unfold Follows
  rw [Step.run_bind_of_ok (Reader.run_remaining _), length_rest_reader]
  exact h

theorem Follows.both_remaining {f : Nat → Checked Nat α} {g : Nat → Step Reader α} (inside : p ≤ b.bytes.length)
    (h : b.Follows p (f (b.bytes.length - p)) (g (b.bytes.length - p))) :
    b.Follows p (b.remaining >>= f) (Reader.remaining >>= g) := .remaining_bind inside (.remaining_left h)

theorem run_rest (h : p ≤ b.bytes.length) : b.rest.run p = some (.ok (b.bytes.drop p), p) := by
  show (slice b.bytes p b.bytes.length : Checked Nat Bytes).run p = _
  rw [slice_behind h]
  rfl

/-- No length that is read is too large to be counted on from a position. -/
theorem add_position {n : Nat} (h : p ≤ b.bytes.length) (small : n ≤ 0xFFFFFF) : p + n ≤ m.largest := by
  have := b.fits
  have := m.wide
  omega

theorem run_short {wanted : Nat} (h : p ≤ b.bytes.length) (small : wanted ≤ 0xFFFFFF) :
    (b.short wanted).run p = some (.ok ((b.reader p).short wanted), p) := by
  show ((do return .partialData (← add m.largest p wanted) b.bytes.length : Checked Nat Fault)).run p = _
  rw [add_eq (add_position h small), Reader.short, length_rest_reader, reader, Nat.add_sub_cancel' h]
  rfl

theorem run_reader_take {count : Nat} (enough : p + count ≤ b.bytes.length) :
    (Reader.take count).run (b.reader p) = (.ok ((b.bytes.drop p).take count), b.reader (p + count)) := by
  rw [Reader.run_take, length_rest_reader, if_neg (by omega), reader, List.drop_drop, reader]

theorem run_reader_take_short {count : Nat} (few : b.bytes.length - p < count) :
    (Reader.take count).run (b.reader p) = (.error ((b.reader p).short count), b.reader p) := by
  rw [Reader.run_take, length_rest_reader, if_pos few]

theorem follows_take {count : Nat} (h : p ≤ b.bytes.length) (small : count ≤ 0xFFFFFF) :
    b.Follows p (b.take count) (Reader.take count) := by
  unfold Follows
  rw [take, Checked.run_bind, run_remaining h]
  by_cases few : b.bytes.length - p < count
  · refine ⟨p, ?_, ?_, Nat.le_refl p, h⟩
    · show (if b.bytes.length - p < count then _ else _ : Checked Nat Bytes).run p = _
      rw [if_pos few, Checked.run_bind, run_short h small, run_reader_take_short few]
      rfl
    · rw [run_reader_take_short few]
  · have enough : p + count ≤ b.bytes.length := by omega
    refine ⟨p + count, ?_, ?_, Nat.le_add_right p count, enough⟩
    · show (if b.bytes.length - p < count then _ else _ : Checked Nat Bytes).run p = _
      rw [if_neg few, run_reader_take enough]
      show (add m.largest p count >>= fun stop => slice b.bytes p stop >>= fun taken =>
        add m.largest p count >>= fun q => set q >>= fun _ => pure taken : Checked Nat Bytes).run p = _
      rw [add_eq (add_position h small), pure_bind, slice_eq (Nat.le_add_right p count) enough, pure_bind, pure_bind,
        Nat.add_sub_cancel_left]
      rfl
    · rw [run_reader_take enough]

theorem follows_skip {count : Nat} (h : p ≤ b.bytes.length) (small : count ≤ 0xFFFFFF) :
    b.Follows p (b.skip count) (Reader.skip count) :=
  (follows_take h small).bind fun _ _ _ _ inside => .pure _ inside

theorem follows_number {width : Nat} (h : p ≤ b.bytes.length) (small : width ≤ 0xFFFFFF) :
    b.Follows p (b.number width) (Reader.number width) :=
  (follows_take h small).bind fun _ _ _ _ inside => .pure _ inside

theorem run_reader_byte {c : UInt8} (found : b.bytes[p]? = some c) :
    Reader.byte.run (b.reader p) = (.ok c, b.reader (p + 1)) := by
  obtain ⟨inside, rfl⟩ := List.getElem?_eq_some_iff.1 found
  rw [reader, List.drop_eq_getElem_cons inside, Reader.run_byte]
  rfl

theorem run_reader_byte_end (none : b.bytes[p]? = none) :
    Reader.byte.run (b.reader p) = (.error ((b.reader p).short 1), b.reader p) := by
  have few : b.bytes.length - p < 1 := by
    have := List.getElem?_eq_none_iff.1 none
    omega
  rw [Reader.byte, Step.run_bind_of_error (run_reader_take_short few)]

theorem follows_byte (h : p ≤ b.bytes.length) : b.Follows p b.byte Reader.byte := by
  have run : b.byte.run p = (match b.bytes[p]? with
    | none => b.short 1 >>= fun e => throw e
    | some c => get >>= fun q => add m.largest q 1 >>= fun q => set q >>= fun _ => pure c : Checked Nat UInt8).run p := rfl
  unfold Follows
  rw [run]
  rcases found : b.bytes[p]? with _ | c
  · refine ⟨p, ?_, ?_, Nat.le_refl p, h⟩
    · show (b.short 1 >>= fun e => throw e : Checked Nat UInt8).run p = _
      rw [Checked.run_bind, run_short h (by decide), run_reader_byte_end found]
      rfl
    · rw [run_reader_byte_end found]
  · have inside : p < b.bytes.length := (List.getElem?_eq_some_iff.1 found).1
    refine ⟨p + 1, ?_, ?_, Nat.le_succ p, inside⟩
    · show (add m.largest p 1 >>= fun q => set q >>= fun _ => pure c : Checked Nat UInt8).run p = _
      rw [add_eq (add_position h (by decide)), pure_bind, run_reader_byte found]
      rfl
    · rw [run_reader_byte found]

theorem run_byte_end (h : p ≤ b.bytes.length) (past : b.bytes.length ≤ p) :
    b.byte.run p = some (.error ((b.reader p).short 1), p) := by
  obtain ⟨q, ran, place, -, -⟩ := follows_byte h
  have none : b.bytes[p]? = none := List.getElem?_eq_none past
  rw [run_reader_byte_end none] at ran place
  obtain rfl : p = q := congrArg Reader.position place
  exact ran

theorem reader_of_byte {r : Reader} {c : UInt8} (h : Reader.byte.run (b.reader p) = (.ok c, r)) :
    r = b.reader (p + 1) := by
  rcases found : b.bytes[p]? with _ | d
  · rw [run_reader_byte_end found] at h
    cases (Prod.mk.inj h).1
  · rw [run_reader_byte found] at h
    exact (Prod.mk.inj h).2.symm

theorem position_of_byte {p' : Nat} {c : UInt8} (h : Reader.byte.run (b.reader p) = (.ok c, b.reader p')) :
    p' = p + 1 := congrArg Reader.position (reader_of_byte h)

/-- A length takes one byte or more. -/
theorem position_of_length {p' n : Nat} (h : Reader.length.run (b.reader p) = (.ok n, b.reader p')) : p < p' := by
  obtain ⟨first, r, read, h⟩ := Step.run_bind_ok.1 h
  obtain rfl := reader_of_byte read
  have onward (octets : Nat) : Step.Moves Reader.Onward (Reader.number octets) :=
    (Reader.take_onward octets).bind fun _ => .pure _
  have behind := Step.Moves.of_run (.ite (.pure _) (.ite (.throw_bind _ _) (onward _))) h
  obtain ⟨taken, -, place⟩ := behind
  have place : p' = p + 1 + taken.length := place
  omega

theorem follows_number16 (h : p ≤ b.bytes.length) : b.Follows p b.number16 (Reader.number 2) := by
  refine (follows_take h (by decide)).bind fun q taken ran _ inside => ?_
  obtain ⟨high, low, rfl⟩ : ∃ high low, taken = [high, low] := by
    match taken, Reader.length_of_take ran with
    | [high, low], _ => exact ⟨high, low, rfl⟩
  rw [index_eq rfl, index_eq rfl, pure_bind, pure_bind]
  exact .pure _ inside

theorem follows_length (h : p ≤ b.bytes.length) : b.Follows p b.length Reader.length := by
  refine (follows_byte h).bind fun q first _ _ inside => ?_
  refine .ite (fun _ => .pure _ inside) fun _ => .guard inside fun few => ?_
  exact follows_number inside (by omega)

/-! ## Identifiers and integers -/

theorem follows_uid (h : p ≤ b.bytes.length) : b.Follows p b.uid Reader.uid := by
  refine (follows_byte h).bind fun q kind _ _ inside => ?_
  refine .guard inside fun _ => (follows_length inside).bind fun q n ran _ inside => ?_
  have small := Reader.length_le ran
  refine (follows_take inside small).bind fun q taken took _ inside => ?_
  have wide := m.wide
  have short : taken.length * 3 ≤ m.largest := by
    rw [Reader.length_of_take took]
    omega
  rw [uidText_eq short]
  exact .ofExcept _ inside

theorem follows_integer (h : p ≤ b.bytes.length) : b.Follows p b.integer Reader.integer := by
  refine (follows_byte h).bind fun q kind _ _ inside => ?_
  refine (follows_length inside).bind fun q n _ _ inside => ?_
  refine .guard inside fun good => ?_
  have small : n ≤ 0xFFFFFF := by omega
  exact (follows_number inside small).bind fun _ _ _ _ inside => .pure _ inside

end Held

end Metering
