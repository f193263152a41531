import Metering.Ber.Reader
import Metering.Proofs.Cleartext

set_option autoImplicit false

/-! # What a reader takes

A step of reading takes bytes off the front and gives a value. `Reader.Takes` says so for every
continuation of the input, so what is written in a row is read in a row (`Takes.bind`). A step is
`Local` if all its successes are of that kind: it never looks behind what it takes. Two inputs that
begin alike are then taken apart alike (`Takes.unique`), which is how a format without ambiguity is
recognised. -/

namespace Metering.Reader

variable {α β : Type}

/-- The step takes `bytes` off the front and gives `a`, whatever follows. -/
def Takes (x : Step Reader α) (bytes : Bytes) (a : α) : Prop :=
  ∀ position rest, x.run ⟨position, bytes ++ rest⟩ = (.ok a, ⟨position + bytes.length, rest⟩)

/-- Every success of the step takes bytes off the front, and would have been the same whatever
followed them. -/
def Local (x : Step Reader α) : Prop :=
  ∀ ⦃r r' : Reader⦄ ⦃a : α⦄, x.run r = (.ok a, r') → ∃ bytes, r.rest = bytes ++ r'.rest ∧ Takes x bytes a

namespace Takes

variable {x : Step Reader α} {f : α → Step Reader β} {u v : Bytes} {a : α} {b : β}

theorem pure (a : α) : Takes (Pure.pure a) [] a := fun _ _ => rfl

theorem bind (h : Takes x u a) (h' : Takes (f a) v b) : Takes (x >>= f) (u ++ v) b := by
  intro position rest
  rw [List.append_assoc, Step.run_bind_of_ok (h position (v ++ rest)), h', List.length_append,
    Nat.add_assoc]

/-- A step that is followed by one that takes nothing. -/
theorem map (h : Takes x u a) (g : α → β) : Takes (x >>= fun a => Pure.pure (g a)) u (g a) := by
  have := h.bind (f := fun a => Pure.pure (g a)) (pure (g a))
  rwa [List.append_nil] at this

theorem ofExcept {r : Except Fault α} (h : r = .ok a) : Takes (Step.ofExcept r) [] a := by
  subst h
  exact pure a

/-- What was read tells what was taken, and where the rest begins. -/
theorem unique {a' : α} {r r' : Bytes} (h : Takes x u a) (h' : Takes x v a') (same : u ++ r = v ++ r') :
    u = v ∧ a = a' ∧ r = r' := by
  have runs := (h 0 r).symm.trans (same ▸ h' 0 r')
  simp only [Prod.mk.injEq, Except.ok.injEq, Reader.mk.injEq, Nat.zero_add] at runs
  obtain ⟨ha, -, rfl⟩ := runs
  exact ⟨List.append_cancel_right same, ha, rfl⟩

end Takes

namespace Local

variable {x y : Step Reader α} {f : α → Step Reader β}

theorem pure (a : α) : Local (Pure.pure a) := by
  intro r r' b h
  obtain ⟨hb, rfl⟩ := Prod.mk.inj h
  obtain rfl := Except.ok.inj hb
  exact ⟨[], rfl, .pure a⟩

theorem throw (e : Fault) : Local (MonadExcept.throw e : Step Reader α) :=
  fun _ _ _ h => absurd h Step.run_throw_ne_ok

theorem bind (hx : Local x) (hf : ∀ a, Local (f a)) : Local (x >>= f) := by
  intro r r' b h
  obtain ⟨a, t, h1, h2⟩ := Step.run_bind_ok.1 h
  obtain ⟨u, hu, takes⟩ := hx h1
  obtain ⟨v, hv, takes'⟩ := hf a h2
  exact ⟨u ++ v, by rw [hu, hv, List.append_assoc], takes.bind takes'⟩

theorem ite {c : Prop} [Decidable c] (hx : Local x) (hy : Local y) : Local (if c then x else y) := by
  split
  · exact hx
  · exact hy

theorem ofExcept (r : Except Fault α) : Local (Step.ofExcept r) := by
  cases r with
  | ok a => exact pure a
  | error e => exact throw e

end Local

/-! ## Bytes and numbers -/

theorem run_take (count : Nat) (r : Reader) :
    (take count).run r =
      if r.rest.length < count then (.error (r.short count), r)
      else (.ok (r.rest.take count), ⟨r.position + count, r.rest.drop count⟩) := by
  unfold take
  rw [Step.run_get_bind]
  split <;> rfl

theorem takes_take (bytes : Bytes) : Takes (take bytes.length) bytes bytes := by
  intro position rest
  rw [run_take, if_neg (by simp), List.take_left, List.drop_left]

theorem local_take (count : Nat) : Local (take count) := by
  intro r r' a h
  rw [run_take] at h
  split at h
  · exact absurd (Prod.mk.inj h).1 (by simp)
  next enough =>
    obtain ⟨ha, rfl⟩ := Prod.mk.inj h
    obtain rfl := Except.ok.inj ha
    have length : (r.rest.take count).length = count := by
      rw [List.length_take]
      omega
    have takes := takes_take (r.rest.take count)
    rw [length] at takes
    exact ⟨r.rest.take count, (List.take_append_drop count r.rest).symm, takes⟩

theorem takes_byte (b : UInt8) : Takes byte [b] b := (takes_take [b]).map fun bytes => bytes.getD 0 0

theorem run_byte (b : UInt8) (position : Nat) (rest : Bytes) :
    byte.run ⟨position, b :: rest⟩ = (.ok b, ⟨position + 1, rest⟩) := takes_byte b position rest

theorem run_remaining (r : Reader) : remaining.run r = (.ok r.rest.length, r) := rfl

theorem local_byte : Local byte := (local_take 1).bind fun _ => .pure _

theorem local_skip (count : Nat) : Local (skip count) := (local_take count).bind fun _ => .pure _

theorem takes_number {width n : Nat} (h : n < 256 ^ width) :
    Takes (number width) (Bytes.bigEndian width n) n := by
  have read := (takes_take (Bytes.bigEndian width n)).map Bytes.ofBigEndian
  rw [Bytes.length_bigEndian, Bytes.ofBigEndian_bigEndian, Bytes.fieldSize_eq, Nat.mod_eq_of_lt h] at read
  exact read

theorem local_number (width : Nat) : Local (number width) := (local_take width).bind fun _ => .pure _

theorem takes_length_short {n : Nat} (h : n < 0x80) : Takes length [UInt8.ofNat n] n := by
  have value : (UInt8.ofNat n).toNat = n := by
    rw [UInt8.toNat_ofNat']
    omega
  have low : UInt8.ofNat n < 0x80 := by
    rw [UInt8.lt_iff_toNat_lt, value]
    exact h
  refine (takes_byte (UInt8.ofNat n)).bind (v := []) ?_
  rw [if_pos low, value]
  exact .pure n

theorem takes_length_long (width : Nat) {n : Nat} (hw : 0 < width) (hw' : width ≤ 3) (hn : n < 256 ^ width) :
    Takes length (UInt8.ofNat (128 + width) :: Bytes.bigEndian width n) n := by
  have value : (UInt8.ofNat (128 + width)).toNat = 128 + width := by
    rw [UInt8.toNat_ofNat']
    omega
  have long : ¬ UInt8.ofNat (128 + width) < 0x80 := by
    rw [UInt8.lt_iff_toNat_lt, value]
    simp
  have octets : (128 + width) % 128 = width := by omega
  refine (takes_byte (UInt8.ofNat (128 + width))).bind (v := Bytes.bigEndian width n) ?_
  rw [if_neg long, value, octets, if_neg (by omega)]
  exact takes_number hn

/-- **A length is read back**, if it needs no more than three bytes after the first. -/
theorem takes_length {n : Nat} (h : n < 0x1000000) : Takes length (Ber.lengthBytes n) n := by
  unfold Ber.lengthBytes
  split
  · exact takes_length_short (by assumption)
  split
  · exact takes_length_long 1 (by decide) (by decide) (by omega)
  split
  · exact takes_length_long 2 (by decide) (by decide) (by omega)
  · exact takes_length_long 3 (by decide) (by decide) (by omega)

theorem local_length : Local length := by
  refine local_byte.bind fun first => .ite (.pure _) ?_
  exact .ite ((Local.throw _).bind fun _ => local_number _) (local_number _)

/-- **A number is read back.** -/
theorem takes_integer (n : UInt32) :
    Takes integer ([Ber.integerTag, UInt8.ofNat (Ber.unsignedBytes n.toNat).length] ++
      Ber.unsignedBytes n.toNat) n := by
  obtain ⟨width, pos, four, bound, bytes⟩ := Ber.unsignedBytes_eq n
  rw [bytes, Bytes.length_bigEndian]
  refine (takes_byte Ber.integerTag).bind ((takes_length_short (by omega)).bind ?_)
  rw [if_neg (by simp; omega)]
  have read := (takes_number bound).map UInt32.ofNat
  rwa [UInt32.ofNat_toNat] at read

/-! ## Where a reader stands

Whether a step succeeds or fails, it leaves the reader further on in the same bytes, and never behind their end. -/

/-- The reader went on in the same bytes. -/
def Onward (r r' : Reader) : Prop := ∃ bytes, r.rest = bytes ++ r'.rest ∧ r'.position = r.position + bytes.length

instance : IsPreorder Reader Onward where
  refl r := ⟨[], rfl, rfl⟩
  trans r s t := by
    rintro ⟨u, first, place⟩ ⟨v, second, place'⟩
    refine ⟨u ++ v, by rw [first, second, List.append_assoc], ?_⟩
    rw [place', place, List.length_append, Nat.add_assoc]

theorem take_onward (count : Nat) : Step.Moves Onward (take count) := by
  intro r
  rw [run_take]
  split
  · exact refl_of Onward r
  next enough => exact ⟨r.rest.take count, (List.take_append_drop count r.rest).symm, by simp; omega⟩

theorem byte_onward : Step.Moves Onward byte := (take_onward 1).bind fun _ => .pure _

theorem skip_onward (count : Nat) : Step.Moves Onward (skip count) := (take_onward count).bind fun _ => .pure _

end Metering.Reader
