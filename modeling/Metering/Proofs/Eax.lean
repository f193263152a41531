import Metering.Eax
import Metering.Proofs.Cleartext

set_option autoImplicit false

/-! # Opening what was sealed

Counter mode adds one key stream twice, so it is undone by doing it again (`Eax.applyStream_twice`),
whatever function on blocks makes the stream. The stream is cut into blocks from the front, and
encryption keeps lengths, so both directions meet the same blocks. Tags are compared without leaving
early, which comes to plain equality (`Eax.tagsAgree_iff`). -/

namespace Metering

theorem Bytes.xor_xor {a k : Bytes} (h : a.length ≤ k.length) : Bytes.xor (Bytes.xor a k) k = a := by
  induction a generalizing k with
  | nil => rfl
  | cons x a ih =>
    cases k with
    | nil => simp at h
    | cons y k =>
      simp only [List.length_cons] at h
      have rest : Bytes.xor (Bytes.xor a k) k = a := ih (by omega)
      unfold Bytes.xor at rest
      simp only [Bytes.xor, List.zipWith_cons_cons, UInt8.xor_assoc, UInt8.xor_self, UInt8.xor_zero, rest]

/-- A run is cut off in front of what follows it, if it is a whole one or the last. -/
theorem Bytes.chunks_go_append {size : Nat} {run rest : Bytes} (some : run ≠ [])
    (h : run.length = size ∨ run.length < size ∧ rest = []) (fuel : Nat) :
    Bytes.chunks.go size (fuel + 1) (run ++ rest) = run :: Bytes.chunks.go size fuel rest := by
  obtain ⟨take, drop⟩ : (run ++ rest).take size = run ∧ (run ++ rest).drop size = rest := by
    rcases h with rfl | ⟨short, rfl⟩
    · exact ⟨List.take_left, List.drop_left⟩
    · rw [List.append_nil]
      exact ⟨List.take_of_length_le (Nat.le_of_lt short), List.drop_of_length_le (Nat.le_of_lt short)⟩
  cases run with
  | nil => exact absurd rfl some
  | cons first run =>
    rw [List.cons_append] at take drop ⊢
    rw [chunks.go, take, drop]

namespace Eax

/-- The stream added twice, block by block. -/
theorem addStream_twice (e : Eax) {fuel fuel' : Nat} (counter : Nat) {body : Bytes}
    (h : body.length ≤ fuel) (h' : body.length ≤ fuel') :
    e.addStream counter (Bytes.chunks.go 16 fuel' (e.addStream counter (Bytes.chunks.go 16 fuel body))) =
      body := by
  induction fuel generalizing fuel' counter body with
  | zero =>
    obtain rfl := List.eq_nil_of_length_eq_zero (Nat.le_zero.1 h)
    cases fuel' <;> rfl
  | succ fuel ih =>
    cases hb : body with
    | nil => cases fuel' <;> rfl
    | cons first rest =>
      have size : body.length = rest.length + 1 := by rw [hb, List.length_cons]
      have left : (body.drop 16).length ≤ fuel := by simp; omega
      obtain ⟨fuel', rfl⟩ : ∃ n, fuel' = n + 1 := ⟨fuel' - 1, by omega⟩
      have left' : (body.drop 16).length ≤ fuel' := by simp; omega
      have stream : (body.take 16).length ≤ (e.encrypt (Block.ofNat counter)).bytes.length := by
        rw [Block.length_bytes]
        exact List.length_take_le 16 body
      -- the encrypted body starts with a block as long as that of the body
      have block : (Bytes.xor (body.take 16) (e.encrypt (Block.ofNat counter)).bytes).length =
          min 16 body.length := by
        simp [Bytes.xor]
      have rest : (e.addStream (counter + 1) (Bytes.chunks.go 16 fuel (body.drop 16))).length =
          body.length - 16 := by
        rw [e.length_addStream_chunks _ _ left, List.length_drop]
      rw [← hb, hb, Bytes.chunks.go, ← hb, addStream, Bytes.chunks_go_append, addStream,
        Bytes.xor_xor stream, ih _ left left', List.take_append_drop]
      · exact List.ne_nil_of_length_pos (by omega)
      · by_cases whole : 16 ≤ body.length
        · exact .inl (by omega)
        · exact .inr ⟨by omega, List.eq_nil_of_length_eq_zero (by omega)⟩

theorem applyStream_twice (e : Eax) (n : Block) (body : Bytes) :
    e.applyStream n (e.applyStream n body) = body :=
  e.addStream_twice _ (Nat.le_refl _) (Nat.le_of_eq (e.length_applyStream n body).symm)

/-- **What was encrypted is decrypted** under the same cleartext, and the tag is the one it should
have had. -/
theorem decryptBody_encryptBody (e : Eax) (clear body : Bytes) :
    e.decryptBody clear (e.encryptBody clear body).1 = (body, (e.encryptBody clear body).2) := by
  unfold encryptBody decryptBody
  dsimp only
  cases body with
  | nil => rfl
  | cons first rest =>
    have some : (e.applyStream (e.nonce clear) (first :: rest)).isEmpty = false := by
      cases h : e.applyStream (e.nonce clear) (first :: rest) with
      | nil =>
        have := congrArg List.length h
        simp at this
      | cons _ _ => rfl
    simp only [List.isEmpty_cons, Bool.false_eq_true, if_false, some, applyStream_twice]

/-! ## Tags -/

theorem foldl_or_eq_zero_iff (bytes : Bytes) (b : UInt8) :
    bytes.foldl (· ||| ·) b = 0 ↔ b = 0 ∧ ∀ x ∈ bytes, x = 0 := by
  induction bytes generalizing b with
  | nil => simp
  | cons x bytes ih => simp [ih, and_assoc]

theorem zipWith_xor_eq_zero_iff {a b : Bytes} (h : a.length = b.length) :
    (∀ x ∈ List.zipWith (· ^^^ ·) a b, x = 0) ↔ a = b := by
  induction a generalizing b with
  | nil =>
    cases b with
    | nil => simp
    | cons y b => simp at h
  | cons x a ih =>
    cases b with
    | nil => simp at h
    | cons y b =>
      simp only [List.length_cons, Nat.add_right_cancel_iff] at h
      simp [ih h]

/-- **Tags agree** exactly when they are equal. -/
theorem tagsAgree_iff {a b : Bytes} : tagsAgree a b = true ↔ a = b := by
  unfold tagsAgree
  simp only [Bool.and_eq_true, decide_eq_true_eq, foldl_or_eq_zero_iff, true_and]
  constructor
  · rintro ⟨length, same⟩
    exact (zipWith_xor_eq_zero_iff length).1 same
  · rintro rfl
    exact ⟨rfl, (zipWith_xor_eq_zero_iff rfl).2 rfl⟩

end Eax

end Metering
