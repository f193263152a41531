import Metering.Proofs.Ciphers
import Metering.Proofs.Eax

set_option autoImplicit false

/-! # The chain covers every byte

The chain takes what it is run over block by block (`Eax.chain_block`), up to a last block that is never
empty (`Eax.chain_last`), so it is the chain of the textbooks (`Eax.chain_eq_textbook`). Under a function that
tells blocks apart, nothing that enters it is lost: what is added to a block can be told from the outcome, the
end tells its bytes apart whether it is whole or filled up, and what differs before a block differs after it
(`Eax.chain_inj`). So a difference within one block is still there at the end, however many blocks follow
(`Eax.chain_ne`), and counter mode leaves it within its block (`Eax.DifferWithin.applyStream`). -/

namespace Metering

namespace Block

theorem xor_comm (a b : Block) : a.xor b = b.xor a := by
  apply Vector.ext
  intro i hi
  simp only [xor, Vector.getElem_zipWith, UInt8.xor_comm]

theorem xor_assoc (a b c : Block) : (a.xor b).xor c = a.xor (b.xor c) := by
  apply Vector.ext
  intro i hi
  simp only [xor, Vector.getElem_zipWith, UInt8.xor_assoc]

theorem xor_right_cancel {a b c : Block} (h : a.xor c = b.xor c) : a = b := by
  rw [← xor_xor a c, h, xor_xor]

theorem xor_left_cancel {a b c : Block} (h : a.xor b = a.xor c) : b = c := by
  rw [xor_comm a, xor_comm a] at h
  exact xor_right_cancel h

theorem xorFront_eq (b : Block) (bytes : Bytes) : b.xorFront bytes = b.xor (ofBytes bytes) := by
  apply Vector.ext
  intro i hi
  simp [xorFront, xor, ofBytes, Vector.get]

theorem ofBytes_bytes (b : Block) : ofBytes b.bytes = b := ofFn_getD_toList b

theorem bytes_ofBytes {bytes : Bytes} (h : bytes.length = 16) : (ofBytes bytes).bytes = bytes := toList_ofFn_getD h

/-- Up to sixteen bytes can be told from the block that they are filled up to. -/
theorem ofBytes_inj {a b : Bytes} (length : a.length = b.length) (short : a.length ≤ 16) (h : ofBytes a = ofBytes b) :
    a = b := by
  apply List.ext_getElem length
  intro i ha hb
  have inside : i < 16 := by omega
  have same := congrArg (fun v : Block => v[i]) h
  simpa [ofBytes, ha, hb] using same

end Block

namespace Bytes

/-- Fuel beyond the length makes no difference. -/
theorem chunks_go_fuel {size : Nat} (pos : 0 < size) {fuel fuel' : Nat} {bytes : Bytes} (enough : bytes.length ≤ fuel)
    (enough' : bytes.length ≤ fuel') : chunks.go size fuel bytes = chunks.go size fuel' bytes := by
  induction fuel generalizing fuel' bytes with
  | zero =>
    obtain rfl := List.eq_nil_of_length_eq_zero (Nat.le_zero.1 enough)
    cases fuel' <;> rfl
  | succ fuel ih =>
    cases bytes with
    | nil => cases fuel' <;> rfl
    | cons b rest =>
      obtain ⟨fuel', rfl⟩ : ∃ n, fuel' = n + 1 := ⟨fuel' - 1, by simp at enough'; omega⟩
      simp only [List.length_cons] at enough enough'
      have left : ((b :: rest).drop size).length ≤ rest.length := by
        rw [List.length_drop, List.length_cons]
        omega
      have same : chunks.go size fuel ((b :: rest).drop size) = chunks.go size fuel' ((b :: rest).drop size) :=
        ih (by omega) (by omega)
      rw [chunks.go, chunks.go, same]

theorem chunks_cons {size : Nat} (pos : 0 < size) {bytes : Bytes} (some : bytes ≠ []) :
    chunks size bytes = bytes.take size :: chunks size (bytes.drop size) := by
  cases bytes with
  | nil => exact absurd rfl some
  | cons b rest =>
    have left : ((b :: rest).drop size).length ≤ rest.length := by
      rw [List.length_drop, List.length_cons]
      omega
    rw [chunks, List.length_cons, chunks.go, chunks, chunks_go_fuel pos left (Nat.le_refl _)]

theorem xor_append_right (a k l : Bytes) :
    Bytes.xor a (k ++ l) = Bytes.xor (a.take k.length) k ++ Bytes.xor (a.drop k.length) l := by
  induction k generalizing a with
  | nil => cases a <;> rfl
  | cons y k ih =>
    cases a with
    | nil => rfl
    | cons x a => exact congrArg (List.cons (x ^^^ y)) (ih a)

/-- More than a block is a block and more. -/
theorem exists_block {bytes : Bytes} (long : 16 < bytes.length) :
    ∃ (m : Block) (rest : Bytes), bytes = m.bytes ++ rest ∧ rest ≠ [] := by
  refine ⟨.ofBytes (bytes.take 16), bytes.drop 16, ?_, ?_⟩
  · rw [Block.bytes_ofBytes (by rw [List.length_take]; omega), List.take_append_drop]
  · exact List.ne_nil_of_length_pos (by rw [List.length_drop]; omega)

end Bytes

namespace Eax

variable {e : Eax} {data a b last : Bytes} {blocks : List Block} {k : Nat}

/-! ## Block by block -/

/-- **One block of the chain.** -/
theorem chain_block (e : Eax) (start m : Block) {rest : Bytes} (some : rest ≠ []) :
    e.chain start (m.bytes ++ rest) = e.chain (e.encrypt (start.xor m)) rest := by
  have pos := List.length_pos_iff.2 some
  have size := m.length_bytes
  have full : ¬ (m.bytes ++ rest).isEmpty := by simp [some]
  have full' : ¬ rest.isEmpty := by simp [some]
  have whole : ((m.bytes ++ rest).length - 1) / 16 * 16 = m.bytes.length + (rest.length - 1) / 16 * 16 := by
    rw [List.length_append, size]
    omega
  unfold chain
  rw [if_neg full, if_neg full', whole]
  dsimp only
  have first : m.bytes ++ rest.take ((rest.length - 1) / 16 * 16) ≠ [] :=
    List.ne_nil_of_length_pos (by rw [List.length_append]; omega)
  rw [List.take_length_add_append, List.drop_length_add_append, Bytes.chunks_cons (by decide) first,
    List.take_left' size, List.drop_left' size, List.foldl_cons, Block.xorFront_eq, Block.ofBytes_bytes]

/-- What the end of the chain is mixed with: a whole block and `d`, or a shorter one, filled up with a one bit and
zeros, and `q`. -/
def closing (e : Eax) (last : Bytes) : Block :=
  if last.length = 16 then (Block.ofBytes last).xor e.d else (Block.ofBytes (last ++ [0x80])).xor e.q

/-- **The end of the chain.** -/
theorem chain_last (e : Eax) (start : Block) (some : last ≠ []) (short : last.length ≤ 16) :
    e.chain start last = e.encrypt (start.xor (e.closing last)) := by
  have full : ¬ last.isEmpty := by simp [some]
  have none : (last.length - 1) / 16 * 16 = 0 := by omega
  unfold chain
  rw [if_neg full, none]
  show e.lastBlock start last = _
  unfold lastBlock closing
  split
  · rw [Block.xorFront_eq, Block.xor_assoc]
  · rw [Block.xorFront_eq, Block.xor_assoc]

/-! ## The chain of the textbooks -/

/-- Data is cut into whole blocks and a last one that is not empty. -/
structure Cut (data : Bytes) (blocks : List Block) (last : Bytes) : Prop where
  data_eq : data = blocks.flatMap Block.bytes ++ last
  some : last ≠ []
  short : last.length ≤ 16

/-- The chain as textbooks have it: over the whole blocks, and then the last one. -/
def textbook (e : Eax) (start : Block) (blocks : List Block) (last : Bytes) : Block :=
  e.encrypt ((blocks.foldl (fun b m => e.encrypt (b.xor m)) start).xor (e.closing last))

theorem exists_cut {data : Bytes} (some : data ≠ []) : ∃ blocks last, Cut data blocks last := by
  by_cases short : data.length ≤ 16
  · exact ⟨[], data, rfl, some, short⟩
  · obtain ⟨m, rest, rfl, more⟩ := Bytes.exists_block (Nat.lt_of_not_le short)
    have shorter : rest.length < (m.bytes ++ rest).length := by simp
    obtain ⟨blocks, last, cut⟩ := exists_cut more
    exact ⟨m :: blocks, last, by rw [List.flatMap_cons, List.append_assoc, ← cut.data_eq], cut.some, cut.short⟩
termination_by data.length

/-- **The chain is that of the textbooks.** -/
theorem chain_eq_textbook (e : Eax) (start : Block) (cut : Cut data blocks last) :
    e.chain start data = e.textbook start blocks last := by
  obtain ⟨rfl, some, short⟩ := cut
  induction blocks generalizing start with
  | nil => exact e.chain_last start some short
  | cons m blocks ih =>
    have more : blocks.flatMap Block.bytes ++ last ≠ [] := by simp [some]
    rw [List.flatMap_cons, List.append_assoc, chain_block e start m more, ih]
    rfl

/-! ## Nothing is lost -/

/-- The end of the chain tells its bytes apart. -/
theorem closing_inj (length : a.length = b.length) (short : a.length ≤ 16) (h : e.closing a = e.closing b) : a = b := by
  unfold closing at h
  rw [← length] at h
  split at h
  · exact Block.ofBytes_inj length short (Block.xor_right_cancel h)
  next shorter =>
    have longer : (a ++ [0x80]).length = (b ++ [0x80]).length := by simp [length]
    have fits : (a ++ [0x80]).length ≤ 16 := by
      rw [List.length_append, List.length_singleton]
      omega
    exact List.append_cancel_right (Block.ofBytes_inj longer fits (Block.xor_right_cancel h))

/-- What differs before a chain differs after it. -/
theorem chain_inj (injective : Function.Injective e.encrypt) {s t : Block} {data : Bytes}
    (h : e.chain s data = e.chain t data) : s = t := by
  by_cases none : data = []
  · subst none
    exact h
  by_cases short : data.length ≤ 16
  · rw [chain_last e s none short, chain_last e t none short] at h
    exact Block.xor_right_cancel (injective h)
  · obtain ⟨m, rest, rfl, more⟩ := Bytes.exists_block (Nat.lt_of_not_le short)
    have shorter : rest.length < (m.bytes ++ rest).length := by simp
    rw [chain_block e s m more, chain_block e t m more] at h
    exact Block.xor_right_cancel (injective (chain_inj injective h))
termination_by data.length

/-- Two runs of one length differ, and only within one block. -/
structure DifferWithin (k : Nat) (a b : Bytes) : Prop where
  length : a.length = b.length
  differ : a ≠ b
  within : ∀ i, a[i]? ≠ b[i]? → i / 16 = k

/-- Runs that differ in their first block share what follows it, and others share their first block. -/
theorem DifferWithin.cases {m m' : Block} {rest rest' : Bytes}
    (h : DifferWithin k (m.bytes ++ rest) (m'.bytes ++ rest')) :
    (m ≠ m' ∧ rest = rest') ∨ ∃ k', m = m' ∧ DifferWithin k' rest rest' := by
  obtain ⟨length, differ, within⟩ := h
  have later (i : Nat) : (m.bytes ++ rest)[16 + i]? = rest[i]? ∧ (m'.bytes ++ rest')[16 + i]? = rest'[i]? := by
    rw [← m.length_bytes, List.getElem?_append_right (Nat.le_add_right _ _), Nat.add_sub_cancel_left, m.length_bytes,
      ← m'.length_bytes, List.getElem?_append_right (Nat.le_add_right _ _), Nat.add_sub_cancel_left]
    exact ⟨rfl, rfl⟩
  have front (i : Nat) (hi : i < 16) : (m.bytes ++ rest)[i]? = m.bytes[i]? ∧ (m'.bytes ++ rest')[i]? = m'.bytes[i]? :=
    ⟨List.getElem?_append_left (m.length_bytes.symm ▸ hi), List.getElem?_append_left (m'.length_bytes.symm ▸ hi)⟩
  by_cases same : m = m'
  · subst same
    refine .inr ⟨k - 1, rfl, ?_, ?_, ?_⟩
    · simpa using length
    · rintro rfl
      exact differ rfl
    · intro i other
      rw [← (later i).1, ← (later i).2] at other
      have := within _ other
      omega
  · refine .inl ⟨same, List.ext_getElem? fun i => ?_⟩
    -- the first block holds the difference already
    have first : k = 0 := by
      by_contra far
      apply same
      apply Vector.toList_inj.1
      apply List.ext_getElem?
      intro i
      by_cases inside : i < 16
      · by_contra other
        have := within i (by rw [(front i inside).1, (front i inside).2]; exact other)
        omega
      · have beyond (m : Block) : m.toList[i]? = none := List.getElem?_eq_none (by simp; omega)
        rw [beyond, beyond]
    by_contra other
    rw [← (later i).1, ← (later i).2] at other
    have := within _ other
    omega

/-- **A difference within one block reaches the end** of the chain. -/
theorem chain_ne (injective : Function.Injective e.encrypt) {k : Nat} {a b : Bytes} {start : Block}
    (h : DifferWithin k a b) : e.chain start a ≠ e.chain start b := by
  intro same
  have length := h.length
  have some : a ≠ [] := by
    rintro rfl
    exact h.differ (List.eq_nil_of_length_eq_zero length.symm).symm
  have some' : b ≠ [] := List.ne_nil_of_length_pos (length ▸ List.length_pos_iff.2 some)
  by_cases short : a.length ≤ 16
  · rw [chain_last e start some short, chain_last e start some' (length ▸ short)] at same
    exact h.differ (closing_inj length short (Block.xor_left_cancel (injective same)))
  · obtain ⟨m, rest, rfl, more⟩ := Bytes.exists_block (Nat.lt_of_not_le short)
    obtain ⟨m', rest', rfl, more'⟩ := Bytes.exists_block (length ▸ Nat.lt_of_not_le short)
    have shorter : rest.length < (m.bytes ++ rest).length := by simp
    rw [chain_block e start m more, chain_block e start m' more'] at same
    obtain ⟨other, rfl⟩ | ⟨k', rfl, within⟩ := h.cases
    · exact other (Block.xor_left_cancel (injective (chain_inj injective same)))
    · exact chain_ne injective within same
termination_by a.length

/-! ## The key stream -/

/-- The first `n` blocks of the key stream from a counter. -/
def keystream (e : Eax) : (counter n : Nat) → Bytes
  | _, 0 => []
  | counter, n + 1 => (e.encrypt (Block.ofNat counter)).bytes ++ keystream e (counter + 1) n

theorem length_keystream (e : Eax) (counter n : Nat) : (e.keystream counter n).length = 16 * n := by
  induction n generalizing counter with
  | zero => rfl
  | succ n ih =>
    rw [keystream, List.length_append, Block.length_bytes, ih]
    omega

/-- Counter mode adds the key stream, byte by byte. -/
theorem addStream_eq_xor (e : Eax) (counter : Nat) {n : Nat} {body : Bytes} (enough : body.length ≤ 16 * n) :
    e.addStream counter (Bytes.chunks 16 body) = Bytes.xor body (e.keystream counter n) := by
  induction n generalizing counter body with
  | zero =>
    obtain rfl := List.eq_nil_of_length_eq_zero (Nat.le_zero.1 enough)
    rfl
  | succ n ih =>
    by_cases none : body = []
    · subst none
      rfl
    · have left : (body.drop 16).length ≤ 16 * n := by
        rw [List.length_drop]
        omega
      rw [Bytes.chunks_cons (by decide) none, addStream, ih _ left, keystream, Bytes.xor_append_right, Block.length_bytes]

/-- **Counter mode keeps a difference where it is.** -/
theorem DifferWithin.applyStream (h : DifferWithin k a b) (e : Eax) (n : Block) :
    DifferWithin k (e.applyStream n a) (e.applyStream n b) := by
  have enough : a.length ≤ 16 * a.length := by omega
  have long : a.length ≤ (e.keystream (firstCounter n).toNat a.length).length := by rwa [length_keystream]
  have left : e.applyStream n a = Bytes.xor a (e.keystream (firstCounter n).toNat a.length) :=
    e.addStream_eq_xor _ enough
  have right : e.applyStream n b = Bytes.xor b (e.keystream (firstCounter n).toNat a.length) :=
    e.addStream_eq_xor _ (h.length ▸ enough)
  refine ⟨?_, fun same => h.differ ?_, fun i other => h.within i ?_⟩
  · rw [length_applyStream, length_applyStream, h.length]
  · rw [← e.applyStream_twice n a, same, applyStream_twice]
  · intro same
    rw [left, right, Bytes.xor, Bytes.xor, List.getElem?_zipWith, List.getElem?_zipWith, same] at other
    exact other rfl

/-! ## The chain covers every byte -/

/-- **The chain covers every byte.** Over data that is not empty it is the chain of the textbooks, and if the
function on blocks tells them apart, a difference within one block is not lost: neither in the nonce of a
cleartext, nor in the block that the tag of a body is cut from, be the body encrypted already or not. -/
theorem chain_covers (e : Eax) :
    (∀ data : Bytes, data ≠ [] → ∃ blocks last, Cut data blocks last) ∧
    (∀ (start : Block) (data : Bytes) (blocks : List Block) (last : Bytes), Cut data blocks last →
      e.chain start data = e.textbook start blocks last) ∧
    (Function.Injective e.encrypt → ∀ (k : Nat) (a b : Bytes), DifferWithin k a b →
      e.nonce a ≠ e.nonce b ∧
      ∀ n : Block, (e.chain e.q a).xor n ≠ (e.chain e.q b).xor n ∧
        (e.chain e.q (e.applyStream n a)).xor n ≠ (e.chain e.q (e.applyStream n b)).xor n) := by
  refine ⟨fun _ => exists_cut, fun start _ _ _ => e.chain_eq_textbook start, fun injective k a b h =>
    ⟨chain_ne injective h, fun n => ⟨?_, ?_⟩⟩⟩
  · exact mt Block.xor_right_cancel (chain_ne injective h)
  · exact mt Block.xor_right_cancel (chain_ne injective (h.applyStream e n))

/-- The mode over AES under one key. -/
def underKey : Eax := .ofCipher (Aes.cipher (.ofBytes
  [0x2B, 0x7E, 0x15, 0x16, 0x28, 0xAE, 0xD2, 0xA6, 0xAB, 0xF7, 0x15, 0x88, 0x09, 0xCF, 0x4F, 0x3C])).encrypt

/-- Two cleartexts of a block and four bytes, of which the last one differs. -/
theorem chain_covers_underKey :
    underKey.nonce (List.replicate 19 0x55 ++ [1]) =
      underKey.textbook underKey.d [.ofBytes (List.replicate 16 0x55)] [0x55, 0x55, 0x55, 1] ∧
    underKey.nonce (List.replicate 19 0x55 ++ [1]) ≠ underKey.nonce (List.replicate 19 0x55 ++ [2]) := by
  obtain ⟨-, covers, keeps⟩ := chain_covers underKey
  have cut : Cut (List.replicate 19 0x55 ++ [1]) [.ofBytes (List.replicate 16 0x55)] [0x55, 0x55, 0x55, 1] :=
    ⟨by decide, by decide, by decide⟩
  have within : DifferWithin 1 (List.replicate 19 0x55 ++ [1]) (List.replicate 19 0x55 ++ [2]) := by
    refine ⟨rfl, by decide, fun i other => ?_⟩
    by_cases inside : i < 20
    · revert other
      revert i
      decide
    · have beyond (c : UInt8) : (List.replicate 19 0x55 ++ [c])[i]? = none :=
        List.getElem?_eq_none (by simpa using inside)
      exact absurd ((beyond 1).trans (beyond 2).symm) other
  exact ⟨covers _ _ _ _ cut, (keeps (Aes.encrypt_injective _) 1 _ _ within).1⟩

end Eax

end Metering
