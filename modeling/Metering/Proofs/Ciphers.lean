import Metering.Client.Start
import Metering.Proofs.Bits
import Metering.Proofs.Splitting
import Metering.Proofs.Steps
import Mathlib.Algebra.Group.Nat.Defs
import Mathlib.Data.Finite.Prod

set_option autoImplicit false

/-! # Encrypting what was decrypted

Both block ciphers give a block back that was decrypted and then encrypted, under every key. Rounds of
AES are undone from the inside out: the substitution by its table, the rows by turning them further and
the columns because doubling is linear over exclusive or, which leaves four checks of one byte
(`Aes.mix_unmix`). Rounds of DES are undone whatever function mixes a half with a key
(`Des.rounds_rounds`), and its two permutations undo each other by their tables (`Des.pick_pick`).
A proof that decrypts to something is therefore its encryption (`TicketCipher.encrypt_of_decrypt`). -/

namespace Metering

/-- What holds of the first 256 numbers holds of every byte. -/
theorem UInt8.forall_of_lt {P : UInt8 → Prop} (h : ∀ i < 256, P (UInt8.ofNat i)) (b : UInt8) : P b := by
  have := h b.toNat b.toNat_lt
  rwa [UInt8.ofNat_toNat] at this

/-! ## Blocks -/

theorem toList_ofFn_getD {size : Nat} {bytes : Bytes} (h : bytes.length = size) :
    (Vector.ofFn fun i : Fin size => bytes.getD i.val 0).toList = bytes := by
  apply List.ext_getElem
  · simp [h]
  · intro i h1 h2
    simp [h2]

theorem ofFn_getD_toList {size : Nat} (b : Vector UInt8 size) :
    (Vector.ofFn fun i : Fin size => b.toList.getD i.val 0) = b :=
  Vector.toList_inj.1 (toList_ofFn_getD b.length_toList)

/-- Data of one length is its only chunk. -/
theorem Bytes.chunks_whole {size : Nat} {bytes : Bytes} (pos : 0 < size) (h : bytes.length = size) :
    chunks size bytes = [bytes] := by
  have some : bytes ≠ [] := List.ne_nil_of_length_pos (h ▸ pos)
  have one : (chunks size bytes).length ≤ 1 := length_chunks_le (by omega)
  have whole : (chunks size bytes).flatten = bytes := flatten_chunks pos bytes
  have first : (chunks size bytes).length ≠ 0 := fun none => chunks_ne_nil some (List.eq_nil_of_length_eq_zero none)
  obtain ⟨piece, only⟩ := List.length_eq_one_iff.1 (by omega : (chunks size bytes).length = 1)
  rw [only] at whole ⊢
  rw [← whole, List.flatten_singleton]

theorem BlockCipher.onBlocks_block (f : Block → Block) (b : Block) : onBlocks f b.bytes = .ok (f b).bytes := by
  have same : Block.ofBytes b.bytes = b := ofFn_getD_toList b
  have some : ¬ (b.bytes.isEmpty ∨ b.bytes.length % 16 ≠ 0) := by
    rw [List.isEmpty_iff_length_eq_zero, b.length_bytes]
    decide
  unfold onBlocks
  rw [if_neg some, Bytes.chunks_whole (by decide) b.length_bytes]
  simp only [List.flatMap_cons, List.flatMap_nil, List.append_nil, same]

theorem Block.xor_xor (a b : Block) : (a.xor b).xor b = a := by
  apply Vector.ext
  intro i hi
  simp only [Block.xor, Vector.getElem_zipWith, UInt8.xor_assoc, UInt8.xor_self, UInt8.xor_zero]

/-! ## AES -/

namespace Aes

theorem substitute_origin (b : UInt8) : substitute (origin b) = b := by
  revert b
  exact UInt8.forall_of_lt (by decide +kernel)

theorem double_eq (b : UInt8) : double b = (b <<< 1) ^^^ (if b.toBitVec.msb then 0x1B else 0) := by
  revert b
  exact UInt8.forall_of_lt (by decide +kernel)

theorem double_xor (a b : UInt8) : double (a ^^^ b) = double a ^^^ double b := by
  have swap (x y z : UInt8) : x ^^^ (y ^^^ z) = y ^^^ (x ^^^ z) := by
    rw [← UInt8.xor_assoc, UInt8.xor_comm x y, UInt8.xor_assoc]
  rw [double_eq, double_eq, double_eq, UInt8.shiftLeft_xor, UInt8.toBitVec_xor, BitVec.msb_xor]
  cases a.toBitVec.msb <;> cases b.toBitVec.msb <;> simp [UInt8.xor_assoc, UInt8.xor_comm, swap]

theorem triple_xor (a b : UInt8) : triple (a ^^^ b) = triple a ^^^ triple b := by
  simp only [triple, double_xor]
  ac_rfl

/-- Every byte of a column counts on its own. -/
theorem unmix_eq (a b c d : UInt8) :
    unmix a b c d = unmix a 0 0 0 ^^^ unmix 0 b 0 0 ^^^ unmix 0 0 c 0 ^^^ unmix 0 0 0 d := by
  have zero : double 0 = 0 := rfl
  simp [unmix, zero]

/-- **The factors of a mixed column** times those that undo it: the first byte is left, and the others
cancel out. -/
theorem mix_unmix (a b c d : UInt8) :
    double (unmix a b c d) ^^^ triple (unmix b c d a) ^^^ unmix c d a b ^^^ unmix d a b c = a := by
  have first (x : UInt8) :
      double (unmix x 0 0 0) ^^^ triple (unmix 0 0 0 x) ^^^ unmix 0 0 x 0 ^^^ unmix 0 x 0 0 = x := by
    revert x
    exact UInt8.forall_of_lt (by decide +kernel)
  have second (x : UInt8) :
      double (unmix 0 x 0 0) ^^^ triple (unmix x 0 0 0) ^^^ unmix 0 0 0 x ^^^ unmix 0 0 x 0 = 0 := by
    revert x
    exact UInt8.forall_of_lt (by decide +kernel)
  have third (x : UInt8) :
      double (unmix 0 0 x 0) ^^^ triple (unmix 0 x 0 0) ^^^ unmix x 0 0 0 ^^^ unmix 0 0 0 x = 0 := by
    revert x
    exact UInt8.forall_of_lt (by decide +kernel)
  have last (x : UInt8) :
      double (unmix 0 0 0 x) ^^^ triple (unmix 0 0 x 0) ^^^ unmix 0 x 0 0 ^^^ unmix x 0 0 0 = 0 := by
    revert x
    exact UInt8.forall_of_lt (by decide +kernel)
  rw [unmix_eq a b c d, unmix_eq b c d a, unmix_eq c d a b, unmix_eq d a b c]
  simp only [double_xor, triple_xor]
  calc _ = (double (unmix a 0 0 0) ^^^ triple (unmix 0 0 0 a) ^^^ unmix 0 0 a 0 ^^^ unmix 0 a 0 0) ^^^
      (double (unmix 0 b 0 0) ^^^ triple (unmix b 0 0 0) ^^^ unmix 0 0 0 b ^^^ unmix 0 0 b 0) ^^^
      (double (unmix 0 0 c 0) ^^^ triple (unmix 0 c 0 0) ^^^ unmix c 0 0 0 ^^^ unmix 0 0 0 c) ^^^
      (double (unmix 0 0 0 d) ^^^ triple (unmix 0 0 d 0) ^^^ unmix 0 d 0 0 ^^^ unmix d 0 0 0) := by ac_rfl
    _ = a := by rw [first, second, third, last, UInt8.xor_zero, UInt8.xor_zero, UInt8.xor_zero]

theorem mixColumns_unmixColumns (s : Block) : mixColumns (unmixColumns s) = s := by
  apply Vector.ext
  intro i hi
  -- four rows further down is the same row again
  have again (k m : Nat) : 4 * ((4 * (i / 4) + (i + k) % 4) / 4) + (4 * (i / 4) + (i + k) % 4 + m) % 4 =
      4 * (i / 4) + (i + (k + m)) % 4 := by omega
  have round (k : Nat) : (i + (4 + k)) % 4 = (i + k) % 4 := by omega
  have home : 4 * (i / 4) + (i + 0) % 4 = i := by omega
  simp only [mixColumns, unmixColumns, below, Vector.getElem_ofFn, Fin.getElem_fin, again, Nat.reduceAdd, round 0,
    round 1, round 2, home]
  exact mix_unmix _ _ _ _

theorem shiftRows_unshiftRows (s : Block) : shiftRows (unshiftRows s) = s := by
  apply Vector.ext
  intro i hi
  have place : ((i + 4 * (i % 4)) % 16 + 12 * ((i + 4 * (i % 4)) % 16 % 4)) % 16 = i := by omega
  simp only [shiftRows, unshiftRows, Vector.getElem_ofFn, place]

theorem map_substitute_map_origin (s : Block) : (s.map origin).map substitute = s := by
  apply Vector.ext
  intro i hi
  simp only [Vector.getElem_map, substitute_origin]

/-- The rounds take up where undoing them got to: what is left is the last round that was undone,
without its substitution. -/
theorem rounds_unrounds (first : Block) (more : List Block) (s : Block) {rest : List Block} (some : rest ≠ []) :
    rounds ((unrounds s (more ++ [first])).xor first) (more.reverse ++ rest) =
      rounds ((unshiftRows s).map origin) rest := by
  induction more generalizing s rest with
  | nil => rw [List.nil_append, unrounds, Block.xor_xor, List.reverse_nil, List.nil_append]
  | cons k more ih =>
    obtain ⟨next, others, left⟩ := List.exists_cons_of_ne_nil (l := more ++ [first]) (by simp)
    obtain ⟨next', others', right⟩ := List.exists_cons_of_ne_nil some
    rw [List.cons_append, left, unrounds, ← left, List.reverse_cons, List.append_assoc, List.singleton_append,
      ih _ (List.cons_ne_nil k rest), right, rounds, map_substitute_map_origin, shiftRows_unshiftRows,
      mixColumns_unmixColumns, Block.xor_xor]
    · exact List.cons_ne_nil _ _
    · exact List.cons_ne_nil _ _

/-- **Encrypting undoes decrypting**, with any round keys. -/
theorem encryptWith_decryptWith (keys : List Block) (b : Block) :
    encryptWith keys (decryptWith keys.reverse b) = b := by
  cases keys with
  | nil => rfl
  | cons first keys =>
    rcases keys.eq_nil_or_concat with rfl | ⟨more, last, rfl⟩
    · exact Block.xor_xor b first
    · have := rounds_unrounds first more.reverse (b.xor last) (List.cons_ne_nil last [])
      rw [List.reverse_reverse] at this
      rw [encryptWith, List.concat_eq_append, List.reverse_cons, List.reverse_append, List.reverse_singleton,
        List.singleton_append, List.cons_append, decryptWith, this, rounds, map_substitute_map_origin,
        shiftRows_unshiftRows, Block.xor_xor]

theorem encrypt_decrypt (key b : Block) : (cipher key).encrypt ((cipher key).decrypt b) = b :=
  encryptWith_decryptWith (roundKeys key) b

/-- **AES tells blocks apart**, under every key: there are only so many of them, and each is the encryption of
one. -/
theorem encrypt_injective (key : Block) : Function.Injective (cipher key).encrypt := by
  have bytes : Finite UInt8 := .of_injective UInt8.toFin fun _ _ => UInt8.toFin_inj.1
  have blocks : Finite Block := .of_injective (fun b (i : Fin 16) => b[i]) fun a b same =>
    Vector.ext fun i hi => congrFun same ⟨i, hi⟩
  exact Finite.injective_iff_surjective.2 fun b => ⟨_, encrypt_decrypt key b⟩

end Aes

/-! ## DES -/

namespace Des

variable {width : Nat} {table back : List Nat} {x : Nat}

theorem pick_concat (place : Nat) :
    pick width (table ++ [place]) x = 2 * pick width table x + (x >>> (width - place)) % 2 := by
  simp [pick]

theorem testBit_pick (i : Nat) :
    (pick width table x).testBit i =
      (table.reverse[i]?).elim false fun place => x.testBit (width - place) := by
  induction table using List.reverseRecOn generalizing i with
  | nil => simp [pick]
  | append_singleton table place ih =>
    have low : (x >>> (width - place)) % 2 < 2 ^ 1 := Nat.mod_lt _ (by decide)
    rw [pick_concat, ← Nat.pow_one 2, Nat.testBit_two_pow_mul_add _ low, List.reverse_append,
      List.reverse_singleton, List.singleton_append]
    cases i with
    | zero => simp [Nat.testBit]
    | succ i =>
      rw [if_neg (by omega), ih]
      rfl

theorem pick_lt : pick width table x < 2 ^ table.length := by
  induction table using List.reverseRecOn with
  | nil => simp [pick]
  | append_singleton table place ih =>
    rw [pick_concat, List.length_append, List.length_singleton, Nat.pow_succ]
    omega

/-- A table undoes another if it picks every bit from where the other put it. -/
theorem pick_pick (whole : back.length = width) (hx : x < 2 ^ width)
    (undone : ∀ i < width, (back.reverse[i]?).bind (fun place => table.reverse[width - place]?) = some (width - i)) :
    pick width back (pick width table x) = x := by
  apply Nat.eq_of_testBit_eq
  intro i
  rw [testBit_pick]
  by_cases inside : i < width
  · have := undone i inside
    obtain ⟨place, at_, from_⟩ := Option.bind_eq_some_iff.1 this
    rw [at_, Option.elim_some, testBit_pick, from_, Option.elim_some, Nat.sub_sub_self (Nat.le_of_lt inside)]
  · have out : back.reverse[i]? = none := List.getElem?_eq_none (by simp; omega)
    have beyond : x < 2 ^ i := Nat.lt_of_lt_of_le hx (Nat.pow_le_pow_right (by decide) (by omega))
    rw [out, Option.elim_none, Nat.testBit_lt_two_pow beyond]

theorem final_initial {x : Nat} (h : x < 2 ^ 64) : pick 64 finalTable (pick 64 initialTable x) = x :=
  pick_pick rfl h (by decide)

theorem initial_final {x : Nat} (h : x < 2 ^ 64) : pick 64 initialTable (pick 64 finalTable x) = x :=
  pick_pick rfl h (by decide)

theorem mix_lt (half key : Nat) : mix half key < 2 ^ 32 := pick_lt

theorem rounds_concat (left right key : Nat) (keys : List Nat) :
    rounds left right (keys ++ [key]) =
      ((rounds left right keys).2 ^^^ mix (rounds left right keys).1 key, (rounds left right keys).1) := by
  induction keys generalizing left right with
  | nil => rfl
  | cons k keys ih => exact ih _ _

/-- **The rounds undo themselves** with the keys in the opposite order, whatever they mix in. -/
theorem rounds_rounds (left right : Nat) (keys : List Nat) :
    rounds (rounds left right keys).1 (rounds left right keys).2 keys.reverse = (left, right) := by
  induction keys generalizing left right with
  | nil => rfl
  | cons k keys ih =>
    rw [rounds, List.reverse_cons, rounds_concat, ih, Nat.xor_assoc, Nat.xor_self, Nat.xor_zero]

theorem rounds_lt {left right : Nat} (keys : List Nat) (hl : left < 2 ^ 32) (hr : right < 2 ^ 32) :
    (rounds left right keys).1 < 2 ^ 32 ∧ (rounds left right keys).2 < 2 ^ 32 := by
  induction keys generalizing left right with
  | nil => exact ⟨hr, hl⟩
  | cons k keys ih => exact ih hr (Nat.xor_lt_two_pow hl (mix_lt _ _))

theorem crypt_lt (keys : List Nat) (x : Nat) : crypt keys x < 2 ^ 64 := pick_lt

theorem crypt_crypt {x : Nat} (keys : List Nat) (hx : x < 2 ^ 64) : crypt keys (crypt keys.reverse x) = x := by
  have start : pick 64 initialTable x < 2 ^ 64 := pick_lt
  have left : pick 64 initialTable x / 0x100000000 < 2 ^ 32 := by omega
  have right : pick 64 initialTable x % 0x100000000 < 2 ^ 32 := by omega
  obtain ⟨hl, hr⟩ := rounds_lt keys.reverse left right
  have undone := rounds_rounds (pick 64 initialTable x / 0x100000000) (pick 64 initialTable x % 0x100000000)
    keys.reverse
  generalize halves : rounds (pick 64 initialTable x / 0x100000000) (pick 64 initialTable x % 0x100000000)
    keys.reverse = h at hl hr undone
  rw [List.reverse_reverse] at undone
  have inner : crypt keys.reverse x = pick 64 finalTable (h.1 * 0x100000000 + h.2) := by rw [crypt, halves]
  rw [crypt, inner, initial_final (by omega)]
  have high : (h.1 * 0x100000000 + h.2) / 0x100000000 = h.1 := by omega
  have low : (h.1 * 0x100000000 + h.2) % 0x100000000 = h.2 := by omega
  simp only [high, low, undone]
  rw [show pick 64 initialTable x / 0x100000000 * 0x100000000 + pick 64 initialTable x % 0x100000000 =
    pick 64 initialTable x by omega, final_initial hx]

theorem toList_cryptBlock (keys : List Nat) (b : Vector UInt8 8) :
    (cryptBlock keys b).toList = Bytes.bigEndian 8 (crypt keys (Bytes.ofBigEndian b.toList)) := by
  apply List.ext_getElem
  · simp
  · intro i h h'
    simp [cryptBlock]

/-- **Encrypting undoes decrypting**, with any round keys. -/
theorem cryptBlock_cryptBlock (keys : List Nat) (b : Vector UInt8 8) :
    cryptBlock keys (cryptBlock keys.reverse b) = b := by
  have size : Bytes.fieldSize 8 = 2 ^ 64 := rfl
  have small : Bytes.ofBigEndian b.toList < 2 ^ 64 := by
    have := Bytes.ofBigEndian_lt b.toList
    rwa [Vector.length_toList, size] at this
  have inner : (cryptBlock keys.reverse b).toList =
      Bytes.bigEndian 8 (crypt keys.reverse (Bytes.ofBigEndian b.toList)) := toList_cryptBlock _ _
  have back : Bytes.bigEndian 8 (Bytes.ofBigEndian b.toList) = b.toList := by
    have := Bytes.bigEndian_ofBigEndian b.toList
    rwa [Vector.length_toList] at this
  apply Vector.toList_inj.1
  rw [toList_cryptBlock, inner, Bytes.ofBigEndian_bigEndian, size, Nat.mod_eq_of_lt (crypt_lt _ _),
    crypt_crypt keys small, back]

theorem encrypt_decrypt (key b : Vector UInt8 8) : (cipher key).encrypt ((cipher key).decrypt b) = b :=
  cryptBlock_cryptBlock (roundKeys (Bytes.ofBigEndian key.toList)) b

end Des

/-! ## Tickets -/

namespace Client

theorem desBlock_ok {f : Vector UInt8 8 → Vector UInt8 8} {data out : Bytes} :
    desBlock f data = .ok out ↔
      ∃ b : Vector UInt8 8, data = b.toList ∧ out = (f b).toList := by
  unfold desBlock
  constructor
  · intro h
    split at h
    next size =>
      refine ⟨Vector.ofFn fun i => data.getD i.val 0, ?_, (Except.ok.inj h).symm⟩
      exact (toList_ofFn_getD size).symm
    · cases h
  · rintro ⟨b, rfl, rfl⟩
    rw [if_pos b.length_toList, ofFn_getD_toList]

theorem TicketCipher.ofKey_des {key : SecretKey} (h : key.length = 8) :
    ofKey key = .ok
      { blockSize := 8
        encrypt := desBlock (Des.cipher (Vector.ofFn fun i => key.bytes.getD i.val 0)).encrypt
        decrypt := desBlock (Des.cipher (Vector.ofFn fun i => key.bytes.getD i.val 0)).decrypt } := by
  unfold ofKey SecretKey.des
  rw [if_pos h, if_pos h]
  rfl

theorem TicketCipher.ofKey_aes {key : SecretKey} (h : key.length = 16) :
    ofKey key = .ok
      { blockSize := 16
        encrypt := (Aes.cipher (Block.ofBytes key.bytes)).encryptAll
        decrypt := (Aes.cipher (Block.ofBytes key.bytes)).decryptAll } := by
  unfold ofKey SecretKey.aes
  rw [if_neg (by omega), if_pos h, if_pos h]
  rfl

theorem TicketCipher.length_of_ofKey {key : SecretKey} {cipher : TicketCipher} (h : ofKey key = .ok cipher) :
    key.length = 8 ∨ key.length = 16 := by
  unfold ofKey at h
  split at h
  next des => exact .inl des
  next =>
    split at h
    next aes => exact .inr aes
    next => cases h

/-- **A proof that decrypts to something is its encryption**, if it is one block. -/
theorem TicketCipher.encrypt_of_decrypt {key : SecretKey} {cipher : TicketCipher} (known : ofKey key = .ok cipher)
    {data plain : Bytes} (block : data.length = cipher.blockSize) (h : cipher.decrypt data = .ok plain) :
    cipher.encrypt plain = .ok data := by
  rcases length_of_ofKey known with des | aes
  · obtain rfl := Except.ok.inj ((ofKey_des des).symm.trans known)
    generalize hc : Des.cipher (Vector.ofFn fun i => key.bytes.getD i.val 0) = c at h ⊢
    obtain ⟨b, rfl, rfl⟩ := desBlock_ok.1 h
    have closed : desBlock c.encrypt (c.decrypt b).toList = .ok (c.encrypt (c.decrypt b)).toList :=
      desBlock_ok.2 ⟨_, rfl, rfl⟩
    rw [← hc, Des.encrypt_decrypt, hc] at closed
    exact closed
  · obtain rfl := Except.ok.inj ((ofKey_aes aes).symm.trans known)
    generalize hc : Aes.cipher (Block.ofBytes key.bytes) = c at h ⊢
    obtain ⟨b, rfl⟩ : ∃ b : Block, data = b.bytes := ⟨Block.ofBytes data, (toList_ofFn_getD block).symm⟩
    obtain rfl := Except.ok.inj ((BlockCipher.onBlocks_block c.decrypt b).symm.trans h)
    have closed := BlockCipher.onBlocks_block c.encrypt (c.decrypt b)
    rw [← hc, Aes.encrypt_decrypt, hc] at closed
    exact closed

end Client

end Metering
