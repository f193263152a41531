import Metering.Proofs.CheckedParsing
import Metering.Proofs.Grammar
import Metering.Proofs.RoundTrip

set_option autoImplicit false

/-! # Opening does not trap

What a received body is opened with is computed as on a machine: the cleartext with its titles, the chains of
the mode, and the cuts of the body into contents and tag and into device class and services. The lengths of
the elements are single bytes, so it counts as a trap if one does not fit. -/

namespace Metering

/-- The low bytes of a number are the end of more of them. -/
theorem Bytes.drop_bigEndian (width extra n : Nat) :
    (Bytes.bigEndian (extra + width) n).drop extra = Bytes.bigEndian width n := by
  induction width generalizing n with
  | zero => exact List.drop_eq_nil_of_le (Nat.le_of_eq (Bytes.length_bigEndian extra n))
  | succ width ih =>
    show (Bytes.bigEndian (extra + width) (n / 256) ++ [UInt8.ofNat n]).drop extra = _
    rw [List.drop_append_of_le_length (by simp), ih]
    rfl

namespace Checked

variable {σ : Type} (m : Machine)

/-- A value that may be missing, which is a fault then. -/
def demand {α : Type} (e : Fault) : Option α → Checked σ α
  | some a => pure a
  | none => throw e

/-! ## Elements of the cleartext -/

/-- A text without its first byte; no character may be cut. -/
def behindFirstByte : List Char → Checked σ (List Char)
  | c :: rest => if c.utf8Size = 1 then pure rest else trap
  | [] => trap

/-- The bytes of an identifier, without tag and length. -/
def identifier (text : String) : Checked σ Bytes := do
  let bad : Fault := .invalidData (.badIdentifier text)
  if text.utf8ByteSize < 2 ∨ text.utf8ByteSize > 128 then throw bad
  let chars ← if Uid.isRelative text then behindFirstByte text.toList else pure text.toList
  let _ ← add m.largest (text.utf8ByteSize / 2) 1
  if Uid.isRelative text then demand bad (Uid.arcsBytes? (Uid.splitArcs chars))
  else match Uid.splitArcs chars with
    | first :: second :: runs => do
      let a ← demand bad (Uid.parseArc? first)
      let b ← demand bad (Uid.parseArc? second)
      if a > 2 ∨ b > 39 then throw bad
      let shared ← byteOf (← add 0xFFFFFFFF (← mul 0xFFFFFFFF a 40) b)
      return shared :: (← demand bad (Uid.arcsBytes? runs))
    | _ => throw bad

/-- An element that holds an identifier; both of its lengths must fit one byte. -/
def taggedIdentifier (tag : UInt8) (text : String) : Checked σ Bytes := do
  let bytes ← identifier m text
  let outer ← byteOf (← add m.largest bytes.length 2)
  return [tag, outer, if Uid.isRelative text then Uid.relativeTag else Uid.absoluteTag, ← byteOf bytes.length] ++ bytes

/-- The element of an identifier; nothing for an empty one. -/
def uidElement (tag : UInt8) (text : String) : Checked σ Bytes :=
  if text.isEmpty then pure [] else taggedIdentifier m tag text

/-- The element of a title made absolute; nothing for an empty one. -/
def absoluteElement (tag : UInt8) (context title : String) : Checked σ Bytes :=
  if title.isEmpty then pure [] else taggedIdentifier m tag (Acse.absoluteTitle context title)

/-- The number of bytes that a number below `2 ^ 32` needs. -/
def unsignedSize (n : Nat) : Nat := if n < 0x100 then 1 else if n < 0x10000 then 2 else if n < 0x1000000 then 3 else 4

/-- An element that holds a number. -/
def taggedUnsigned (tag : UInt8) (value : UInt32) : Checked σ Bytes := do
  let size := unsignedSize value.toNat
  let outer ← byteOf (← add 0xFF size 2)
  let digits ← slice (Bytes.bigEndian 4 value.toNat) (← sub 4 size) 4
  return [tag, outer, Ber.integerTag, ← byteOf size] ++ digits

/-- The element of a number that may be missing. -/
def numberElement (tag : UInt8) : Option UInt32 → Checked σ Bytes
  | none => pure []
  | some n => taggedUnsigned tag n

/-- The key and vector element, put into a field of its length. -/
def authenticationElement (auth : Acse.Authentication) : Checked σ Bytes := do
  let front := [Acse.authenticationTag, UInt8.ofNat Acse.authenticationLength] ++ Acse.authenticationFront
  let element ← overwrite (List.replicate (Acse.authenticationLength + 2) 0) 0 10 front
  let element ← overwrite element 10 11 [auth.keyId]
  let element ← overwrite element 11 13 Acse.authenticationMiddle
  overwrite element 13 element.length (Bytes.bigEndian 4 auth.vector.toNat)

/-- The cleartext that the body of a received APDU is bound to. -/
def clear (a : Acse.Incoming) (auth : Acse.Authentication) : Checked σ Bytes := do
  let _ ← add m.largest 128 a.body.length
  let context ← uidElement m Acse.contextTag a.context
  let called ← absoluteElement m Acse.calledTitleTag a.context a.calledTitle
  let calledId ← numberElement Acse.calledIdTag a.calledId
  let qualifier ← numberElement Acse.callingQualifierTag a.callingQualifier
  let callingId ← numberElement Acse.callingIdTag a.callingId
  let sent ← if a.authentication.isSome then authenticationElement auth else pure []
  let calling ← absoluteElement m Acse.callingTitleTag a.context a.callingTitle
  return context ++ called ++ calledId ++ qualifier ++ callingId ++ sent ++ a.bodyHeader ++ calling ++ auth.trailer

/-! ## The mode -/

/-- A block with some bits of one of its bytes changed. -/
def flip (b : Block) (i : Nat) (bits : UInt8) : Checked σ Block :=
  if h : i < 16 then pure (b.set i (b.get ⟨i, h⟩ ^^^ bits)) else trap

/-- The chain over `data` from `start`. -/
def chain (e : Eax) (start : Block) (data : Bytes) : Checked σ Block := do
  if data.isEmpty then return start
  -- rounding down gives no larger number
  let last := (← sub data.length 1) / 16 * 16
  let whole ← slice data 0 last
  let before := (Bytes.chunks 16 whole).foldl (fun b c => e.encrypt (b.xorFront c)) start
  let tail ← slice data last data.length
  let mixed := before.xorFront tail
  if tail.length = 16 then return e.encrypt (mixed.xor e.d)
  return e.encrypt ((← flip mixed tail.length 0x80).xor e.q)

/-- The last bytes of a block, as a tag. -/
def tag (b : Block) : Checked σ Bytes := do
  overwrite (List.replicate tagLength 0) 0 tagLength (← slice b.bytes (← sub 16 tagLength) 16)

/-- The tag of a cleartext without a body. -/
def authenticate (e : Eax) (cleartext : Bytes) : Checked σ Bytes := do tag (← chain e e.d cleartext)

/-- The decrypted body and the tag that the encrypted one should have had. -/
def decryptBody (e : Eax) (cleartext body : Bytes) : Checked σ (Bytes × Bytes) := do
  let n ← chain e e.d cleartext
  if body.isEmpty then return (body, ← tag n)
  let sum ← chain e e.q body
  return (e.applyStream n body, ← tag (sum.xor n))

/-! ## Opening -/

/-- The plain contents of a secured body, if its tag agrees. -/
def openSecured (a : Acse.Incoming) (mode : SecurityMode) (e : Eax) (auth : Acse.Authentication) :
    Checked σ Bytes := do
  let clear ← clear m a auth
  let cut ← sub a.body.length tagLength
  let body ← slice a.body 0 cut
  let received ← slice a.body cut a.body.length
  let (plain, tag) ← if mode = .encrypted then decryptBody e clear body
    else do pure (body, ← authenticate e (clear ++ body))
  if Eax.tagsAgree tag received then return plain
  else throw (.authentication .tagMismatch)

/-- The device class taken off and noted, if there is one. -/
def takeEdClass (a : Acse.Incoming) (control : Epsem.Control) (plain : Bytes) : Checked σ (Bytes × Acse.Incoming) := do
  if control.edClass then
    if plain.length < edClassLength then throw (.protocol (.badElement Acse.bodyTag))
    let edClass ← overwrite (List.replicate edClassLength 0) 0 edClassLength (← slice plain 0 edClassLength)
    return (← slice plain edClassLength plain.length, { a with edClass := some edClass })
  else return (plain, a)

/-- What the body says in the plain, the device class still in front. -/
def plainBody (a : Acse.Incoming) (mode : SecurityMode) (eax : Option Eax) (auth : Acse.Authentication) :
    Checked σ Bytes :=
  match mode, eax with
  | .clear, _ => pure a.body
  | _, none => throw (.authentication .noKeyForResponse)
  | mode, some e => openSecured m a mode e auth

/-- The services of the body, the device class taken off and noted. -/
def openBody (a : Acse.Incoming) (eax : Option Eax) (auth : Acse.Authentication) :
    Checked σ (Bytes × Acse.Incoming) := do
  match a.control with
  | none => return ([], a)
  | some control => takeEdClass a control (← plainBody m a control.mode eax auth)

/-! ## The elements agree -/

variable {m}

theorem demand_bind {α β : Type} (e : Fault) (x : Option α) (f : α → Option β) :
    demand e (x >>= f) = (demand e x >>= fun a => demand e (f a) : Checked σ β) := by
  cases x <;> rfl

/-- **Encoding an identifier never traps**: two arcs that share a byte fit it, and the period in front of a
relative one is a byte. -/
theorem identifier_eq (text : String) :
    identifier m text = (ofExcept (Uid.encode text) : Checked σ Bytes) := by
  have demanded : ofExcept (Uid.encode text) =
      (demand (.invalidData (.badIdentifier text)) (Uid.encode? text) : Checked σ Bytes) := by
    rw [Uid.encode]
    cases Uid.encode? text <;> rfl
  rw [demanded]
  have wide := m.wide
  unfold identifier Uid.encode? Uid.isRelative
  dsimp only
  split
  · rfl
  next size =>
  rw [add_eq (by omega)]
  generalize text.toList = chars
  split
  next relative =>
    obtain ⟨rest, rfl⟩ := List.head?_eq_some_iff.1 (of_decide_eq_true relative)
    rfl
  next absolute =>
    rw [pure_bind, pure_bind]
    split
    next first second runs arcs =>
      split
      next => exact absurd rfl absolute
      next =>
        rw [arcs, demand_bind]
        refine congrArg (demand _ (Uid.parseArc? first) >>= ·) (funext fun a => ?_)
        rw [demand_bind]
        refine congrArg (demand _ (Uid.parseArc? second) >>= ·) (funext fun b => ?_)
        split
        · rfl
        next small =>
          rw [demand_bind, mul_eq (by omega), pure_bind, add_eq (by omega), pure_bind, byteOf_eq (by omega), pure_bind]
          rfl
    next few =>
      split
      next => exact absurd rfl absolute
      next =>
        split
        next first second runs arcs => exact absurd arcs (few first second runs)
        next => rfl

theorem taggedIdentifier_eq (tag : UInt8) (text : String) :
    taggedIdentifier m tag text = (ofExcept (Uid.tagged tag text) : Checked σ Bytes) := by
  rw [taggedIdentifier, identifier_eq, Uid.tagged]
  cases encoded : Uid.encode text with
  | error e => rfl
  | ok bytes =>
    have short := Uid.length_encode_le encoded
    have wide := m.wide
    rw [ofExcept_ok, pure_bind, add_eq (by omega), pure_bind, byteOf_eq (by omega), byteOf_eq (by omega)]
    rfl

theorem uidElement_eq (tag : UInt8) (text : String) :
    uidElement m tag text = (ofExcept (Acse.uidElement tag text) : Checked σ Bytes) := by
  rw [uidElement, Acse.uidElement, taggedIdentifier_eq]
  split <;> rfl

theorem absoluteElement_eq (tag : UInt8) (context title : String) :
    absoluteElement m tag context title = (ofExcept (Acse.absoluteElement tag context title) : Checked σ Bytes) := by
  rw [absoluteElement, Acse.absoluteElement, taggedIdentifier_eq]
  split <;> rfl

theorem unsignedBytes_eq_bigEndian (n : Nat) : Ber.unsignedBytes n = Bytes.bigEndian (unsignedSize n) n := by
  unfold Ber.unsignedBytes unsignedSize
  split_ifs <;> rfl

theorem taggedUnsigned_eq (tag : UInt8) (value : UInt32) :
    taggedUnsigned tag value = (pure (Ber.taggedUnsigned tag value) : Checked σ Bytes) := by
  have size : unsignedSize value.toNat ≤ 4 := by
    unfold unsignedSize
    split_ifs <;> decide
  have digits := Bytes.drop_bigEndian (unsignedSize value.toNat) (4 - unsignedSize value.toNat) value.toNat
  rw [Nat.sub_add_cancel size] at digits
  have behind : slice (Bytes.bigEndian 4 value.toNat) (4 - unsignedSize value.toNat) 4 =
      (pure (Bytes.bigEndian (unsignedSize value.toNat) value.toNat) : Checked σ Bytes) := by
    rw [← digits]
    exact slice_behind (Nat.sub_le 4 _)
  rw [taggedUnsigned, add_eq (by omega), pure_bind, byteOf_eq (by omega), pure_bind, sub_eq size, pure_bind, behind,
    pure_bind, byteOf_eq (by omega), Ber.taggedUnsigned, unsignedBytes_eq_bigEndian, Bytes.length_bigEndian]
  rfl

theorem numberElement_eq (tag : UInt8) (n : Option UInt32) :
    numberElement tag n = (pure (Acse.numberElement tag n) : Checked σ Bytes) := by
  cases n with
  | none => rfl
  | some n => exact taggedUnsigned_eq tag n

theorem authenticationElement_eq (auth : Acse.Authentication) :
    authenticationElement auth = (pure auth.element : Checked σ Bytes) := rfl

/-- **Composing the cleartext never traps.** -/
theorem clear_eq {a : Acse.Incoming} (held : 2 * a.body.length ≤ m.largest) (auth : Acse.Authentication) :
    clear m a auth = (ofExcept (a.clear auth) : Checked σ Bytes) := by
  have wide := m.wide
  rw [clear, add_eq (by omega), pure_bind, Acse.Incoming.clear, Acse.cleartext, uidElement_eq, absoluteElement_eq,
    absoluteElement_eq, ofExcept_bind]
  refine congrArg (_ >>= ·) (funext fun context => ?_)
  rw [ofExcept_bind]
  refine congrArg (_ >>= ·) (funext fun called => ?_)
  rw [numberElement_eq, pure_bind, numberElement_eq, pure_bind, numberElement_eq, pure_bind, authenticationElement_eq,
    ofExcept_bind]
  cases a.authentication <;> rfl

/-! ## The mode agrees -/

/-- The bit behind a short block is in range, and mixing it in is mixing in the padded block. -/
theorem flip_eq {b : Block} {tail : Bytes} (short : tail.length < 16) :
    flip (b.xorFront tail) tail.length 0x80 = (pure (b.xorFront (tail ++ [0x80])) : Checked σ Block) := by
  rw [flip, dif_pos short]
  refine congrArg pure (Vector.ext fun i hi => ?_)
  have mixed (bytes : Bytes) : (b.xorFront bytes)[i] = b.get ⟨i, hi⟩ ^^^ bytes.getD i 0 := Vector.getElem_ofFn ..
  rw [Vector.getElem_set, mixed, mixed]
  split
  next here =>
    subst here
    show (b.xorFront tail)[tail.length] ^^^ 0x80 = _
    rw [mixed, List.getD_eq_getElem?_getD, List.getElem?_eq_none (Nat.le_refl _), List.getD_eq_getElem?_getD,
      List.getElem?_concat_length]
    simp
  next there =>
    rw [List.getD_eq_getElem?_getD, List.getD_eq_getElem?_getD]
    rcases Nat.lt_or_gt_of_ne there with beyond | inside
    · rw [List.getElem?_eq_none (Nat.le_of_lt beyond), List.getElem?_eq_none (by rw [List.length_append]; exact beyond)]
    · rw [List.getElem?_append_left inside]

theorem chain_eq (e : Eax) (start : Block) (data : Bytes) :
    chain e start data = (pure (e.chain start data) : Checked σ Block) := by
  unfold chain Eax.chain
  split
  · rfl
  next some =>
    have one : 1 ≤ data.length := List.length_pos_iff.2 fun none => some (List.isEmpty_iff.2 none)
    have before : (data.length - 1) / 16 * 16 ≤ data.length := by omega
    have tail : (data.drop ((data.length - 1) / 16 * 16)).length ≤ 16 := by
      rw [List.length_drop]
      omega
    rw [sub_eq one, pure_bind]
    dsimp only
    rw [slice_front before, pure_bind, slice_behind before, pure_bind, Eax.lastBlock]
    split
    · rfl
    next padded =>
      rw [flip_eq (by omega), pure_bind]

theorem tag_eq (b : Block) : tag b = (pure b.tag : Checked σ Bytes) := by
  have behind : slice b.bytes (16 - tagLength) b.bytes.length = (pure b.tag : Checked σ Bytes) :=
    slice_behind (by rw [b.length_bytes]; decide)
  rw [b.length_bytes] at behind
  rw [tag, sub_eq (by decide), pure_bind, behind, pure_bind]
  exact overwrite_all (by simp) (by simp [Block.tag, tagLength])

theorem authenticate_eq (e : Eax) (cleartext : Bytes) :
    authenticate e cleartext = (pure (e.authenticate cleartext) : Checked σ Bytes) := by
  rw [authenticate, chain_eq, pure_bind, tag_eq]
  rfl

theorem decryptBody_eq (e : Eax) (cleartext body : Bytes) :
    decryptBody e cleartext body = (pure (e.decryptBody cleartext body) : Checked σ (Bytes × Bytes)) := by
  rw [decryptBody, chain_eq, pure_bind, Eax.decryptBody]
  split
  · rw [tag_eq]
    rfl
  · rw [chain_eq, pure_bind, tag_eq]
    rfl

/-! ## Opening agrees -/

/-- **The cut in front of the tag is in range**, for a body that is no shorter than a tag. -/
theorem openSecured_eq {a : Acse.Incoming} (held : 2 * a.body.length ≤ m.largest) (long : tagLength ≤ a.body.length)
    (mode : SecurityMode) (e : Eax) (auth : Acse.Authentication) :
    openSecured m a mode e auth = (ofExcept (a.openSecured mode e auth) : Checked σ Bytes) := by
  rw [openSecured, clear_eq held, Acse.Incoming.openSecured, ofExcept_bind]
  refine congrArg (_ >>= ·) (funext fun clear => ?_)
  have cut : a.body.length - tagLength ≤ a.body.length := Nat.sub_le _ _
  rw [sub_eq long, pure_bind, slice_front cut, pure_bind, slice_behind cut, pure_bind]
  split
  next =>
    rw [decryptBody_eq, pure_bind]
    dsimp only
    split <;> rfl
  next =>
    rw [authenticate_eq, pure_bind, pure_bind]
    dsimp only
    split <;> rfl

theorem plainBody_eq {a : Acse.Incoming} {mode : SecurityMode} (held : 2 * a.body.length ≤ m.largest)
    (long : mode.isSecure = true → tagLength ≤ a.body.length) (eax : Option Eax) (auth : Acse.Authentication) :
    plainBody m a mode eax auth = (ofExcept (a.plainBody mode eax auth) : Checked σ Bytes) := by
  cases mode with
  | clear => rfl
  | authenticated | encrypted =>
    cases eax with
    | none => rfl
    | some e => exact openSecured_eq held (long rfl) _ e auth

/-- **The device class is cut off in range.** -/
theorem takeEdClass_eq (a : Acse.Incoming) (control : Epsem.Control) (plain : Bytes) :
    takeEdClass a control plain = (ofExcept (a.takeEdClass control plain) : Checked σ (Bytes × Acse.Incoming)) := by
  unfold takeEdClass Acse.Incoming.takeEdClass
  split
  · split
    · rfl
    next enough =>
      have enough := Nat.le_of_not_lt enough
      rw [slice_front enough, pure_bind, overwrite_all (by simp) (List.length_take_of_le enough), pure_bind,
        slice_behind enough]
      rfl
  · rfl

end Checked

namespace Acse

theorem Tiling.length_body_le {maxSize : UInt32} {length : Nat} {a b : Incoming} {tiles : List Tile}
    (h : Tiling maxSize length a tiles b) : b.body.length ≤ a.body.length + (tiles.flatMap Tile.bytes).length := by
  induction h with
  | nil a => exact Nat.le_add_right _ _
  | @value a a' b t tiles _ _ value _ ih =>
    have same : a'.body = a.body := by
      generalize t.tag = tag at value
      generalize t.value = contents at value
      cases value <;> rfl
    rw [same] at ih
    rw [List.flatMap_cons, List.length_append]
    omega
  | @body a t body control _ _ _ value _ =>
    have inside : body.contents.length ≤ t.bytes.length := by
      rw [Tile.bytes, value, Body.value, Body.inner]
      simp only [List.length_cons, List.length_append]
      omega
    rw [List.flatMap_singleton]
    exact Nat.le_trans inside (Nat.le_add_left _ _)

/-- A body is a part of what was parsed. -/
theorem Incoming.length_body_le {bytes : Bytes} {max : UInt32} {a : Incoming} (h : parse bytes max = .ok a) :
    a.body.length ≤ bytes.length := by
  obtain ⟨tiles, field, rfl, -, tiling⟩ := parse_iff_tiled.1 h
  have inside := tiling.length_body_le
  simp only [List.length_cons, List.length_append]
  have empty : ({} : Incoming).body.length = 0 := rfl
  omega

end Acse

/-- **Opening what was parsed never traps**, under any key and vector: parsing has seen to it that a secured body
is no shorter than its tag, and the device class is cut off only where there is one. -/
theorem Checked.openBody_eq {σ : Type} {m : Machine} {b : Held m} {maxSize : UInt32} {a : Acse.Incoming}
    (parsed : Acse.Incoming.parse b.bytes maxSize = .ok a) (eax : Option Eax) (auth : Acse.Authentication) :
    openBody m a eax auth = (ofExcept (a.openBody eax auth) : Checked σ (Bytes × Acse.Incoming)) := by
  have held : 2 * a.body.length ≤ m.largest := by
    have := Acse.Incoming.length_body_le parsed
    have := b.fits
    omega
  rw [openBody]
  rcases given : a.control with _ | control
  · rw [Acse.Incoming.openBody, given]
    rfl
  have long (secure : control.mode.isSecure = true) : tagLength ≤ a.body.length := by
    rcases (Acse.Incoming.parse_ok parsed).2 with none | ⟨control', rest, there, -, -, long⟩
    · rw [none] at given
      cases given
    · obtain rfl := Option.some.inj (there.symm.trans given)
      exact long secure
  rw [Acse.Incoming.openBody_eq given, ofExcept_bind, ← plainBody_eq held long]
  exact congrArg (_ >>= ·) (funext fun plain => takeEdClass_eq a control plain)

namespace Held

open Checked

variable {m : Machine}

/-- Takes an APDU apart, checks that it answers an invocation, and opens it. -/
def response (b : Held m) (maxSize : UInt32) (p : Acse.Parameters) (id : UInt32) (eax : Option Eax)
    (auth : Acse.Authentication) : Checked Nat (Bytes × Acse.Incoming) := do
  let a ← b.apdu maxSize
  Checked.ofExcept (a.verifyResponse p id)
  openBody m a eax auth

theorem outcome_response (b : Held m) (maxSize : UInt32) (p : Acse.Parameters) (id : UInt32) (eax : Option Eax)
    (auth : Acse.Authentication) :
    outcome (b.response maxSize p id eax auth) = some (do
      let a ← Acse.Incoming.parse b.bytes maxSize
      a.verifyResponse p id
      a.openBody eax auth) := by
  obtain ⟨q, ran, -⟩ : b.Follows 0 (b.apdu maxSize) _ := follows_apdu (Nat.zero_le _)
  have ran : (b.apdu maxSize).run 0 = some (Acse.Incoming.parse b.bytes maxSize, q) := ran
  rw [outcome, response, Checked.run_bind, ran]
  rcases parsed : Acse.Incoming.parse b.bytes maxSize with e | a
  · rfl
  · show ((Checked.ofExcept (a.verifyResponse p id) >>= fun _ => openBody m a eax auth : Checked Nat _).run q).map _ = _
    rw [openBody_eq parsed, ← ofExcept_bind, run_ofExcept]
    rfl

end Held

end Metering
