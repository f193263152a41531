import Mathlib.Algebra.Group.Nat.Defs
import Metering.Acse.Outgoing
import Metering.Proofs.FrameBuffer
import Metering.Proofs.Steps

set_option autoImplicit false

/-! # What the secured cleartext tells apart

Under one association the cleartext of an APDU to send determines its invocation id, whether the
key and vector are sent along, the key and vector, and the length of the body — and nothing else
enters it (`Acse.Outgoing.bound_eq_iff`). The elements are told apart front to back: each number and
each length says where it ends, and what comes last has a fixed length. -/

namespace Metering

/-! ## Lengths and numbers say where they end -/

theorem Bytes.fieldSize_eq (width : Nat) : Bytes.fieldSize width = 256 ^ width := by
  induction width with
  | zero => rfl
  | succ width ih => rw [Bytes.fieldSize, ih, Nat.pow_succ, Nat.mul_comm]

theorem Bytes.bigEndian_inj {width m n : Nat} (hm : m < 256 ^ width) (hn : n < 256 ^ width)
    (h : Bytes.bigEndian width m = Bytes.bigEndian width n) : m = n := by
  have := congrArg Bytes.ofBigEndian h
  rwa [Bytes.ofBigEndian_bigEndian, Bytes.ofBigEndian_bigEndian, Bytes.fieldSize_eq,
    Nat.mod_eq_of_lt hm, Nat.mod_eq_of_lt hn] at this

namespace Ber

/-- A length at the front of some bytes, and what follows it. -/
def lengthFront : Bytes → Nat × Bytes
  | [] => (0, [])
  | first :: rest =>
    if first < 0x80 then (first.toNat, rest)
    else (Bytes.ofBigEndian (rest.take (first.toNat % 128)), rest.drop (first.toNat % 128))

theorem lengthFront_long (width : Nat) {n : Nat} (hw : 0 < width) (hw' : width < 128) (hn : n < 256 ^ width)
    (rest : Bytes) :
    lengthFront (UInt8.ofNat (128 + width) :: (Bytes.bigEndian width n ++ rest)) = (n, rest) := by
  have first : (UInt8.ofNat (128 + width)).toNat = 128 + width := by
    rw [UInt8.toNat_ofNat']
    omega
  have long : ¬ UInt8.ofNat (128 + width) < 0x80 := by
    rw [UInt8.lt_iff_toNat_lt, first]
    simp
  have octets : (128 + width) % 128 = width := by omega
  have taken : (Bytes.bigEndian width n ++ rest).take width = Bytes.bigEndian width n :=
    List.take_left' (Bytes.length_bigEndian width n)
  have left : (Bytes.bigEndian width n ++ rest).drop width = rest :=
    List.drop_left' (Bytes.length_bigEndian width n)
  simp only [lengthFront, if_neg long, first, octets, taken, left, Bytes.ofBigEndian_bigEndian,
    Bytes.fieldSize_eq, Nat.mod_eq_of_lt hn]

theorem lengthFront_append {n : Nat} (h : n < 2 ^ 32) (rest : Bytes) :
    lengthFront (lengthBytes n ++ rest) = (n, rest) := by
  unfold lengthBytes
  split
  next short =>
    have first : (UInt8.ofNat n).toNat = n := by
      rw [UInt8.toNat_ofNat']
      omega
    have low : UInt8.ofNat n < 0x80 := by
      rw [UInt8.lt_iff_toNat_lt, first]
      exact short
    simp [lengthFront, low, first]
  split
  · exact lengthFront_long 1 (by decide) (by decide) (by omega) rest
  split
  · exact lengthFront_long 2 (by decide) (by decide) (by omega) rest
  split
  · exact lengthFront_long 3 (by decide) (by decide) (by omega) rest
  · exact lengthFront_long 4 (by decide) (by decide) (by omega) rest

/-- A length is told from whatever follows it. -/
theorem lengthBytes_append_inj {m n : Nat} (hm : m < 2 ^ 32) (hn : n < 2 ^ 32) {r r' : Bytes}
    (h : lengthBytes m ++ r = lengthBytes n ++ r') : m = n ∧ r = r' := by
  have := congrArg lengthFront h
  rw [lengthFront_append hm, lengthFront_append hn] at this
  exact Prod.mk.inj this

theorem unsignedBytes_eq (n : UInt32) :
    ∃ width, 0 < width ∧ width ≤ 4 ∧ n.toNat < 256 ^ width ∧
      unsignedBytes n.toNat = Bytes.bigEndian width n.toNat := by
  have bound := n.toNat_lt
  unfold unsignedBytes
  split
  · exact ⟨1, by decide, by decide, by omega, rfl⟩
  split
  · exact ⟨2, by decide, by decide, by omega, rfl⟩
  split
  · exact ⟨3, by decide, by decide, by omega, rfl⟩
  · exact ⟨4, by decide, by decide, by omega, rfl⟩

/-- A number is told from whatever follows it. -/
theorem taggedUnsigned_append_inj {tag : UInt8} {m n : UInt32} {r r' : Bytes}
    (h : taggedUnsigned tag m ++ r = taggedUnsigned tag n ++ r') : m = n ∧ r = r' := by
  obtain ⟨w, hw, hw', hm, em⟩ := unsignedBytes_eq m
  obtain ⟨v, hv, hv', hn, en⟩ := unsignedBytes_eq n
  simp only [taggedUnsigned, em, en, Bytes.length_bigEndian, List.cons_append, List.nil_append,
    List.cons.injEq, true_and] at h
  obtain ⟨-, count, digits⟩ := h
  have same : w = v := by
    have := congrArg UInt8.toNat count
    rw [UInt8.toNat_ofNat', UInt8.toNat_ofNat'] at this
    omega
  subst same
  obtain ⟨number, rest⟩ := List.append_inj digits (by simp)
  exact ⟨UInt32.toNat_inj.1 (Bytes.bigEndian_inj hm hn number), rest⟩

end Ber

/-! ## Encryption keeps the length -/

@[simp] theorem Block.length_tag (b : Block) : b.tag.length = tagLength := by
  simp [Block.tag, tagLength]

namespace Eax

theorem length_addStream_chunks (e : Eax) (counter fuel : Nat) {body : Bytes} (h : body.length ≤ fuel) :
    (e.addStream counter (Bytes.chunks.go 16 fuel body)).length = body.length := by
  induction fuel generalizing counter body with
  | zero =>
    obtain rfl := List.eq_nil_of_length_eq_zero (Nat.le_zero.1 h)
    rfl
  | succ fuel ih =>
    cases body with
    | nil => rfl
    | cons first rest =>
      have left : ((first :: rest).drop 16).length ≤ fuel := by
        simp only [List.length_drop, List.length_cons] at h ⊢
        omega
      simp only [Bytes.chunks.go, addStream, List.length_append, ih _ left, Bytes.xor,
        List.length_zipWith, Block.length_bytes, List.length_take, List.length_drop]
      omega

@[simp] theorem length_applyStream (e : Eax) (n : Block) (body : Bytes) :
    (e.applyStream n body).length = body.length :=
  e.length_addStream_chunks _ _ (Nat.le_refl _)

@[simp] theorem length_encryptBody (e : Eax) (clear body : Bytes) :
    (e.encryptBody clear body).1.length = body.length := by
  unfold encryptBody
  dsimp only
  split
  · rfl
  · exact e.length_applyStream _ _

theorem length_tag_encryptBody (e : Eax) (clear body : Bytes) :
    (e.encryptBody clear body).2.length = tagLength := by
  unfold encryptBody
  dsimp only
  split
  · exact Block.length_tag _
  · exact Block.length_tag _

end Eax

namespace Acse

/-! ## The header of a body -/

/-- The tag and length of an element, and what it holds. -/
def element (tag : UInt8) (length : Nat) (rest : Bytes) : Bytes := tag :: (Ber.lengthBytes length ++ rest)

/-- The number of bytes of an element that holds `n` bytes. -/
def elementLength (n : Nat) : Nat := n + (Ber.lengthBytes n).length + 1

/-- The header in front of a body of `n` bytes; `tail` bytes will follow that. -/
def bodyHeader (control : Epsem.Control) (n tail : Nat) : Bytes :=
  let octets := n + 1 + tail
  element bodyTag (elementLength (elementLength octets))
    (element externalTag (elementLength octets) (element octetsTag octets [control.byte]))

theorem header_bodyFrame (control : Epsem.Control) (body : Bytes) (tail : Nat) :
    (Outgoing.bodyFrame control body tail).header = bodyHeader control body.length tail := by
  -- the lengths count what was put together up to then, in the order in which that was done
  have octets : 1 + body.length + tail = body.length + 1 + tail := by omega
  have inner : (Ber.lengthBytes (body.length + 1 + tail)).length + 1 + 1 + body.length + tail =
      elementLength (body.length + 1 + tail) := by
    unfold elementLength
    omega
  have outer (l : Nat) : l + ((Ber.lengthBytes (body.length + 1 + tail)).length + 1 + 1) + 1 +
      body.length + tail = elementLength (body.length + 1 + tail) + l + 1 := by
    rw [← inner]
    omega
  simp only [Outgoing.bodyFrame, FrameBuffer.header_prepend, FrameBuffer.header_prependLength,
    FrameBuffer.header_append, FrameBuffer.header_withReserve, FrameBuffer.length_eq,
    FrameBuffer.body_prepend, FrameBuffer.body_prependLength, FrameBuffer.body_append,
    FrameBuffer.body_withReserve, List.append_nil, List.nil_append, List.cons_append,
    List.length_cons, List.length_nil, List.length_append, Nat.zero_add, octets, inner, outer]
  rfl

@[simp] theorem body_bodyFrame (control : Epsem.Control) (body : Bytes) (tail : Nat) :
    (Outgoing.bodyFrame control body tail).body = body := by
  simp [Outgoing.bodyFrame]

theorem element_append_inj {tag : UInt8} {m n : Nat} {x y r r' : Bytes} (hm : m < 2 ^ 32)
    (hn : n < 2 ^ 32) (h : element tag m x ++ r = element tag n y ++ r') :
    m = n ∧ x ++ r = y ++ r' := by
  simp only [element, List.cons_append, List.append_assoc, List.cons.injEq, true_and] at h
  exact Ber.lengthBytes_append_inj hm hn h

theorem le_elementLength (n : Nat) : n ≤ elementLength n := by
  unfold elementLength
  omega

/-- The header of a body says how long the body is. -/
theorem bodyHeader_append_inj {control : Epsem.Control} {m n tail : Nat} {r r' : Bytes}
    (hm : elementLength (elementLength (m + 1 + tail)) < 2 ^ 32)
    (hn : elementLength (elementLength (n + 1 + tail)) < 2 ^ 32)
    (h : bodyHeader control m tail ++ r = bodyHeader control n tail ++ r') : m = n ∧ r = r' := by
  have m1 := le_elementLength (m + 1 + tail)
  have m2 := le_elementLength (elementLength (m + 1 + tail))
  have n1 := le_elementLength (n + 1 + tail)
  have n2 := le_elementLength (elementLength (n + 1 + tail))
  obtain ⟨-, h⟩ := element_append_inj hm hn h
  obtain ⟨-, h⟩ := element_append_inj (by omega) (by omega) h
  obtain ⟨octets, h⟩ := element_append_inj (by omega) (by omega) h
  exact ⟨by omega, List.append_cancel_left h⟩

/-- The longest length in a header is shorter than header, body and tail together. -/
theorem elementLength_lt_header (control : Epsem.Control) (n tail : Nat) :
    elementLength (elementLength (n + 1 + tail)) < (bodyHeader control n tail).length + n + tail := by
  simp only [bodyHeader, element, elementLength, List.length_cons, List.length_append, List.length_nil]
  omega

/-! ## The cleartext of an APDU to send -/

theorem trailer_inj {a a' : Authentication} (h : a.trailer = a'.trailer) : a = a' := by
  obtain ⟨key, vector⟩ := List.cons.inj h
  have := Bytes.bigEndian_inj (m := a.vector.toNat) a.vector.toNat_lt a'.vector.toNat_lt vector
  cases a
  cases a'
  simp_all [UInt32.toNat_inj]

namespace Outgoing

/-- The cleartext that the body of an APDU is bound to under a seal, and that body. -/
def bound (o : Outgoing) (p : Parameters) (s : Seal) : Except Fault (Bytes × Bytes) := do
  let b ← o.framed p tagLength
  let clear ← cleartext (o.address p) s.sendAuthentication b.header s.authentication
  return (clear, b.body)

/-- The control byte of every body under an association. -/
def control (p : Parameters) : Epsem.Control where
  mode := p.mode
  response := p.response
  edClass := (if p.edClass.isEmpty then none else some p.edClass).isSome

theorem framed_ok {o : Outgoing} {p : Parameters} {tail : Nat} {b : FrameBuffer}
    (h : o.framed p tail = .ok b) :
    Epsem.encode (if p.edClass.isEmpty then none else some p.edClass) o.services = .ok b.body ∧
      b.header = bodyHeader (control p) b.body.length tail := by
  obtain ⟨body, encoded, h⟩ := Step.except_bind_ok.1 h
  obtain rfl := Except.ok.inj h
  rw [header_bodyFrame, body_bodyFrame]
  exact ⟨encoded, rfl⟩

/-- What the cleartext of an association starts with and where the calling title stands in it. -/
def titles (p : Parameters) : Except Fault (Bytes × Bytes) := do
  let context ← uidElement contextTag p.context
  let called ← absoluteElement calledTitleTag p.context p.calledTitle
  let calling ← absoluteElement callingTitleTag p.context p.callingTitle
  return (context ++ called, calling)

/-- The cleartext of a request, taken apart. -/
theorem bound_ok {o : Outgoing} {p : Parameters} {s : Seal} {clear body : Bytes}
    (request : o.calledId = none) (h : o.bound p s = .ok (clear, body)) :
    ∃ front calling, titles p = .ok (front, calling) ∧
      clear = front ++ numberElement callingQualifierTag p.callingQualifier ++
        (Ber.taggedUnsigned callingIdTag o.callingId ++
          ((if s.sendAuthentication then s.authentication.element else []) ++
            (bodyHeader (control p) body.length tagLength ++ (calling ++ s.authentication.trailer)))) := by
  obtain ⟨b, framed, h⟩ := Step.except_bind_ok.1 h
  obtain ⟨clear', made, h⟩ := Step.except_bind_ok.1 h
  obtain ⟨rfl, rfl⟩ := Prod.mk.inj (Except.ok.inj h)
  obtain ⟨context, hcontext, made⟩ := Step.except_bind_ok.1 made
  obtain ⟨called, hcalled, made⟩ := Step.except_bind_ok.1 made
  obtain ⟨calling, hcalling, made⟩ := Step.except_bind_ok.1 made
  obtain rfl := Except.ok.inj made
  refine ⟨context ++ called, calling, ?_, ?_⟩
  · exact Step.except_bind_ok.2 ⟨context, hcontext, Step.except_bind_ok.2 ⟨called, hcalled,
      Step.except_bind_ok.2 ⟨calling, hcalling, rfl⟩⟩⟩
  · rw [(framed_ok framed).2]
    simp only [address, request, numberElement, List.append_assoc, List.nil_append]

/-- The longest length in the header of a body is below what a length can hold. -/
def Fits (n : Nat) : Prop :=
  elementLength (elementLength (n + 1 + tagLength)) < 2 ^ 32

/-- **What a cleartext tells apart.** Two requests of one association are bound to one cleartext
exactly when they agree in id, in the key and vector and in whether those are sent along, and their
bodies have one length. -/
theorem bound_eq_iff {o o' : Outgoing} {p : Parameters} {s s' : Seal} {clear clear' body body' : Bytes}
    (request : o.calledId = none) (request' : o'.calledId = none)
    (h : o.bound p s = .ok (clear, body)) (h' : o'.bound p s' = .ok (clear', body'))
    (fits : Fits body.length) (fits' : Fits body'.length) :
    clear = clear' ↔
      o.callingId = o'.callingId ∧ s.sendAuthentication = s'.sendAuthentication ∧
        s.authentication = s'.authentication ∧ body.length = body'.length := by
  obtain ⟨front, calling, hp, rfl⟩ := bound_ok request h
  obtain ⟨front', calling', hp', rfl⟩ := bound_ok request' h'
  obtain ⟨rfl, rfl⟩ := Prod.mk.inj (Except.ok.inj (hp.symm.trans hp'))
  constructor
  · intro same
    obtain ⟨id, same⟩ := Ber.taggedUnsigned_append_inj (List.append_cancel_left same)
    have header (n : Nat) (r : Bytes) : ∃ x, bodyHeader (control p) n tagLength ++ r = bodyTag :: x :=
      ⟨_, rfl⟩
    -- the element and the header start with different tags
    have sent : s.sendAuthentication = s'.sendAuthentication := by
      cases hs : s.sendAuthentication <;> cases hs' : s'.sendAuthentication
      · rfl
      · obtain ⟨x, hx⟩ := header body.length (calling ++ s.authentication.trailer)
        simp [hs, hs', hx, Authentication.element, bodyTag, authenticationTag] at same
      · obtain ⟨x, hx⟩ := header body'.length (calling ++ s'.authentication.trailer)
        simp [hs, hs', hx, Authentication.element, bodyTag, authenticationTag] at same
      · rfl
    rw [sent] at same
    have front : (if s'.sendAuthentication then s.authentication.element else []).length =
        (if s'.sendAuthentication then s'.authentication.element else []).length := by
      split <;> simp [Authentication.element]
    obtain ⟨-, same⟩ := List.append_inj same front
    obtain ⟨length, same⟩ := bodyHeader_append_inj fits fits' same
    exact ⟨id, sent, trailer_inj (List.append_cancel_left same), length⟩
  · rintro ⟨id, sent, authentication, length⟩
    rw [id, sent, authentication, length]

theorem length_sealedBody (p : Parameters) (s : Seal) (clear body : Bytes) :
    (sealedBody p s clear body).1.length = body.length := by
  unfold sealedBody
  split
  · rfl
  · exact s.eax.length_encryptBody _ _

theorem length_tag_sealedBody (p : Parameters) (s : Seal) (clear body : Bytes) :
    (sealedBody p s clear body).2.length = tagLength := by
  unfold sealedBody
  split
  · simp [Eax.authenticate]
  · exact s.eax.length_tag_encryptBody _ _

theorem secure_ok {o : Outgoing} {p : Parameters} {s : Seal} {plain b : FrameBuffer}
    (h : o.secure p s plain = .ok b) :
    ∃ clear, cleartext (o.address p) s.sendAuthentication plain.header s.authentication = .ok clear ∧
      b.header = (if s.sendAuthentication then s.authentication.element else []) ++ plain.header ∧
      b.body = (sealedBody p s clear plain.body).1 ++ (sealedBody p s clear plain.body).2 := by
  obtain ⟨clear, made, h⟩ := Step.except_bind_ok.1 h
  obtain rfl := Except.ok.inj h
  refine ⟨clear, made, ?_, ?_⟩
  · split <;> simp
  · split <;> simp

/-- **What is sent under a seal** ends with the header of the body, the body sealed under its
cleartext, and the tag. -/
theorem build_ok {o : Outgoing} {p : Parameters} {s : Seal} {bytes : Bytes}
    (secure : p.mode.isSecure = true) (h : o.build p (some s) = .ok bytes) :
    ∃ clear body front, o.bound p s = .ok (clear, body) ∧ Fits body.length ∧
      bytes = front ++ (bodyHeader (control p) body.length tagLength ++
        ((sealedBody p s clear body).1 ++ (sealedBody p s clear body).2)) := by
  obtain ⟨secured, hs, h⟩ := Step.except_bind_ok.1 h
  obtain rfl : some s = secured := by simpa [sealFor, secure] using hs
  obtain ⟨plain, framed, h⟩ := Step.except_bind_ok.1 h
  obtain ⟨b, hb, h⟩ := Step.except_bind_ok.1 h
  obtain ⟨addresses, _, h⟩ := Step.except_bind_ok.1 h
  obtain ⟨clear, made, header, body⟩ := secure_ok hb
  rw [(framed_ok framed).2] at header
  generalize (if s.sendAuthentication then s.authentication.element else []) = front at header
  dsimp only at h
  split at h
  · cases h
  next short =>
    obtain rfl := Except.ok.inj h
    refine ⟨clear, plain.body,
      apduTag :: (Ber.lengthBytes (b.prepend addresses).length ++ (addresses ++ front)), ?_, ?_, ?_⟩
    · exact Step.except_bind_ok.2 ⟨plain, framed, Step.except_bind_ok.2 ⟨clear, made, rfl⟩⟩
    · have le := elementLength_lt_header (control p) plain.body.length tagLength
      have length := length_sealedBody p s clear plain.body
      have tag := length_tag_sealedBody p s clear plain.body
      have limit := p.maxOutgoing.toNat_lt
      simp only [FrameBuffer.length_eq, FrameBuffer.header_prepend, FrameBuffer.body_prepend,
        FrameBuffer.header_prependLength, FrameBuffer.body_prependLength, header, body,
        List.length_append, List.length_cons, List.length_nil, length, tag] at short
      unfold Fits
      omega
    · rw [FrameBuffer.toList_eq]
      simp only [FrameBuffer.header_prepend, FrameBuffer.body_prepend,
        FrameBuffer.header_prependLength, FrameBuffer.body_prependLength, header, body,
        List.append_assoc, List.cons_append, List.nil_append]

end Outgoing

end Acse

end Metering
