import Metering.Acse.Incoming
import Metering.Cipher.Aes
import Metering.Proofs.Eax
import Metering.Proofs.Uid

set_option autoImplicit false

/-! # APDUs read back

An APDU that was built is taken apart again into what it was built from (`Acse.parse_build`). -/

namespace Metering

open Reader (Takes)

namespace Acse

/-! ## Elements -/

/-- The element of the key and vector, if they are sent. -/
def authenticationElement (sent : Option Authentication) : Bytes := sent.toList.flatMap Authentication.element

theorem uidElement_ok {tag : UInt8} {text : String} {bytes : Bytes} (h : uidElement tag text = .ok bytes) :
    (text = "" ∧ bytes = []) ∨ ∃ encoded, Uid.encode text = .ok encoded ∧
      bytes = tag :: UInt8.ofNat (encoded.length + 2) ::
        ([Reader.uidKind text, UInt8.ofNat encoded.length] ++ encoded) := by
  unfold uidElement at h
  split at h
  next none => exact .inl ⟨String.isEmpty_iff.1 none, (Except.ok.inj h).symm⟩
  next =>
    obtain ⟨encoded, he, h⟩ := Step.except_bind_ok.1 h
    exact .inr ⟨encoded, he, (Except.ok.inj h).symm⟩

theorem takes_authentication (sent : Authentication) :
    Takes (Reader.take authenticationLength >>= fun value => Step.ofExcept (Authentication.ofValue value))
      (authenticationFront ++ [sent.keyId] ++ authenticationMiddle ++ Bytes.bigEndian 4 sent.vector.toNat)
      sent := by
  have vector : UInt32.ofNat (Bytes.ofBigEndian (Bytes.bigEndian 4 sent.vector.toNat)) = sent.vector := by
    have bound : sent.vector.toNat < 256 ^ 4 := sent.vector.toNat_lt
    rw [Bytes.ofBigEndian_bigEndian, Bytes.fieldSize_eq, Nat.mod_eq_of_lt bound, UInt32.ofNat_toNat]
  have value : Authentication.ofValue (authenticationFront ++ [sent.keyId] ++ authenticationMiddle ++
      Bytes.bigEndian 4 sent.vector.toNat) = .ok sent := by
    unfold Authentication.ofValue
    rw [if_pos ⟨by simp [authenticationFront, authenticationMiddle, authenticationLength], rfl, rfl⟩]
    simp [authenticationFront, authenticationMiddle, vector]
  have taken := (Reader.takes_take (authenticationFront ++ [sent.keyId] ++ authenticationMiddle ++
    Bytes.bigEndian 4 sent.vector.toNat)).bind (f := fun value => Step.ofExcept (Authentication.ofValue value))
    (.ofExcept value)
  rw [List.append_nil] at taken
  simpa [authenticationFront, authenticationMiddle, authenticationLength] using taken

theorem control_ofByte_byte (c : Epsem.Control) : Epsem.Control.ofByte c.byte = .ok c := by
  obtain ⟨mode, response, edClass⟩ := c
  cases mode <;> cases response <;> cases edClass <;> rfl

namespace Incoming

variable {maxSize : UInt32} {length : Nat} {a a' a'' : Incoming} {x y : Bytes}

/-- Taking elements goes on behind `bytes` with what they make of `a`; the count of elements that may
still come is left large enough. -/
def Leads (maxSize : UInt32) (length : Nat) (a : Incoming) (bytes : Bytes) (a' : Incoming) : Prop :=
  ∀ fuel position rest, bytes.length + rest.length ≤ fuel → ∃ fuel', rest.length ≤ fuel' ∧
    (takeElements maxSize length fuel a).run ⟨position, bytes ++ rest⟩ =
      (takeElements maxSize length fuel' a').run ⟨position + bytes.length, rest⟩

namespace Leads

theorem refl : Leads maxSize length a [] a :=
  fun fuel _ _ h => ⟨fuel, by simpa using h, rfl⟩

theorem trans (h : Leads maxSize length a x a') (h' : Leads maxSize length a' y a'') :
    Leads maxSize length a (x ++ y) a'' := by
  intro fuel position rest enough
  rw [List.length_append] at enough
  obtain ⟨fuel1, enough1, run1⟩ := h fuel position (y ++ rest) (by simp; omega)
  obtain ⟨fuel2, enough2, run2⟩ := h' fuel1 (position + x.length) rest (by simpa using enough1)
  refine ⟨fuel2, enough2, ?_⟩
  rw [List.append_assoc, run1, run2, List.length_append, Nat.add_assoc]

/-- One element with a short length: `step` says what its tag makes of the value behind it. -/
theorem of_element {α : Type} {tag : UInt8} {n : Nat} {value : Bytes} {read : Step Reader α} {v : α}
    (put : α → Incoming)
    (step : ∀ fuel position rest, (takeElements maxSize length (fuel + 1) a).run ⟨position, tag :: rest⟩ =
      (Reader.length >>= fun _ => read >>= fun v => takeElements maxSize length fuel (put v)).run
        ⟨position + 1, rest⟩)
    (hn : n < 0x80) (hv : Takes read value v) :
    Leads maxSize length a (tag :: UInt8.ofNat n :: value) (put v) := by
  intro fuel position rest enough
  simp only [List.length_cons] at enough
  obtain ⟨fuel, rfl⟩ : ∃ m, fuel = m + 1 := ⟨fuel - 1, by omega⟩
  refine ⟨fuel, by omega, ?_⟩
  have short : Reader.length.run ⟨position + 1, UInt8.ofNat n :: (value ++ rest)⟩ =
      (.ok n, ⟨position + 1 + 1, value ++ rest⟩) :=
    Reader.takes_length_short hn (position + 1) (value ++ rest)
  rw [List.cons_append, step, List.cons_append, Step.run_bind_of_ok short,
    Step.run_bind_of_ok (hv _ rest)]
  simp only [List.length_cons]
  congr 2
  omega

theorem uid {tag : UInt8} {text : String} {bytes : Bytes} (put : String → Incoming)
    (step : ∀ fuel position rest, (takeElements maxSize length (fuel + 1) a).run ⟨position, tag :: rest⟩ =
      (Reader.length >>= fun _ => Reader.uid >>= fun v => takeElements maxSize length fuel (put v)).run
        ⟨position + 1, rest⟩)
    (none : put "" = a) (canonical : Uid.Canonical text) (h : uidElement tag text = .ok bytes) :
    Leads maxSize length a bytes (put text) := by
  obtain ⟨rfl, rfl⟩ | ⟨encoded, he, rfl⟩ := uidElement_ok h
  · rw [none]
    exact refl
  · have := Uid.length_encode_le he
    exact of_element put step (by omega) (Reader.takes_uid canonical he)

theorem number (tag : UInt8) (value : Option UInt32) (put : Option UInt32 → Incoming)
    (step : ∀ fuel position rest, (takeElements maxSize length (fuel + 1) a).run ⟨position, tag :: rest⟩ =
      (Reader.length >>= fun _ => Reader.integer >>= fun v => takeElements maxSize length fuel (put (some v))).run
        ⟨position + 1, rest⟩)
    (absent : put none = a) : Leads maxSize length a (numberElement tag value) (put value) := by
  cases value with
  | none =>
    rw [absent]
    exact refl
  | some n =>
    obtain ⟨width, -, four, -, bytes⟩ := Ber.unsignedBytes_eq n
    have short : (Ber.unsignedBytes n.toNat).length ≤ 4 := by
      rw [bytes, Bytes.length_bigEndian]
      exact four
    exact of_element (fun v => put (some v)) step (by omega) (Reader.takes_integer n)

end Leads

/-- An APDU of which the addressing and perhaps the key and vector are known. -/
def addressed (address : Addressing) (sent : Option Authentication) : Incoming :=
  { context := address.context, calledTitle := address.calledTitle, calledId := address.calledId,
    callingTitle := address.callingTitle, callingQualifier := address.callingQualifier,
    callingId := address.callingId, authentication := sent }

/-- The addressing elements are taken back. -/
theorem leads_addressing {address : Addressing} {bytes : Bytes} (hcontext : Uid.Canonical address.context)
    (hcalled : Uid.Canonical address.calledTitle) (hcalling : Uid.Canonical address.callingTitle)
    (h : addressing address = .ok bytes) : Leads maxSize length {} bytes (addressed address none) := by
  obtain ⟨e1, h1, h⟩ := Step.except_bind_ok.1 h
  obtain ⟨e2, h2, h⟩ := Step.except_bind_ok.1 h
  obtain ⟨e3, h3, h⟩ := Step.except_bind_ok.1 h
  obtain rfl := Except.ok.inj h
  obtain ⟨context, calledTitle, calledId, callingTitle, callingQualifier, callingId⟩ := address
  have first : Leads maxSize length {} e1 { context } :=
    .uid (fun context => { context }) (fun _ _ _ => rfl) rfl hcontext h1
  have second := first.trans (.uid (fun calledTitle => { context, calledTitle })
    (fun _ _ _ => rfl) rfl hcalled h2)
  have third := second.trans (.number calledIdTag calledId
    (fun calledId => { context, calledTitle, calledId }) (fun _ _ _ => rfl) rfl)
  have fourth := third.trans (.uid
    (fun callingTitle => { context, calledTitle, calledId, callingTitle }) (fun _ _ _ => rfl) rfl hcalling h3)
  have fifth := fourth.trans (.number callingQualifierTag callingQualifier
    (fun callingQualifier => { context, calledTitle, calledId, callingTitle, callingQualifier })
    (fun _ _ _ => rfl) rfl)
  exact fifth.trans (.number callingIdTag callingId (fun callingId =>
    { context, calledTitle, calledId, callingTitle, callingQualifier, callingId }) (fun _ _ _ => rfl) rfl)

theorem leads_authentication (address : Addressing) (sent : Option Authentication) :
    Leads maxSize length (addressed address none) (authenticationElement sent) (addressed address sent) := by
  cases sent with
  | none => exact .refl
  | some sent =>
    have element : authenticationElement (some sent) =
        authenticationTag :: UInt8.ofNat authenticationLength ::
          (authenticationFront ++ [sent.keyId] ++ authenticationMiddle ++ Bytes.bigEndian 4 sent.vector.toNat) := by
      simp [authenticationElement, Authentication.element]
    rw [element]
    refine Leads.of_element (fun sent => addressed address (some sent)) ?_ (by decide)
      (takes_authentication sent)
    intro fuel position rest
    show (Reader.length >>= fun _ => Reader.take authenticationLength >>= fun value =>
      Step.ofExcept (Authentication.ofValue value) >>= fun sent =>
        takeElements maxSize length fuel (addressed address (some sent))).run ⟨position + 1, rest⟩ = _
    simp only [bind_assoc]

theorem takeElements_bodyTag (fuel position : Nat) (rest : Bytes) :
    (takeElements maxSize length (fuel + 1) a).run ⟨position, bodyTag :: rest⟩ =
      (Reader.length >>= fun _ => takeBody maxSize length (bodyTag :: rest) a).run ⟨position + 1, rest⟩ :=
  rfl

/-- A body is taken back from its element. -/
theorem takeElements_body {control : Epsem.Control} {n tail fuel position : Nat} {contents : Bytes}
    (hn : contents.length = n + tail) (fits : length ≤ maxSize.toNat)
    (short : elementLength (elementLength (n + 1 + tail)) < 0x1000000)
    (tagged : control.mode.isSecure = true → tagLength ≤ tail) :
    ((takeElements maxSize length (fuel + 1) a).run ⟨position, Acse.bodyHeader control n tail ++ contents⟩).1 =
      .ok { a with bodyHeader := Acse.bodyHeader control n tail, control := some control, body := contents } := by
  have inner := le_elementLength (n + 1 + tail)
  have outer := le_elementLength (elementLength (n + 1 + tail))
  have secured : ¬ (control.mode.isSecure = true ∧ contents.length < tagLength) := by
    rintro ⟨secure, few⟩
    have := tagged secure
    omega
  have whole : Acse.bodyHeader control n tail ++ contents =
      bodyTag :: (Ber.lengthBytes (elementLength (elementLength (n + 1 + tail))) ++
        (externalTag :: (Ber.lengthBytes (elementLength (n + 1 + tail)) ++
          (octetsTag :: (Ber.lengthBytes (n + 1 + tail) ++ (control.byte :: contents)))))) := by
    simp only [Acse.bodyHeader, Acse.element, List.cons_append, List.append_assoc, List.nil_append]
  have header : (Acse.bodyHeader control n tail ++ contents).take
      ((Acse.bodyHeader control n tail ++ contents).length - contents.length) =
        Acse.bodyHeader control n tail := by
    rw [List.length_append, Nat.add_sub_cancel, List.take_left]
  generalize hs : Acse.bodyHeader control n tail ++ contents = start at header whole
  rw [whole, takeElements_bodyTag, ← whole, Step.run_bind_of_ok (Reader.takes_length short _ _)]
  unfold takeBody
  rw [if_neg (by omega), Step.run_bind_of_ok (Reader.run_byte externalTag _ _), if_neg (by simp),
    Step.run_bind_of_ok (Reader.takes_length (by omega) _ _),
    Step.run_bind_of_ok (Reader.run_byte octetsTag _ _), if_neg (by decide)]
  dsimp only
  have octets : ¬ (n + 1 + tail = 0 ∨ n + 1 + tail ≠ (control.byte :: contents).length) := by
    rw [List.length_cons]
    omega
  rw [if_neg (by simp), Step.run_bind_of_ok (Reader.takes_length (by omega) _ _),
    Step.run_bind_of_ok (Reader.run_remaining _), if_neg octets,
    Step.run_bind_of_ok (Reader.run_byte control.byte _ _),
    Step.run_bind_of_ok (by rw [Step.run_ofExcept, control_ofByte_byte]), Step.run_get_bind,
    if_neg secured]
  dsimp only
  rw [header]
  rfl

/-- A whole APDU is taken back from its elements. -/
theorem parse_elements {address : Addressing} {sent : Option Authentication} {control : Epsem.Control}
    {n tail : Nat} {addresses contents elements : Bytes}
    (hcontext : Uid.Canonical address.context) (hcalled : Uid.Canonical address.calledTitle)
    (hcalling : Uid.Canonical address.callingTitle) (haddresses : addressing address = .ok addresses)
    (helements : elements = addresses ++ (authenticationElement sent ++
      (Acse.bodyHeader control n tail ++ contents)))
    (hn : contents.length = n + tail) (short : elements.length < 0x1000000)
    (fits : elements.length ≤ maxSize.toNat) (tagged : control.mode.isSecure = true → tagLength ≤ tail) :
    parse (apduTag :: (Ber.lengthBytes elements.length ++ elements)) maxSize =
      .ok { addressed address sent with
              bodyHeader := Acse.bodyHeader control n tail, control := some control, body := contents } := by
  have leads : Leads maxSize elements.length {} _ (addressed address sent) :=
    (leads_addressing hcontext hcalled hcalling haddresses).trans (leads_authentication address sent)
  have whole : elements = (addresses ++ authenticationElement sent) ++
      (Acse.bodyHeader control n tail ++ contents) := by rw [helements, List.append_assoc]
  have size : elements.length = (addresses ++ authenticationElement sent).length +
      (Acse.bodyHeader control n tail ++ contents).length := by
    conv => lhs; rw [whole, List.length_append]
  -- the longest length within the body element counts part of it
  have inner := elementLength_lt_header control n tail
  obtain ⟨fuel, enough, run⟩ := leads elements.length (1 + (Ber.lengthBytes elements.length).length)
    (Acse.bodyHeader control n tail ++ contents) (by omega)
  obtain ⟨fuel, rfl⟩ : ∃ m, fuel = m + 1 := by
    refine ⟨fuel - 1, ?_⟩
    have : 0 < (Acse.bodyHeader control n tail ++ contents).length := by
      simp [Acse.bodyHeader, Acse.element]
    omega
  rw [← whole] at run
  unfold parse Reader.parse takeApdu Reader.ofBytes
  rw [Step.run_bind_of_ok (Reader.run_byte apduTag 0 _), if_neg (by simp),
    Step.run_bind_of_ok (Reader.takes_length short _ _), Step.run_bind_of_ok (Reader.run_remaining _)]
  dsimp only
  rw [if_neg (by simp)]
  refine (congrArg Prod.fst run).trans (takeElements_body hn fits ?_ tagged)
  simp only [List.length_append] at size
  omega

/-! ## Opening -/

/-- What the body says in the plain, the device class still in front. -/
def plainBody (a : Incoming) (mode : SecurityMode) (eax : Option Eax) (auth : Authentication) :
    Except Fault Bytes :=
  match mode, eax with
  | .clear, _ => .ok a.body
  | _, none => .error (.authentication .noKeyForResponse)
  | mode, some eax => a.openSecured mode eax auth

/-- The device class taken off and noted, if there is one. -/
def takeEdClass (a : Incoming) (control : Epsem.Control) (plain : Bytes) : Except Fault (Bytes × Incoming) :=
  if control.edClass then
    if plain.length < edClassLength then .error (.protocol (.badElement bodyTag))
    else .ok (plain.drop edClassLength, { a with edClass := some (plain.take edClassLength) })
  else .ok (plain, a)

theorem openBody_eq {control : Epsem.Control} (h : a.control = some control) (eax : Option Eax)
    (auth : Authentication) :
    a.openBody eax auth = a.plainBody control.mode eax auth >>= a.takeEdClass control := by
  obtain ⟨mode, response, edClass⟩ := control
  unfold openBody plainBody takeEdClass
  rw [h]
  cases mode <;> cases eax <;> cases edClass <;> rfl

theorem openSecured_sealedBody {p : Parameters} {s : Seal} {clear plain : Bytes}
    (secure : p.mode.isSecure = true) (hclear : a.clear s.authentication = .ok clear)
    (hbody : a.body = (Outgoing.sealedBody p s clear plain).1 ++ (Outgoing.sealedBody p s clear plain).2) :
    a.openSecured p.mode s.eax s.authentication = .ok plain := by
  have tag := Outgoing.length_tag_sealedBody p s clear plain
  have length : a.body.length - tagLength = (Outgoing.sealedBody p s clear plain).1.length := by
    rw [hbody, List.length_append, tag, Nat.add_sub_cancel]
  have body : a.body.take (a.body.length - tagLength) = (Outgoing.sealedBody p s clear plain).1 := by
    rw [length, hbody, List.take_left]
  have received : a.body.drop (a.body.length - tagLength) = (Outgoing.sealedBody p s clear plain).2 := by
    rw [length, hbody, List.drop_left]
  unfold openSecured
  refine Step.except_bind_ok.2 ⟨clear, hclear, ?_⟩
  rw [body, received]
  unfold Outgoing.sealedBody
  cases hm : p.mode with
  | clear => simp [hm, SecurityMode.isSecure] at secure
  | authenticated =>
    simp only [reduceCtorEq, if_false, if_true]
    rw [if_pos (Eax.tagsAgree_iff.2 rfl)]
    rfl
  | encrypted =>
    simp only [reduceCtorEq, if_false, if_true, Eax.decryptBody_encryptBody]
    rw [if_pos (Eax.tagsAgree_iff.2 rfl)]
    rfl

end Incoming

namespace Outgoing

/-- The number of bytes behind the services. -/
def tailLength (p : Parameters) : Nat := if p.mode.isSecure then tagLength else 0

/-- The key and vector that are sent along. -/
def sentWith (p : Parameters) (secured : Option Seal) : Option Authentication :=
  if p.mode.isSecure then
    secured.bind fun s => if s.sendAuthentication then some s.authentication else none
  else none

/-- The device class of an association as it stands in front of the services; none if it has none. -/
def edClassField (p : Parameters) : Option Bytes :=
  if p.edClass.isEmpty then none else (Epsem.paddedEdClass p.edClass).toOption

/-- What stands behind the control byte: the plain bytes in the clear, or sealed with their tag. -/
def Contents (o : Outgoing) (p : Parameters) (secured : Option Seal) (plain contents : Bytes) : Prop :=
  (p.mode.isSecure = false ∧ contents = plain) ∨
    p.mode.isSecure = true ∧ ∃ s clear, secured = some s ∧
      cleartext (o.address p) s.sendAuthentication (bodyHeader (control p) plain.length tagLength)
        s.authentication = .ok clear ∧
      contents = (sealedBody p s clear plain).1 ++ (sealedBody p s clear plain).2

theorem Contents.length {o : Outgoing} {p : Parameters} {secured : Option Seal} {plain contents : Bytes}
    (h : Contents o p secured plain contents) : contents.length = plain.length + tailLength p := by
  rcases h with ⟨clear, rfl⟩ | ⟨secure, s, clear, -, -, rfl⟩
  · simp [tailLength, clear]
  · rw [List.length_append, length_sealedBody, length_tag_sealedBody, tailLength, if_pos secure]

theorem encode_ok {p : Parameters} {services : List Bytes} {plain : Bytes}
    (h : Epsem.encode (if p.edClass.isEmpty then none else some p.edClass) services = .ok plain) :
    plain = (edClassField p).getD [] ++ services.flatMap Epsem.serviceBytes ∧
      (control p).edClass = (edClassField p).isSome ∧
      ∀ c, edClassField p = some c → c.length = edClassLength := by
  unfold edClassField control
  by_cases empty : p.edClass.isEmpty = true
  · simp only [if_pos empty] at h ⊢
    obtain rfl := Except.ok.inj h
    simp
  · simp only [if_neg empty] at h ⊢
    obtain ⟨front, hfront, h⟩ := Step.except_bind_ok.1 (show Epsem.paddedEdClass p.edClass >>= _ = _ from h)
    obtain rfl := Except.ok.inj h
    rw [hfront]
    refine ⟨rfl, rfl, ?_⟩
    rintro _ ⟨⟩
    unfold Epsem.paddedEdClass at hfront
    split at hfront
    · cases hfront
    · obtain rfl := Except.ok.inj hfront
      exact Config.length_padded _ _

/-- The bytes of an APDU of some elements. -/
def apduOf (elements : Bytes) : Bytes := apduTag :: (Ber.lengthBytes elements.length ++ elements)

theorem length_apduOf (elements : Bytes) : (apduOf elements).length = elementLength elements.length := by
  simp [apduOf, elementLength, Nat.add_comm]

/-- What stands in the buffer of an APDU before its addressing is put in front. -/
def filled (o : Outgoing) (p : Parameters) (secured : Option Seal) : Except Fault FrameBuffer := do
  match ← sealFor p secured with
  | none => framed o p 0
  | some s => do secure o p s (← framed o p tagLength)

theorem build_eq (o : Outgoing) (p : Parameters) (secured : Option Seal) :
    o.build p secured = (do
      let b ← o.filled p secured
      let addresses ← addressing (o.address p)
      if (apduOf (addresses ++ b.toList)).length > p.maxOutgoing.toNat then
        throw (.nok .requestTooLarge (Bytes.bigEndian 4 p.maxOutgoing.toNat))
      return apduOf (addresses ++ b.toList)) := by
  have whole (b : FrameBuffer) (addresses : Bytes) :
      (((b.prepend addresses).prependLength (b.prepend addresses).length).prepend [apduTag]).toList =
        apduOf (addresses ++ b.toList) := by
    simp [FrameBuffer.toList_eq, FrameBuffer.length_eq, apduOf, Nat.add_assoc]
  have length (b : FrameBuffer) : b.length = b.toList.length := (List.length_drop ..).symm
  simp only [← whole, ← length]
  unfold build filled
  cases sealFor p secured with
  | error e => rfl
  | ok chosen =>
    cases chosen with
    | none => rfl
    | some s => exact (bind_assoc (o.framed p tagLength) (o.secure p s) _).symm

theorem filled_ok {o : Outgoing} {p : Parameters} {secured : Option Seal} {b : FrameBuffer}
    (h : o.filled p secured = .ok b) :
    ∃ plain, Epsem.encode (if p.edClass.isEmpty then none else some p.edClass) o.services = .ok plain ∧
      Contents o p secured plain b.body ∧
      b.header = authenticationElement (sentWith p secured) ++
        bodyHeader (control p) plain.length (tailLength p) := by
  obtain ⟨chosen, hs, h⟩ := Step.except_bind_ok.1 h
  cases hm : p.mode.isSecure with
  | false =>
    obtain rfl : none = chosen := by simpa [sealFor, hm] using hs
    obtain ⟨encoded, header⟩ := framed_ok h
    exact ⟨b.body, encoded, .inl ⟨hm, rfl⟩, by simp [header, sentWith, hm, authenticationElement, tailLength]⟩
  | true =>
    cases secured with
    | none => simp [sealFor, hm] at hs
    | some s =>
      obtain rfl : some s = chosen := by simpa [sealFor, hm] using hs
      obtain ⟨plain, framed, h⟩ := Step.except_bind_ok.1 h
      obtain ⟨encoded, header⟩ := framed_ok framed
      obtain ⟨clear, made, header', body⟩ := secure_ok h
      rw [header] at made header'
      exact ⟨plain.body, encoded, .inr ⟨hm, s, clear, rfl, made, body⟩,
        by cases hs : s.sendAuthentication <;> simp [header', sentWith, hm, hs, tailLength, authenticationElement]⟩

/-- The parts of an APDU that was built. -/
theorem build_parts {o : Outgoing} {p : Parameters} {secured : Option Seal} {bytes : Bytes}
    (h : o.build p secured = .ok bytes) :
    ∃ addresses plain contents elements,
      addressing (o.address p) = .ok addresses ∧
      Epsem.encode (if p.edClass.isEmpty then none else some p.edClass) o.services = .ok plain ∧
      Contents o p secured plain contents ∧
      elements = addresses ++ (authenticationElement (sentWith p secured) ++
        (bodyHeader (control p) plain.length (tailLength p) ++ contents)) ∧
      bytes = apduTag :: (Ber.lengthBytes elements.length ++ elements) := by
  rw [build_eq] at h
  obtain ⟨b, hb, h⟩ := Step.except_bind_ok.1 h
  obtain ⟨plain, encoded, hcontents, header⟩ := filled_ok hb
  obtain ⟨addresses, haddresses, h⟩ := Step.except_bind_ok.1 h
  split at h
  · cases h
  · obtain rfl := Except.ok.inj h
    refine ⟨addresses, plain, b.body, addresses ++ b.toList, haddresses, encoded, hcontents, ?_, rfl⟩
    rw [FrameBuffer.toList_eq, header, List.append_assoc]

/-- What the other side opens an answer with: in a secured mode the key it was sealed with, and the
key id and vector that sealed it. -/
def Opens (p : Parameters) (secured : Option Seal) (eax : Option Eax) (auth : Authentication) : Prop :=
  p.mode.isSecure = true → ∃ s, secured = some s ∧ eax = some s.eax ∧ auth = s.authentication

theorem plainBody_contents {o : Outgoing} {p : Parameters} {secured : Option Seal} {plain : Bytes}
    {a : Incoming} {eax : Option Eax} {auth : Authentication} (hcontents : Contents o p secured plain a.body)
    (haddress : a.address = o.address p) (hsent : a.authentication = sentWith p secured)
    (hheader : a.bodyHeader = bodyHeader (control p) plain.length (tailLength p))
    (hopens : Opens p secured eax auth) : a.plainBody p.mode eax auth = .ok plain := by
  rcases hcontents with ⟨unsecured, body⟩ | ⟨secure, s, clear, rfl, made, body⟩
  · cases hm : p.mode with
    | clear =>
      rw [← body]
      rfl
    | authenticated => simp [hm, SecurityMode.isSecure] at unsecured
    | encrypted => simp [hm, SecurityMode.isSecure] at unsecured
  · obtain ⟨s', same, rfl, rfl⟩ := hopens secure
    obtain rfl := Option.some.inj same
    have hclear : a.clear s.authentication = .ok clear := by
      have present : a.authentication.isSome = s.sendAuthentication := by
        rw [hsent, sentWith, if_pos secure, Option.bind_some]
        cases s.sendAuthentication <;> rfl
      rw [Incoming.clear, haddress, hheader, present, tailLength, if_pos secure, made]
    have opened := Incoming.openSecured_sealedBody secure hclear body
    cases hm : p.mode with
    | clear => simp [hm, SecurityMode.isSecure] at secure
    | authenticated => rwa [hm] at opened
    | encrypted => rwa [hm] at opened

theorem takeEdClass_field {p : Parameters} {a : Incoming} {services : Bytes} (before : a.edClass = none)
    (hfield : (control p).edClass = (edClassField p).isSome)
    (hlength : ∀ c, edClassField p = some c → c.length = edClassLength) :
    a.takeEdClass (control p) ((edClassField p).getD [] ++ services) =
      .ok (services, { a with edClass := edClassField p }) := by
  unfold Incoming.takeEdClass
  rw [hfield]
  cases hc : edClassField p with
  | none =>
    have same : { a with edClass := none } = a := by rw [← before]
    rw [if_neg (by simp), same]
    rfl
  | some c => simp [← hlength c hc]

end Outgoing

end Acse

namespace Epsem

theorem length_serviceBytes (service : Bytes) : service.length < (serviceBytes service).length := by
  unfold serviceBytes Ber.lengthBytes
  repeat' split
  all_goals
    simp only [List.length_append, List.length_cons, List.length_nil, Bytes.length_bigEndian]
    omega

theorem length_le_flatMap (services : List Bytes) :
    services.length ≤ (services.flatMap serviceBytes).length := by
  induction services with
  | nil => simp
  | cons service services ih =>
    have := length_serviceBytes service
    simp only [List.flatMap_cons, List.length_append, List.length_cons]
    omega

theorem takeServices_ok {services : List Bytes} (present : ∀ s ∈ services, s ≠ [])
    (short : (services.flatMap serviceBytes).length < 0x1000000) {fuel : Nat}
    (enough : services.length ≤ fuel) (position : Nat) :
    ((takeServices fuel).run ⟨position, services.flatMap serviceBytes⟩).1 = .ok services := by
  induction services generalizing fuel position with
  | nil => cases fuel <;> rfl
  | cons service services ih =>
    obtain ⟨fuel, rfl⟩ : ∃ m, fuel = m + 1 := Nat.exists_eq_succ_of_ne_zero (by rintro rfl; simp at enough)
    have some : service ≠ [] := present service List.mem_cons_self
    have positive : service.length ≠ 0 := by simpa using some
    have whole : (service :: services).flatMap serviceBytes =
        Ber.lengthBytes service.length ++ (service ++ services.flatMap serviceBytes) := by
      simp [serviceBytes]
    rw [whole, List.length_append, List.length_append] at short
    have length := Reader.takes_length (n := service.length) (by omega) position
      (service ++ services.flatMap serviceBytes)
    have taken := Reader.takes_take service (position + (Ber.lengthBytes service.length).length)
      (services.flatMap serviceBytes)
    have rest := ih (fun s hs => present s (List.mem_cons_of_mem _ hs)) (by omega)
      (Nat.le_of_succ_le_succ enough)
      (position + (Ber.lengthBytes service.length).length + service.length)
    rw [whole, takeServices, Step.run_bind_of_ok (Reader.run_remaining _), if_neg (by simp [some]),
      Step.run_bind_of_ok length, if_neg positive, Step.run_bind_of_ok (Reader.run_remaining _),
      if_neg (by simp), Step.run_bind_of_ok taken, Step.run_bind, Step.run_eq_of_fst rest]
    rfl

/-- Services that are not empty are told apart again. -/
theorem split_services {services : List Bytes} (present : ∀ s ∈ services, s ≠ [])
    (short : (services.flatMap serviceBytes).length < 0x1000000) :
    split (services.flatMap serviceBytes) = .ok services :=
  takeServices_ok present short (length_le_flatMap services) 0

end Epsem

namespace Acse.Outgoing

/-- What the other side finds in an APDU that was built. -/
structure Found (o : Outgoing) (p : Parameters) (secured : Option Seal) (a : Incoming) : Prop where
  address : a.address = o.address p
  control : a.control = some (control p)
  authentication : a.authentication = sentWith p secured
  opens : ∀ eax auth, Opens p secured eax auth →
    a.openBody eax auth = .ok (o.services.flatMap Epsem.serviceBytes, { a with edClass := edClassField p })

variable {o : Outgoing} {p : Parameters} {secured : Option Seal} {bytes : Bytes} {max : UInt32}

/-- The number of bytes of the longest APDU that is read back: a tag, a length in four bytes, and as many bytes
as that can count. -/
def longestRead : Nat := 1 + 4 + 0xFFFFFF

theorem elementLength_le_longestRead_iff (n : Nat) : elementLength n ≤ longestRead ↔ n < 0x1000000 := by
  unfold elementLength longestRead Ber.lengthBytes
  split_ifs <;> simp only [List.length_cons, List.length_nil, Bytes.length_bigEndian] <;> omega

theorem found_of_build (hcontext : Uid.Canonical p.context) (hcalled : Uid.Canonical p.calledTitle)
    (hcalling : Uid.Canonical p.callingTitle) (h : o.build p secured = .ok bytes)
    (short : bytes.length ≤ longestRead) (fits : bytes.length ≤ max.toNat) :
    ∃ a, Incoming.parse bytes max = .ok a ∧ Found o p secured a ∧
      (o.services.flatMap Epsem.serviceBytes).length < 0x1000000 := by
  obtain ⟨addresses, plain, contents, elements, haddresses, encoded, hcontents, helements, rfl⟩ := build_parts h
  obtain ⟨rfl, hfield, hlength⟩ := encode_ok encoded
  have size := hcontents.length
  have around : (apduTag :: (Ber.lengthBytes elements.length ++ elements)).length = elementLength elements.length :=
    length_apduOf elements
  rw [around] at short fits
  have few := (elementLength_le_longestRead_iff _).1 short
  have less := le_elementLength elements.length
  have whole := congrArg List.length helements
  simp only [List.length_append] at size whole
  refine ⟨_, Incoming.parse_elements hcontext hcalled hcalling haddresses helements hcontents.length
    (by omega) (by omega) ?_, ⟨rfl, rfl, rfl, fun eax auth hopens => ?_⟩, by omega⟩
  · intro (secure : p.mode.isSecure = true)
    simp [tailLength, secure]
  · rw [Incoming.openBody_eq rfl]
    refine Step.except_bind_ok.2 ⟨_, plainBody_contents hcontents rfl rfl rfl hopens, ?_⟩
    exact takeEdClass_field rfl hfield hlength

/-- **An APDU that was built is read back.** The other side takes it apart into the addressing, the
control byte and the key and vector it was built with. With the key, key id and vector that sealed it
the body opens to the services it was built from, and the device class is noted. -/
theorem parse_build {o : Outgoing} {p : Parameters} {secured : Option Seal} {bytes : Bytes} {max : UInt32}
    (hcontext : Uid.Canonical p.context) (hcalled : Uid.Canonical p.calledTitle)
    (hcalling : Uid.Canonical p.callingTitle) (hservices : ∀ s ∈ o.services, s ≠ [])
    (h : o.build p secured = .ok bytes) (short : bytes.length < 0x1000000)
    (fits : bytes.length ≤ max.toNat) :
    ∃ a, Incoming.parse bytes max = .ok a ∧ a.address = o.address p ∧ a.control = some (control p) ∧
      a.authentication = sentWith p secured ∧
      ∀ eax auth, Opens p secured eax auth →
        a.openBody eax auth =
          .ok (o.services.flatMap Epsem.serviceBytes, { a with edClass := edClassField p }) ∧
        Epsem.split (o.services.flatMap Epsem.serviceBytes) = .ok o.services := by
  have readable : bytes.length ≤ longestRead := Nat.le_trans (Nat.le_of_lt short) (by decide)
  obtain ⟨a, parsed, found, size⟩ := found_of_build hcontext hcalled hcalling h readable fits
  refine ⟨a, parsed, found.address, found.control, found.authentication, fun eax auth hopens => ⟨?_, ?_⟩⟩
  · exact found.opens eax auth hopens
  · exact Epsem.split_services hservices size

/-! ### A sealed answer -/

/-- An association that encrypts, with relative titles and a device class. -/
def encryptedPeer : Parameters where
  context := "2.16.124.113620.1.22.0"
  calledTitle := ".2.5"
  callingTitle := ".9.1"
  callingQualifier := some 7
  mode := .encrypted
  response := .always
  edClass := [0x41, 0x42]
  maxOutgoing := 1024
  maxIncoming := 1024

/-- Key 1 of ones and vector 5, which are announced. -/
def onesSeal : Seal where
  eax := .ofCipher (Aes.cipher (Block.ofBytes (List.replicate 16 0x11))).encrypt
  authentication := ⟨1, 5⟩
  sendAuthentication := true

/-- The answer to invocation 41, with two services. -/
def twoServices : Outgoing := ⟨300, some 41, [[0x30, 0x00, 0x01], [0x00]]⟩

/-- An answer of 80 bytes is read back where no more than that is allowed. -/
theorem parse_build_twoServices :
    ∃ bytes a, twoServices.build encryptedPeer (some onesSeal) = .ok bytes ∧ bytes.length = 80 ∧
      Incoming.parse bytes 80 = .ok a ∧ a.address = twoServices.address encryptedPeer ∧
      a.authentication = some ⟨1, 5⟩ ∧
      a.openBody (some onesSeal.eax) ⟨1, 5⟩ =
        .ok ([0x03, 0x30, 0x00, 0x01, 0x01, 0x00], { a with edClass := some [0x41, 0x42, 0x20, 0x20] }) ∧
      Epsem.split [0x03, 0x30, 0x00, 0x01, 0x01, 0x00] = .ok twoServices.services := by
  have built : (twoServices.build encryptedPeer (some onesSeal)).toOption.map List.length = some 80 := by
    decide +kernel
  cases h : twoServices.build encryptedPeer (some onesSeal) with
  | error e => simp [h, Except.toOption] at built
  | ok bytes =>
    have length : bytes.length = 80 := by simpa [h, Except.toOption] using built
    have hcontext : Uid.Canonical encryptedPeer.context :=
      ⟨some 2, [16, 124, 113620, 1, 22, 0], by decide +kernel⟩
    have hcalled : Uid.Canonical encryptedPeer.calledTitle := ⟨none, [2, 5], by decide +kernel⟩
    have hcalling : Uid.Canonical encryptedPeer.callingTitle := ⟨none, [9, 1], by decide +kernel⟩
    have fits : bytes.length ≤ UInt32.toNat 80 := by
      rw [length]
      decide
    obtain ⟨a, parsed, address, -, authentication, opens⟩ := parse_build hcontext hcalled hcalling (by decide) h
      (by omega) fits
    obtain ⟨opened, split⟩ := opens (some onesSeal.eax) ⟨1, 5⟩ fun _ => ⟨onesSeal, rfl, rfl, rfl⟩
    exact ⟨bytes, a, rfl, length, parsed, address, authentication, opened, split⟩

end Acse.Outgoing

end Metering
