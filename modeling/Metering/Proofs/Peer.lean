import Metering.Proofs.Framing
import Metering.Proofs.Spelling

set_option autoImplicit false

/-! # Answers of the own peer

The peer of an association answers under the same association with its sides changed. Its answer names the titles
in canonical form, however the association spells them, since they are encoded like the canonical spelling. The
check of an answer compares texts, so it is passed exactly if the association spells its titles like that
(`Acse.answer_accepted_iff`). -/

namespace Metering

namespace Uid

/-- The canonical spelling of what a text stands for. -/
def respelled (text : String) : String := spell (isRelative text) ((arcs? text).getD [])

theorem canonical_respelled (text : String) : Canonical (respelled text) := canonical_spell _ _

theorem encode_respelled {text : String} {bytes : Bytes} (h : encode text = .ok bytes) :
    encode (respelled text) = .ok bytes ∧ isRelative (respelled text) = isRelative text := by
  obtain ⟨⟨-, size⟩, arcs, harcs, made⟩ := encode_eq_ok_iff.1 h
  have short : (spell (isRelative text) arcs).toList.length ≤ 128 :=
    Nat.le_trans (length_spell_le harcs) (Nat.le_trans (length_le_utf8ByteSize text) size)
  rw [respelled, harcs, Option.getD_some]
  exact ⟨made.encode short, made.isRelative_eq⟩

end Uid

/-- Whether a body can be made is up to the device class. -/
theorem Epsem.exists_encode {edClass : Option Bytes} {services : List Bytes} {body : Bytes}
    (h : encode edClass services = .ok body) (services' : List Bytes) : ∃ body', encode edClass services' = .ok body' := by
  cases edClass with
  | none => exact ⟨_, rfl⟩
  | some c =>
    obtain ⟨front, padded, -⟩ := Step.except_bind_ok.1 (show paddedEdClass c >>= _ = _ from h)
    exact ⟨_, show paddedEdClass c >>= _ = _ from Step.except_bind_ok.2 ⟨front, padded, rfl⟩⟩

namespace Acse

open Uid (Canonical respelled)

variable {tag : UInt8} {text : String} {bytes : Bytes}

/-! ## Elements and spellings -/

/-- An element does not tell how its identifier was spelled. -/
theorem uidElement_respelled (h : uidElement tag text = .ok bytes) : uidElement tag (respelled text) = .ok bytes := by
  obtain ⟨rfl, rfl⟩ | ⟨encoded, he, rfl⟩ := uidElement_ok h
  · rfl
  · obtain ⟨same, form⟩ := Uid.encode_respelled he
    have some : (respelled text).isEmpty = false := by
      rw [Bool.eq_false_iff]
      intro none
      rw [String.isEmpty_iff.1 none] at same
      cases same
    rw [uidElement, if_neg (by simp [some]), Uid.tagged, same, form]
    rfl

theorem uidElement_retagged (h : uidElement tag text = .ok bytes) (tag' : UInt8) :
    ∃ bytes', uidElement tag' text = .ok bytes' := by
  unfold uidElement at h ⊢
  split at h
  next none => exact ⟨[], if_pos none⟩
  next some =>
    obtain ⟨encoded, he, -⟩ := Step.except_bind_ok.1 h
    rw [if_neg some]
    exact ⟨_, Step.except_bind_ok.2 ⟨encoded, he, rfl⟩⟩

/-- A text that can be an element is in canonical form if respelling does not change it. -/
theorem respelled_eq_iff (h : uidElement tag text = .ok bytes) : text = respelled text ↔ Canonical text := by
  constructor
  · intro same
    rw [same]
    exact Uid.canonical_respelled text
  · intro canonical
    obtain ⟨rfl, -⟩ | ⟨encoded, he, -⟩ := uidElement_ok h
    · rfl
    · obtain ⟨-, arcs, harcs, -⟩ := Uid.encode_eq_ok_iff.1 he
      rw [respelled, harcs, Option.getD_some]
      exact Uid.eq_spell canonical harcs

theorem addressing_ok {a : Addressing} : addressing a = .ok bytes ↔
    ∃ context called calling, uidElement contextTag a.context = .ok context ∧
      uidElement calledTitleTag a.calledTitle = .ok called ∧ uidElement callingTitleTag a.callingTitle = .ok calling ∧
      bytes = context ++ called ++ numberElement calledIdTag a.calledId ++ calling ++
        numberElement callingQualifierTag a.callingQualifier ++ numberElement callingIdTag a.callingId := by
  constructor
  · intro h
    obtain ⟨context, h1, h⟩ := Step.except_bind_ok.1 h
    obtain ⟨called, h2, h⟩ := Step.except_bind_ok.1 h
    obtain ⟨calling, h3, h⟩ := Step.except_bind_ok.1 h
    exact ⟨context, called, calling, h1, h2, h3, (Except.ok.inj h).symm⟩
  · rintro ⟨context, called, calling, h1, h2, h3, rfl⟩
    exact Step.except_bind_ok.2 ⟨context, h1, Step.except_bind_ok.2 ⟨called, h2,
      Step.except_bind_ok.2 ⟨calling, h3, rfl⟩⟩⟩

/-- The addressing with its identifiers in canonical form. -/
def Addressing.respelled (a : Addressing) : Addressing :=
  { a with
    context := Uid.respelled a.context, calledTitle := Uid.respelled a.calledTitle
    callingTitle := Uid.respelled a.callingTitle }

theorem addressing_respelled {a : Addressing} (h : addressing a = .ok bytes) : addressing a.respelled = .ok bytes := by
  obtain ⟨context, called, calling, h1, h2, h3, same⟩ := addressing_ok.1 h
  exact addressing_ok.2 ⟨context, called, calling, uidElement_respelled h1, uidElement_respelled h2,
    uidElement_respelled h3, same⟩

/-! ## APDUs and spellings -/

namespace Outgoing

variable {o : Outgoing} {p : Parameters} {secured : Option Seal} {b : FrameBuffer} {addresses : Bytes}

/-- An APDU whose elements can be made is built unless it is too long. -/
theorem build_run (hb : o.filled p secured = .ok b) (ha : addressing (o.address p) = .ok addresses) :
    o.build p secured =
      if (apduOf (addresses ++ b.toList)).length > p.maxOutgoing.toNat then
        .error (.nok .requestTooLarge (Bytes.bigEndian 4 p.maxOutgoing.toNat))
      else .ok (apduOf (addresses ++ b.toList)) := by
  rw [build_eq, hb]
  show (addressing (o.address p) >>= _) = _
  rw [ha]
  rfl

/-- In the clear, the body of an APDU can be made of any services if it can be made of some. -/
theorem filled_of_clear {services : List Bytes} {plain : Bytes} (clear : p.mode = .clear)
    (h : Epsem.encode (if p.edClass.isEmpty then none else some p.edClass) services = .ok plain) :
    ∃ b, o.filled p secured = .ok b := by
  obtain ⟨body, encoded⟩ := Epsem.exists_encode h o.services
  have unsealed : sealFor p secured = .ok none := by simp [sealFor, clear, SecurityMode.isSecure]
  exact ⟨_, Step.except_bind_ok.2 ⟨none, unsealed, Step.except_bind_ok.2 ⟨_, encoded, rfl⟩⟩⟩

/-- An APDU that is not too long is read back with its identifiers in canonical form, however they were spelled. -/
theorem parse_respelled {max : UInt32} (hb : o.filled p secured = .ok b)
    (ha : addressing (o.address p) = .ok addresses) (fits : (apduOf (addresses ++ b.toList)).length ≤ max.toNat)
    (short : (apduOf (addresses ++ b.toList)).length ≤ longestRead) :
    ∃ a, Incoming.parse (apduOf (addresses ++ b.toList)) max = .ok a ∧ a.address = (o.address p).respelled := by
  obtain ⟨plain, -, contents, header⟩ := filled_ok hb
  have context : Canonical (o.address p).respelled.context := Uid.canonical_respelled _
  have called : Canonical (o.address p).respelled.calledTitle := Uid.canonical_respelled _
  have calling : Canonical (o.address p).respelled.callingTitle := Uid.canonical_respelled _
  have elements : addresses ++ b.toList = addresses ++ (authenticationElement (sentWith p secured) ++
      (bodyHeader (control p) plain.length (tailLength p) ++ b.body)) := by
    rw [FrameBuffer.toList_eq, header, List.append_assoc]
  rw [length_apduOf] at fits short
  have few := (elementLength_le_longestRead_iff _).1 short
  have less := le_elementLength (addresses ++ b.toList).length
  refine ⟨_, Incoming.parse_elements context called calling (addressing_respelled ha) elements contents.length few
    (Nat.le_trans less fits) fun (secure : p.mode.isSecure = true) => ?_, rfl⟩
  exact Nat.le_of_eq (if_pos secure).symm

end Outgoing

namespace Incoming

/-- An APDU with a length in more than four bytes is not read. -/
theorem length_le_of_parse {elements : Bytes} {max : UInt32} {a : Incoming} (h : parse (Outgoing.apduOf elements) max = .ok a) :
    (Outgoing.apduOf elements).length ≤ Outgoing.longestRead := by
  rw [Outgoing.length_apduOf, Outgoing.elementLength_le_longestRead_iff]
  exact isFrame_apduOf_iff.1 (isFrame_of_parse h)

theorem verifyResponse_iff {a : Incoming} {p : Parameters} {n : UInt32} :
    a.verifyResponse p n = .ok () ↔ a.calledId = some n ∧ a.callingId.isSome = true ∧
      p.callingTitle = a.calledTitle ∧ p.calledTitle = a.callingTitle := by
  unfold verifyResponse
  constructor
  · intro h
    split_ifs at h with _ unnumbered other titles
    rw [not_or, Decidable.not_not, Decidable.not_not] at titles
    exact ⟨Decidable.not_not.1 other, by simpa [← Option.ne_none_iff_isSome] using unnumbered, titles⟩
  · rintro ⟨called, calling, titles⟩
    rw [if_neg (by simp [called]), if_neg (by simpa [← Option.ne_none_iff_isSome] using calling),
      if_neg (not_not_intro called), if_neg (by simp [titles])]

end Incoming

/-- An answer to a request. -/
def Outgoing.answer (o : Outgoing) (id : UInt32) (services : List Bytes) : Outgoing := ⟨id, some o.callingId, services⟩

/-- **What passes as an answer** from the own peer: under an association in the clear that a request could be built
for, the peer can build an answer to it, if that is not too long. It is read back and accepted exactly if the
association spells both titles in canonical form and the length of the answer has no more than four bytes. -/
theorem answer_accepted_iff {o : Outgoing} {p : Parameters} {secured : Option Seal} {request : Bytes}
    (clear : p.mode = .clear) (built : o.build p secured = .ok request) (id : UInt32) (services : List Bytes)
    (secured' : Option Seal) :
    ∃ bytes, (o.answer id services).build p.swapped secured' =
        (if bytes.length > p.maxOutgoing.toNat then
          .error (.nok .requestTooLarge (Bytes.bigEndian 4 p.maxOutgoing.toNat))
        else .ok bytes) ∧
      ∀ max : UInt32, bytes.length ≤ max.toNat →
        ((∃ a, Incoming.parse bytes max = .ok a ∧ a.verifyResponse p o.callingId = .ok ()) ↔
          Canonical p.calledTitle ∧ Canonical p.callingTitle ∧ bytes.length ≤ Outgoing.longestRead) := by
  obtain ⟨addresses, plain, -, -, ha, encoded, -⟩ := Outgoing.build_parts built
  obtain ⟨context, called, calling, h1, h2, h3, -⟩ := addressing_ok.1 ha
  -- the titles change their tags
  obtain ⟨called', h2'⟩ := uidElement_retagged h2 callingTitleTag
  obtain ⟨calling', h3'⟩ := uidElement_retagged h3 calledTitleTag
  have ha' : addressing ((o.answer id services).address p.swapped) = .ok _ :=
    addressing_ok.2 ⟨context, calling', called', h1, h3', h2', rfl⟩
  obtain ⟨b, hb⟩ : ∃ b, (o.answer id services).filled p.swapped secured' = .ok b :=
    Outgoing.filled_of_clear clear encoded
  refine ⟨_, Outgoing.build_run hb ha', fun max fits => ?_⟩
  constructor
  · rintro ⟨a, parsed, accepted⟩
    have short := Incoming.length_le_of_parse parsed
    obtain ⟨a', parsed', found⟩ := Outgoing.parse_respelled hb ha' fits short
    obtain rfl : a = a' := Except.ok.inj (parsed.symm.trans parsed')
    obtain ⟨-, -, same, same'⟩ := Incoming.verifyResponse_iff.1 accepted
    have title : a.calledTitle = respelled p.callingTitle := congrArg Addressing.calledTitle found
    have title' : a.callingTitle = respelled p.calledTitle := congrArg Addressing.callingTitle found
    exact ⟨(respelled_eq_iff h2).1 (same'.trans title'), (respelled_eq_iff h3).1 (same.trans title), short⟩
  · rintro ⟨canonical, canonical', short⟩
    obtain ⟨a, parsed, found⟩ := Outgoing.parse_respelled hb ha' fits short
    refine ⟨a, parsed, Incoming.verifyResponse_iff.2 ⟨congrArg Addressing.calledId found, ?_, ?_, ?_⟩⟩
    · rw [show a.callingId = some id from congrArg Addressing.callingId found]
      rfl
    · exact ((respelled_eq_iff h3).2 canonical').trans (congrArg Addressing.calledTitle found).symm
    · exact ((respelled_eq_iff h2).2 canonical).trans (congrArg Addressing.callingTitle found).symm

/-- An association in the clear between `.9.1` and a called side. -/
def clearPeer (calledTitle : String) : Parameters where
  context := ""
  calledTitle := calledTitle
  callingTitle := ".9.1"
  callingQualifier := none
  mode := .clear
  response := .always
  edClass := []
  maxOutgoing := 1024
  maxIncoming := 1024

/-- A request to read table 1. -/
def tableRead : Outgoing := ⟨41, none, [[0x30, 0x00, 0x01]]⟩

/-- Its bytes, if the called side is `.2.5`. -/
def tableRequest : Bytes :=
  [0x60, 0x1C, 0xA2, 0x04, 0x80, 0x02, 0x02, 0x05, 0xA6, 0x04, 0x80, 0x02, 0x09, 0x01, 0xA8, 0x03, 0x02, 0x01, 0x29,
    0xBE, 0x09, 0x28, 0x07, 0x81, 0x05, 0x80, 0x03, 0x30, 0x00, 0x01]

/-- The bytes of the answer of `.2.5`. -/
def tableAnswer : Bytes :=
  [0x60, 0x20, 0xA2, 0x04, 0x80, 0x02, 0x09, 0x01, 0xA4, 0x03, 0x02, 0x01, 0x29, 0xA6, 0x04, 0x80, 0x02, 0x02, 0x05,
    0xA8, 0x04, 0x02, 0x02, 0x03, 0x84, 0xBE, 0x07, 0x28, 0x05, 0x81, 0x03, 0x80, 0x01, 0x00]

theorem answer_accepted_canonical :
    tableRead.build (clearPeer ".2.5") none = .ok tableRequest ∧
      ∃ answer a, (tableRead.answer 900 [[0x00]]).build (clearPeer ".2.5").swapped none = .ok answer ∧
        Incoming.parse answer 1024 = .ok a ∧ a.verifyResponse (clearPeer ".2.5") 41 = .ok () := by
  have built : tableRead.build (clearPeer ".2.5") none = .ok tableRequest :=
    Step.except_ok_of_toOption (by decide +kernel)
  have answered : (tableRead.answer 900 [[0x00]]).build (clearPeer ".2.5").swapped none = .ok tableAnswer :=
    Step.except_ok_of_toOption (by decide +kernel)
  obtain ⟨answer, answered', accepted⟩ := answer_accepted_iff rfl built 900 [[0x00]] none
  rw [answered] at answered'
  split at answered'
  · cases answered'
  · obtain rfl := Except.ok.inj answered'
    have called : Canonical ".2.5" := ⟨none, [2, 5], by decide +kernel⟩
    have calling : Canonical ".9.1" := ⟨none, [9, 1], by decide +kernel⟩
    obtain ⟨a, parsed, verified⟩ := (accepted 1024 (by decide)).2 ⟨called, calling, by decide⟩
    exact ⟨built, tableAnswer, a, answered, parsed, verified⟩

/-- Under an association that spells a title with a zero in front, neither the request nor the answer is another,
but the answer is refused. -/
theorem answer_refused_zero :
    tableRead.build (clearPeer ".02.5") none = .ok tableRequest ∧
      (tableRead.answer 900 [[0x00]]).build (clearPeer ".02.5").swapped none = .ok tableAnswer ∧
      ∃ a, Incoming.parse tableAnswer 1024 = .ok a ∧
        a.verifyResponse (clearPeer ".02.5") 41 = .error (.authentication .titleMismatch) := by
  have parsed : Incoming.parse tableAnswer 1024 = .ok
      { calledTitle := ".9.1", calledId := some 41, callingTitle := ".2.5", callingId := some 900,
        control := some ⟨.clear, .always, false⟩, bodyHeader := [0xBE, 0x07, 0x28, 0x05, 0x81, 0x03, 0x80],
        body := [0x01, 0x00] } := Step.except_ok_of_toOption (by decide +kernel)
  refine ⟨Step.except_ok_of_toOption (by decide +kernel), Step.except_ok_of_toOption (by decide +kernel), _, parsed, ?_⟩
  rfl

end Acse

end Metering
