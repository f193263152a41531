import Mathlib.Logic.ExistsUnique
import Metering.Proofs.Framing

set_option autoImplicit false

/-! # The grammar of an APDU

The elements of an APDU lie one behind the other, each a tag, a length and a value. What an element of a known
tag holds says where the element ends; the length it declares does not. The APDUs that can be taken apart are the
ones that are tiled by elements in this sense, and there is one tiling of each (`Acse.Incoming.parse_tiled`). -/

namespace Metering

open Reader (Takes)

/-! ## Lengths, numbers and identifiers -/

/-- A length as it stands on the wire. -/
def Ber.IsLength (field : Bytes) (n : Nat) : Prop := ∃ first octets, field = first :: octets ∧ LengthOf first octets n

/-- A number as it stands on the wire: tag, length, and one to four bytes. -/
def Ber.IsInteger (bytes : Bytes) (n : UInt32) : Prop :=
  ∃ field octets, bytes = integerTag :: (field ++ octets) ∧ IsLength field octets.length ∧ octets ≠ [] ∧
    octets.length ≤ 4 ∧ n = UInt32.ofNat (Bytes.ofBigEndian octets)

/-- An identifier as it stands on the wire: kind, length, and arcs. -/
def Uid.IsWire (bytes : Bytes) (text : String) : Prop :=
  ∃ kind field arcs, bytes = kind :: (field ++ arcs) ∧
    (kind = absoluteTag ∨ kind = relativeTag ∨ kind = otherRelativeTag) ∧ Ber.IsLength field arcs.length ∧
    decode arcs (kind ≠ absoluteTag) = .ok text

namespace Reader

/-- The step takes what the grammar derives, and nothing else. -/
structure Reads {α : Type} (x : Step Reader α) (derives : Bytes → α → Prop) : Prop where
  sound : ∀ ⦃r r' : Reader⦄ ⦃a : α⦄, x.run r = (.ok a, r') → ∃ bytes, r.rest = bytes ++ r'.rest ∧ derives bytes a
  complete : ∀ ⦃bytes : Bytes⦄ ⦃a : α⦄, derives bytes a → Takes x bytes a

namespace Reads

variable {α β : Type} {x y : Step Reader α} {f : α → Step Reader β} {derives derives' : Bytes → α → Prop}
  {bytes bytes' rest rest' : Bytes} {a a' : α}

/-- What a grammar derives can be told from what follows it, if a step reads it. -/
theorem unique (h : Reads x derives) (one : derives bytes a) (other : derives bytes' a')
    (same : bytes ++ rest = bytes' ++ rest') : bytes = bytes' ∧ a = a' ∧ rest = rest' :=
  (h.complete one).unique (h.complete other) same

/-- A step whose value is put to some use. -/
theorem map (h : Reads x derives) (g : α → β) :
    Reads (x >>= fun a => pure (g a)) fun bytes b => ∃ a, derives bytes a ∧ g a = b where
  sound := by
    intro r r' b run
    obtain ⟨a, t, read, run⟩ := Step.run_bind_ok.1 run
    obtain ⟨same, rfl⟩ := Prod.mk.inj run
    obtain ⟨bytes, front, derived⟩ := h.sound read
    exact ⟨bytes, front, a, derived, Except.ok.inj same⟩
  complete := by
    rintro bytes b ⟨a, derived, rfl⟩
    exact (h.complete derived).map g

end Reads

theorem reads_take (count : Nat) : Reads (take count) fun bytes value => value = bytes ∧ bytes.length = count where
  sound := by
    intro r r' value run
    rw [run_take] at run
    split at run
    · cases (Prod.mk.inj run).1
    next enough =>
      obtain ⟨taken, rfl⟩ := Prod.mk.inj run
      obtain rfl := Except.ok.inj taken
      refine ⟨_, (List.take_append_drop count r.rest).symm, rfl, ?_⟩
      rw [List.length_take]
      omega
  complete := by
    rintro bytes _ ⟨rfl, rfl⟩
    exact takes_take _

theorem reads_length : Reads length Ber.IsLength where
  sound := by
    intro r r' n run
    obtain ⟨first, octets, front, size⟩ := length_ok run
    exact ⟨first :: octets, front, first, octets, rfl, size⟩
  complete := by
    rintro _ n ⟨first, octets, rfl, size⟩
    refine (takes_byte first).bind (v := octets) ?_
    cases size with
    | short small =>
      rw [if_pos small]
      exact .pure _
    | long large _ count some few =>
      have counted : ¬ (first.toNat % 128 = 0 ∨ first.toNat % 128 > 3) := by
        rw [← count, not_or]
        exact ⟨fun none => some (List.eq_nil_of_length_eq_zero none), Nat.not_lt.2 few⟩
      rw [if_neg large]
      dsimp only
      rw [if_neg counted, ← count]
      exact (takes_take octets).map Bytes.ofBigEndian

theorem reads_integer : Reads integer Ber.IsInteger where
  sound := by
    intro r r' n run
    unfold integer at run
    obtain ⟨kind, r1, h1, run⟩ := Step.run_bind_ok.1 run
    obtain ⟨count, r2, h2, run⟩ := Step.run_bind_ok.1 run
    split at run
    · exact absurd run Step.run_throw_ne_ok
    next good =>
      obtain ⟨value, r3, h3, run⟩ := Step.run_bind_ok.1 run
      obtain ⟨same, rfl⟩ := Prod.mk.inj run
      obtain ⟨field, front, size⟩ := reads_length.sound h2
      obtain ⟨_, front', octets, ⟨rfl, rfl⟩, rfl⟩ := ((reads_take count).map Bytes.ofBigEndian).sound h3
      rw [not_or, not_or, Decidable.not_not] at good
      obtain ⟨rfl, some, few⟩ := good
      refine ⟨Ber.integerTag :: (field ++ octets), ?_, field, octets, rfl, size, ?_, Nat.not_lt.1 few,
        (Except.ok.inj same).symm⟩
      · rw [Acse.byte_ok h1, front, front', List.cons_append, List.append_assoc]
      · rintro rfl
        exact some rfl
  complete := by
    rintro _ _ ⟨field, octets, rfl, size, some, few, rfl⟩
    refine (takes_byte Ber.integerTag).bind (v := field ++ octets) ((reads_length.complete size).bind ?_)
    have good : ¬ (Ber.integerTag ≠ Ber.integerTag ∨ octets.length = 0 ∨ octets.length > 4) := by
      rw [not_or, not_or]
      exact ⟨fun other => other rfl, fun none => some (List.eq_nil_of_length_eq_zero none), Nat.not_lt.2 few⟩
    rw [if_neg good]
    exact ((takes_take octets).map Bytes.ofBigEndian).map UInt32.ofNat

theorem reads_uid : Reads uid Uid.IsWire where
  sound := by
    intro r r' text run
    unfold uid at run
    obtain ⟨kind, r1, h1, run⟩ := Step.run_bind_ok.1 run
    split at run
    · exact absurd run Step.run_throw_ne_ok
    next known =>
      obtain ⟨count, r2, h2, run⟩ := Step.run_bind_ok.1 run
      obtain ⟨arcs, r3, h3, run⟩ := Step.run_bind_ok.1 run
      obtain ⟨decoded, rfl⟩ := Prod.mk.inj ((Step.run_ofExcept _ _).symm.trans run)
      obtain ⟨field, front, size⟩ := reads_length.sound h2
      obtain ⟨_, front', rfl, rfl⟩ := (reads_take count).sound h3
      refine ⟨kind :: (field ++ arcs), ?_, kind, field, arcs, rfl, ?_, size, decoded⟩
      · rw [Acse.byte_ok h1, front, front', List.cons_append, List.append_assoc]
      · simpa only [Decidable.not_and_iff_not_or_not, ne_eq, Decidable.not_not] using known
  complete := by
    rintro _ text ⟨kind, field, arcs, rfl, known, size, decoded⟩
    have good : ¬ (kind ≠ Uid.absoluteTag ∧ kind ≠ Uid.relativeTag ∧ kind ≠ Uid.otherRelativeTag) := by
      rintro ⟨h1, h2, h3⟩
      exact known.elim h1 fun known => known.elim h2 h3
    refine (takes_byte kind).bind (v := field ++ arcs) ?_
    rw [if_neg good]
    have read := (takes_take arcs).bind (f := fun arcs => Step.ofExcept (Uid.decode arcs (kind ≠ Uid.absoluteTag)))
      (.ofExcept decoded)
    rw [List.append_nil] at read
    exact (reads_length.complete size).bind read

end Reader

namespace Acse

/-! ## Elements -/

/-- The tags of the elements that are read; the others are passed over. -/
def readTags : List UInt8 :=
  [contextTag, calledTitleTag, calledIdTag, callingTitleTag, callingQualifierTag, callingIdTag, authenticationTag,
    bodyTag]

/-- An element: a tag, a length and what it declares, and a value. -/
@[ext] structure Tile where
  tag : UInt8
  field : Bytes
  declared : Nat
  value : Bytes

/-- The bytes of an element. -/
def Tile.bytes (t : Tile) : Bytes := t.tag :: (t.field ++ t.value)

/-- What the value of an element other than the body makes of an APDU. Only one that is passed over goes by the
length that is declared. -/
inductive Value (declared : Nat) : UInt8 → Bytes → Incoming → Incoming → Prop where
  | context {a value text} : Uid.IsWire value text → Value declared contextTag value a { a with context := text }
  | calledTitle {a value text} : Uid.IsWire value text →
      Value declared calledTitleTag value a { a with calledTitle := text }
  | calledId {a value n} : Ber.IsInteger value n → Value declared calledIdTag value a { a with calledId := some n }
  | callingTitle {a value text} : Uid.IsWire value text →
      Value declared callingTitleTag value a { a with callingTitle := text }
  | callingQualifier {a value n} : Ber.IsInteger value n →
      Value declared callingQualifierTag value a { a with callingQualifier := some n }
  | callingId {a value n} : Ber.IsInteger value n → Value declared callingIdTag value a { a with callingId := some n }
  | authentication {a value sent} : Authentication.ofValue value = .ok sent →
      Value declared authenticationTag value a { a with authentication := some sent }
  | other {tag a value} : tag ∉ readTags → declared = value.length → Value declared tag value a a

/-- The element that is passed over in front of the bytes of a body, if it is there: its length and its value. -/
def referenceBytes : Option (Bytes × Bytes) → Bytes
  | none => []
  | some (field, value) => referenceTag :: (field ++ value)

/-- A body: a wrapper, within it perhaps an element that is passed over, and the bytes behind a control byte. -/
structure Body where
  /-- The length of the wrapper. -/
  wrapper : Bytes
  /-- What the wrapper declares, which nothing is compared with. -/
  declared : Nat
  /-- The element that is passed over. -/
  reference : Option (Bytes × Bytes)
  /-- The length of the bytes. -/
  octets : Bytes
  control : UInt8
  contents : Bytes

namespace Body

variable (b : Body)

/-- What is within the wrapper. -/
def inner : Bytes := referenceBytes b.reference ++ octetsTag :: (b.octets ++ b.control :: b.contents)

/-- The value of a body element. -/
def value : Bytes := externalTag :: (b.wrapper ++ b.inner)

/-- The lengths of a body are right, that of its wrapper apart, and its control byte means something. -/
structure Valid (control : Epsem.Control) : Prop where
  wrapper : Ber.IsLength b.wrapper b.declared
  reference : ∀ r ∈ b.reference, Ber.IsLength r.1 r.2.length
  octets : Ber.IsLength b.octets (b.contents.length + 1)
  means : Epsem.Control.ofByte b.control = .ok control
  tagged : control.mode.isSecure = true → tagLength ≤ b.contents.length

end Body

/-- Elements one behind the other, of which a body is the last, and what they make of an APDU of some length. -/
inductive Tiling (maxSize : UInt32) (length : Nat) : Incoming → List Tile → Incoming → Prop where
  | nil (a : Incoming) : Tiling maxSize length a [] a
  | value {a a' b : Incoming} {t : Tile} {tiles : List Tile} (plain : t.tag ≠ bodyTag)
      (size : Ber.IsLength t.field t.declared) (value : Value t.declared t.tag t.value a a')
      (rest : Tiling maxSize length a' tiles b) : Tiling maxSize length a (t :: tiles) b
  | body {a : Incoming} {t : Tile} {body : Body} {control : Epsem.Control} (tag : t.tag = bodyTag)
      (size : Ber.IsLength t.field t.declared) (fits : length ≤ maxSize.toNat) (value : t.value = body.value)
      (valid : body.Valid control) : Tiling maxSize length a [t] (a.withBody t.bytes control body.contents)

namespace Incoming

variable {maxSize : UInt32} {length fuel : Nat} {a b : Incoming}

/-- Takes a key id and a vector. -/
def takeAuthentication : Step Reader Authentication := do
  let value ← Reader.take authenticationLength
  Step.ofExcept (Authentication.ofValue value)

theorem reads_authentication : Reader.Reads takeAuthentication fun value sent =>
    Authentication.ofValue value = .ok sent where
  sound := by
    intro r r' sent run
    obtain ⟨value, r1, read, run⟩ := Step.run_bind_ok.1 run
    obtain ⟨made, rfl⟩ := Prod.mk.inj ((Step.run_ofExcept _ _).symm.trans run)
    obtain ⟨_, front, rfl, -⟩ := (Reader.reads_take _).sound read
    exact ⟨value, front, made⟩
  complete := by
    intro value sent made
    have size : value.length = authenticationLength := by
      unfold Authentication.ofValue at made
      split at made
      next good => exact good.1
      · cases made
    have read := ((Reader.reads_take authenticationLength).complete ⟨rfl, size⟩).bind
      (f := fun value => Step.ofExcept (Authentication.ofValue value)) (.ofExcept made)
    rwa [List.append_nil] at read

theorem takeValue_other {tag : UInt8} (unknown : tag ∉ readTags) (n : Nat) (a : Incoming) :
    takeValue tag n a = (Reader.skip n >>= fun _ => pure a) := by
  simp only [readTags, List.mem_cons, List.not_mem_nil, or_false, not_or] at unknown
  obtain ⟨h1, h2, h3, h4, h5, h6, h7, -⟩ := unknown
  rw [takeValue, if_neg h1, if_neg h2, if_neg h3, if_neg h4, if_neg h5, if_neg h6, if_neg h7]

theorem takeValue_authentication (n : Nat) (a : Incoming) : takeValue authenticationTag n a =
    (takeAuthentication >>= fun sent => pure { a with authentication := some sent }) :=
  (bind_assoc (Reader.take authenticationLength) _ _).symm

theorem reads_value {tag : UInt8} {n : Nat} (plain : tag ≠ bodyTag) :
    Reader.Reads (takeValue tag n a) fun value b => Value n tag value a b where
  sound := by
    intro r r' b run
    by_cases unknown : tag ∉ readTags
    · rw [takeValue_other unknown] at run
      obtain ⟨_, r1, skipped, run⟩ := Step.run_bind_ok.1 run
      obtain ⟨same, rfl⟩ := Prod.mk.inj run
      obtain ⟨value, front, -, ⟨-, size⟩, -⟩ := ((Reader.reads_take n).map fun _ => ()).sound skipped
      obtain rfl := Except.ok.inj same
      exact ⟨value, front, .other unknown size.symm⟩
    simp only [readTags, List.mem_cons, List.not_mem_nil, or_false, Decidable.not_not] at unknown
    rcases unknown with rfl | rfl | rfl | rfl | rfl | rfl | rfl | rfl
    · obtain ⟨value, front, text, wire, rfl⟩ := (Reader.reads_uid.map _).sound run
      exact ⟨value, front, .context wire⟩
    · obtain ⟨value, front, text, wire, rfl⟩ := (Reader.reads_uid.map _).sound run
      exact ⟨value, front, .calledTitle wire⟩
    · obtain ⟨value, front, number, wire, rfl⟩ := (Reader.reads_integer.map _).sound run
      exact ⟨value, front, .calledId wire⟩
    · obtain ⟨value, front, text, wire, rfl⟩ := (Reader.reads_uid.map _).sound run
      exact ⟨value, front, .callingTitle wire⟩
    · obtain ⟨value, front, number, wire, rfl⟩ := (Reader.reads_integer.map _).sound run
      exact ⟨value, front, .callingQualifier wire⟩
    · obtain ⟨value, front, number, wire, rfl⟩ := (Reader.reads_integer.map _).sound run
      exact ⟨value, front, .callingId wire⟩
    · rw [takeValue_authentication] at run
      obtain ⟨value, front, sent, made, rfl⟩ := (reads_authentication.map _).sound run
      exact ⟨value, front, .authentication made⟩
    · exact absurd rfl plain
  complete := by
    intro value b derived
    cases derived with
    | context wire => exact (Reader.reads_uid.complete wire).map fun text => { a with context := text }
    | calledTitle wire => exact (Reader.reads_uid.complete wire).map fun text => { a with calledTitle := text }
    | calledId wire => exact (Reader.reads_integer.complete wire).map fun n => { a with calledId := some n }
    | callingTitle wire => exact (Reader.reads_uid.complete wire).map fun text => { a with callingTitle := text }
    | callingQualifier wire =>
      exact (Reader.reads_integer.complete wire).map fun n => { a with callingQualifier := some n }
    | callingId wire => exact (Reader.reads_integer.complete wire).map fun n => { a with callingId := some n }
    | authentication made =>
      rw [takeValue_authentication]
      exact (reads_authentication.complete made).map fun sent => { a with authentication := some sent }
    | other unknown size =>
      rw [takeValue_other unknown, size]
      exact ((Reader.takes_take value).map fun _ => ()).map fun _ => a

/-! ## Bodies -/

/-- Takes the next tag within the wrapper that is not passed over with its element. -/
def takeNext : Step Reader UInt8 := do
  let next ← Reader.byte
  if next = referenceTag then
    let skipped ← Reader.length
    Reader.skip skipped
    Reader.byte
  else return next

theorem takeBody_eq (fits : length ≤ maxSize.toNat) (start : Bytes) :
    takeBody maxSize length start a = (do
      if (← Reader.byte) ≠ externalTag then throw (.protocol (.badElement bodyTag))
      let _ ← Reader.length
      takeOctets start a (← takeNext)) := by
  rw [takeBody, if_neg (Nat.not_lt.2 fits)]
  refine congrArg (Reader.byte >>= ·) (funext fun external => ?_)
  dsimp only
  split
  · rfl
  refine congrArg (Reader.length >>= ·) (funext fun declared => ?_)
  rw [takeNext, bind_assoc]
  refine congrArg (Reader.byte >>= ·) (funext fun next => ?_)
  split
  · simp only [bind_assoc]
    rfl
  · rfl

theorem reads_next : Reader.Reads takeNext fun bytes next => ∃ reference, bytes = referenceBytes reference ++ [next] ∧
    (∀ e ∈ reference, Ber.IsLength e.1 e.2.length) ∧ (reference = none → next ≠ referenceTag) where
  sound := by
    intro r r' next run
    obtain ⟨first, r1, h1, run⟩ := Step.run_bind_ok.1 run
    have front := Acse.byte_ok h1
    split at run
    next reference =>
      obtain ⟨skipped, r2, h2, run⟩ := Step.run_bind_ok.1 run
      obtain ⟨_, r3, h3, last⟩ := Step.run_bind_ok.1 run
      obtain ⟨field, front2, size⟩ := Reader.reads_length.sound h2
      obtain ⟨value, front3, -, ⟨-, rfl⟩, -⟩ := ((Reader.reads_take skipped).map fun _ => ()).sound h3
      refine ⟨_, ?_, some (field, value), rfl, ?_, nofun⟩
      · simp [referenceBytes, front, front2, front3, Acse.byte_ok last, reference]
      · rintro e ⟨⟩
        exact size
    next other =>
      obtain ⟨same, rfl⟩ := Prod.mk.inj run
      obtain rfl := Except.ok.inj same
      exact ⟨[first], front, none, rfl, nofun, fun _ => other⟩
  complete := by
    rintro _ next ⟨reference, rfl, size, plain⟩
    cases reference with
    | none =>
      refine (Reader.takes_byte next).bind (v := []) ?_
      rw [if_neg (plain rfl)]
      exact .pure next
    | some element =>
      obtain ⟨field, value⟩ := element
      refine (Reader.takes_byte referenceTag).bind (v := field ++ value ++ [next]) ?_
      rw [if_pos rfl, List.append_assoc]
      refine (Reader.reads_length.complete (size _ rfl)).bind ?_
      exact ((Reader.takes_take value).map fun _ => ()).bind (Reader.takes_byte next)

theorem takeOctets_valid {start : Bytes} {next : UInt8} {r r' : Reader}
    (h : (takeOctets start a next).run r = (.ok b, r')) : next = octetsTag ∧ ∃ octets byte control,
      r.rest = octets ++ byte :: r'.rest ∧ Ber.IsLength octets (r'.rest.length + 1) ∧
        Epsem.Control.ofByte byte = .ok control ∧ (control.mode.isSecure = true → tagLength ≤ r'.rest.length) ∧
        b = a.withBody start control r'.rest := by
  have tag : next = octetsTag := by
    unfold takeOctets at h
    split at h
    · exact absurd h Step.run_throw_ne_ok
    next octets => exact Decidable.not_not.1 octets
  obtain ⟨control, made, counted, tagged⟩ := takeOctets_ok h
  obtain ⟨n, r1, h1, counted⟩ := Step.run_bind_ok.1 counted
  obtain ⟨byte, r2, h2, counted⟩ := Step.run_bind_ok.1 counted
  obtain ⟨control', r3, h3, counted⟩ := Step.run_bind_ok.1 counted
  obtain ⟨same, rfl⟩ := Prod.mk.inj counted
  obtain ⟨rfl, rfl⟩ := Prod.mk.inj (Except.ok.inj same)
  obtain ⟨means, rfl⟩ := Prod.mk.inj ((Step.run_ofExcept _ _).symm.trans h3)
  obtain ⟨octets, front, size⟩ := Reader.reads_length.sound h1
  exact ⟨tag, octets, byte, control', by rw [front, Acse.byte_ok h2], size, means, tagged, made⟩

/-- **A body that is taken** is valid. -/
theorem takeBody_valid {start : Bytes} {r r' : Reader} (h : (takeBody maxSize length start a).run r = (.ok b, r')) :
    length ≤ maxSize.toNat ∧ ∃ (body : Body) (control : Epsem.Control), r.rest = body.value ∧ body.Valid control ∧
      b = a.withBody start control body.contents := by
  have fits : length ≤ maxSize.toNat := by
    unfold takeBody at h
    split at h
    · exact absurd h Step.run_throw_ne_ok
    next fits => exact Nat.not_lt.1 fits
  rw [takeBody_eq fits] at h
  obtain ⟨external, r1, h1, h⟩ := Step.run_bind_ok.1 h
  dsimp only at h
  split at h
  · exact absurd h Step.run_throw_ne_ok
  next wrapped =>
    obtain ⟨declared, r2, h2, h⟩ := Step.run_bind_ok.1 h
    obtain ⟨next, r3, h3, h⟩ := Step.run_bind_ok.1 h
    obtain ⟨wrapper, front2, size⟩ := Reader.reads_length.sound h2
    obtain ⟨_, front3, reference, rfl, known, -⟩ := reads_next.sound h3
    obtain ⟨rfl, octets, byte, control, front4, counted, means, tagged, made⟩ := takeOctets_valid h
    refine ⟨fits, ⟨wrapper, declared, reference, octets, byte, r'.rest⟩, control, ?_,
      ⟨size, known, counted, means, tagged⟩, made⟩
    rw [Body.value, Body.inner, Acse.byte_ok h1, Decidable.not_not.1 wrapped, front2, front3, front4]
    simp

/-- **A valid body is taken**, whatever its wrapper declares. -/
theorem takeBody_of_valid {body : Body} {control : Epsem.Control} (fits : length ≤ maxSize.toNat)
    (valid : body.Valid control) (start : Bytes) (position : Nat) :
    ((takeBody maxSize length start a).run ⟨position, body.value⟩).1 = .ok (a.withBody start control body.contents) := by
  have next : Takes takeNext (referenceBytes body.reference ++ [octetsTag]) octetsTag :=
    reads_next.complete ⟨body.reference, rfl, valid.reference, fun _ => by decide⟩
  have inner : body.inner =
      (referenceBytes body.reference ++ [octetsTag]) ++ (body.octets ++ body.control :: body.contents) := by
    simp [Body.inner]
  have counted : ¬ (body.contents.length + 1 = 0 ∨ body.contents.length + 1 ≠ (body.control :: body.contents).length) := by
    simp
  have secured : ¬ (control.mode.isSecure = true ∧ body.contents.length < tagLength) := fun ⟨secure, few⟩ =>
    Nat.not_le.2 few (valid.tagged secure)
  rw [takeBody_eq fits, Body.value, inner, Step.run_bind_of_ok (Reader.run_byte externalTag _ _)]
  dsimp only
  rw [if_neg (by simp), Step.run_bind_of_ok (Reader.reads_length.complete valid.wrapper _ _),
    Step.run_bind_of_ok (next _ _), takeOctets, if_neg (by simp),
    Step.run_bind_of_ok (Reader.reads_length.complete valid.octets _ _),
    Step.run_bind_of_ok (Reader.run_remaining _), if_neg counted,
    Step.run_bind_of_ok (Reader.run_byte body.control _ _),
    Step.run_bind_of_ok (by rw [Step.run_ofExcept, valid.means]), Step.run_get_bind, if_neg secured]
  rfl

/-! ## Whole APDUs -/

/-- **Elements that are taken** are a tiling. -/
theorem tiling_of_takeElements {r r' : Reader} (enough : r.rest.length ≤ fuel)
    (h : (takeElements maxSize length fuel a).run r = (.ok b, r')) :
    ∃ tiles, r.rest = tiles.flatMap Tile.bytes ∧ Tiling maxSize length a tiles b := by
  induction fuel generalizing a r with
  | zero =>
    obtain ⟨same, rfl⟩ := Prod.mk.inj h
    obtain rfl := Except.ok.inj same
    exact ⟨[], List.eq_nil_of_length_eq_zero (Nat.le_zero.1 enough), .nil a⟩
  | succ fuel ih =>
    rw [takeElements_succ, Step.run_get_bind] at h
    dsimp only at h
    split at h
    next none =>
      obtain ⟨same, rfl⟩ := Prod.mk.inj h
      obtain rfl := Except.ok.inj same
      exact ⟨[], List.isEmpty_iff.1 none, .nil a⟩
    obtain ⟨tag, r1, h1, h⟩ := Step.run_bind_ok.1 h
    obtain ⟨declared, r2, h2, h⟩ := Step.run_bind_ok.1 h
    have front := Acse.byte_ok h1
    obtain ⟨field, front2, size⟩ := Reader.reads_length.sound h2
    split at h
    next isBody =>
      obtain ⟨fits, body, control, whole, valid, rfl⟩ := takeBody_valid h
      have bytes : r.rest = (Tile.mk tag field declared body.value).bytes := by
        rw [Tile.bytes, front, front2, whole]
      refine ⟨[⟨tag, field, declared, body.value⟩], by simpa using bytes, ?_⟩
      rw [bytes]
      exact .body isBody size fits rfl valid
    next plain =>
      obtain ⟨a', r3, taken, h⟩ := Step.run_bind_ok.1 h
      obtain ⟨value, front3, derived⟩ := (reads_value plain).sound taken
      have fewer : r3.rest.length ≤ fuel := by
        simp only [front, front2, front3, List.length_cons, List.length_append] at enough
        omega
      obtain ⟨tiles, rest, tiling⟩ := ih fewer h
      refine ⟨⟨tag, field, declared, value⟩ :: tiles, ?_, .value plain size derived tiling⟩
      rw [List.flatMap_cons, Tile.bytes, front, front2, front3, rest]
      simp

/-- **A tiling is taken.** -/
theorem takeElements_of_tiling {tiles : List Tile} (h : Tiling maxSize length a tiles b)
    (enough : (tiles.flatMap Tile.bytes).length ≤ fuel) (position : Nat) :
    ((takeElements maxSize length fuel a).run ⟨position, tiles.flatMap Tile.bytes⟩).1 = .ok b := by
  induction h generalizing fuel position with
  | nil a => cases fuel <;> rfl
  | @value a a' b t tiles plain size value rest ih =>
    simp only [List.flatMap_cons, Tile.bytes, List.length_append, List.length_cons] at enough
    obtain ⟨fuel, rfl⟩ : ∃ m, fuel = m + 1 := ⟨fuel - 1, by omega⟩
    have fewer : (tiles.flatMap Tile.bytes).length ≤ fuel := by omega
    have more := ih fewer (position + 1 + t.field.length + t.value.length)
    rw [List.flatMap_cons, Tile.bytes, List.cons_append, List.append_assoc, takeElements_succ, Step.run_get_bind]
    dsimp only
    rw [if_neg (by simp), Step.run_bind_of_ok (Reader.run_byte t.tag _ _),
      Step.run_bind_of_ok (Reader.reads_length.complete size _ _), if_neg plain,
      Step.run_bind_of_ok ((reads_value plain).complete value _ _)]
    exact more
  | @body a t body control tag size fits value valid =>
    simp only [List.flatMap_singleton, Tile.bytes, List.length_cons] at enough
    obtain ⟨fuel, rfl⟩ : ∃ m, fuel = m + 1 := ⟨fuel - 1, by omega⟩
    rw [List.flatMap_singleton, takeElements_succ, Step.run_get_bind]
    dsimp only
    rw [if_neg (by simp [Tile.bytes]), Tile.bytes, Step.run_bind_of_ok (Reader.run_byte t.tag _ _),
      Step.run_bind_of_ok (Reader.reads_length.complete size _ _), if_pos tag, value]
    exact takeBody_of_valid fits valid _ _

end Incoming

/-- The first element of a tiling can be told from the others. -/
theorem Tile.head_unique {t t' : Tile} {rest rest' : Bytes} (size : Ber.IsLength t.field t.declared)
    (size' : Ber.IsLength t'.field t'.declared) (same : t.bytes ++ rest = t'.bytes ++ rest') :
    t.tag = t'.tag ∧ t.field = t'.field ∧ t.declared = t'.declared ∧ t.value ++ rest = t'.value ++ rest' := by
  simp only [bytes, List.cons_append, List.append_assoc, List.cons.injEq] at same
  exact ⟨same.1, Reader.reads_length.unique size size' same.2⟩

/-- **There is one tiling** of the bytes of an APDU. -/
theorem Tiling.unique {maxSize maxSize' : UInt32} {length length' : Nat} {a b b' : Incoming} {tiles tiles' : List Tile}
    (h : Tiling maxSize length a tiles b) (h' : Tiling maxSize' length' a tiles' b')
    (same : tiles.flatMap Tile.bytes = tiles'.flatMap Tile.bytes) : tiles = tiles' := by
  induction h generalizing tiles' b' with
  | nil a =>
    cases h' with
    | nil => rfl
    | value => simp [Tile.bytes] at same
    | body => simp [Tile.bytes] at same
  | @value a a' b t tiles plain size value rest ih =>
    cases h' with
    | nil => simp [Tile.bytes] at same
    | @value _ a'' _ t' tiles' plain' size' value' rest' =>
      simp only [List.flatMap_cons] at same
      obtain ⟨tag, field, declared, same⟩ := Tile.head_unique size size' same
      rw [← tag, ← declared] at value'
      obtain ⟨values, rfl, same⟩ := (Incoming.reads_value plain).unique value value' same
      rw [Tile.ext tag field declared values, ih rest' same]
    | body tag' size' =>
      simp only [List.flatMap_cons] at same
      obtain ⟨tag, -⟩ := Tile.head_unique size size' same
      exact absurd (tag.trans tag') plain
  | @body a t body control tag size fits value valid =>
    cases h' with
    | nil => simp [Tile.bytes] at same
    | value plain' size' =>
      simp only [List.flatMap_cons] at same
      obtain ⟨tag', -⟩ := Tile.head_unique size size' same
      exact absurd (tag'.symm.trans tag) plain'
    | body tag' size' =>
      simp only [List.flatMap_cons] at same
      obtain ⟨tag, field, declared, values⟩ := Tile.head_unique size size' same
      rw [Tile.ext tag field declared (List.append_cancel_right values)]

/-- An element is as long as it declares, and so is the wrapper of a body. -/
structure Tile.Exact (t : Tile) : Prop where
  value : t.declared = t.value.length
  wrapper : t.tag = bodyTag → ∃ field inner, t.value = externalTag :: (field ++ inner) ∧
    Ber.IsLength field inner.length

/-- An element that is passed over is as long as it declares. -/
theorem Tiling.exact_of_unknown {maxSize : UInt32} {length : Nat} {a b : Incoming} {tiles : List Tile}
    (h : Tiling maxSize length a tiles b) {t : Tile} (ht : t ∈ tiles) (unknown : t.tag ∉ readTags) : t.Exact := by
  have plain : t.tag ≠ bodyTag := by
    rintro tag
    exact unknown (tag ▸ by decide)
  induction h with
  | nil => cases ht
  | value _ _ value _ ih =>
    rcases List.mem_cons.1 ht with rfl | ht
    · refine ⟨?_, fun tag => absurd tag plain⟩
      generalize t.tag = tag at unknown value
      cases value with
      | other _ size => exact size
      | _ => exact absurd (by decide) unknown
    · exact ih ht
  | body tag => exact absurd (List.mem_singleton.1 ht ▸ tag) plain

namespace Incoming

/-- The bytes are the start tag, a length that is right, and elements one behind the other. -/
def Tiled (maxSize : UInt32) (bytes : Bytes) (tiles : List Tile) (b : Incoming) : Prop :=
  ∃ field, bytes = apduTag :: (field ++ tiles.flatMap Tile.bytes) ∧
    Ber.IsLength field (tiles.flatMap Tile.bytes).length ∧ Tiling maxSize (tiles.flatMap Tile.bytes).length {} tiles b

variable {bytes : Bytes} {max max' : UInt32} {a b b' : Incoming} {tiles tiles' : List Tile}

theorem Tiled.unique (h : Tiled max bytes tiles b) (h' : Tiled max' bytes tiles' b') : tiles = tiles' := by
  obtain ⟨field, rfl, size, tiling⟩ := h
  obtain ⟨field', same, size', tiling'⟩ := h'
  obtain ⟨-, -, same⟩ := Reader.reads_length.unique size size' (List.cons.inj same).2
  exact tiling.unique tiling' same

/-- A start tag and a length that is right are taken. -/
theorem takeFront_run {field elements : Bytes} (size : Ber.IsLength field elements.length) (position : Nat) :
    takeFront.run ⟨position, apduTag :: (field ++ elements)⟩ =
      (.ok elements.length, ⟨position + 1 + field.length, elements⟩) := by
  unfold takeFront
  rw [Step.run_bind_of_ok (Reader.run_byte apduTag _ _), if_neg (by simp),
    Step.run_bind_of_ok (Reader.reads_length.complete size _ _), Step.run_bind_of_ok (Reader.run_remaining _),
    if_neg (by simp), Step.run_pure]

theorem parse_iff_tiled : parse bytes max = .ok b ↔ ∃ tiles, Tiled max bytes tiles b := by
  constructor
  · intro h
    have run : (takeApdu max).run (Reader.ofBytes bytes) = (.ok b, _) := Step.run_eq_of_fst h
    rw [takeApdu_eq] at run
    obtain ⟨left, r, front, run⟩ := Step.run_bind_ok.1 run
    obtain ⟨rfl, first, octets, whole, length⟩ := takeFront_ok front
    obtain ⟨tiles, rest, tiling⟩ := tiling_of_takeElements (Nat.le_refl _) run
    rw [rest] at whole length tiling
    exact ⟨tiles, first :: octets, whole, ⟨first, octets, rfl, length⟩, tiling⟩
  · rintro ⟨tiles, field, rfl, size, tiling⟩
    unfold parse Reader.parse Reader.ofBytes
    rw [takeApdu_eq, Step.run_bind_of_ok (takeFront_run size 0)]
    exact takeElements_of_tiling tiling (Nat.le_refl _) _

/-- **The APDUs that are taken apart** are the ones that are tiled by elements, and each is tiled in one way. The
values are as long as their elements declare if the elements that are read and the wrapper are, which is not
looked at. -/
theorem parse_tiled (bytes : Bytes) (max : UInt32) (b : Incoming) :
    (parse bytes max = .ok b ↔ ∃! tiles, Tiled max bytes tiles b) ∧
      ∀ tiles, Tiled max bytes tiles b →
        ((∀ t ∈ tiles, t.Exact) ↔ ∀ t ∈ tiles, t.tag ∈ readTags → t.Exact) := by
  refine ⟨⟨fun h => ?_, fun ⟨tiles, tiled, _⟩ => parse_iff_tiled.2 ⟨tiles, tiled⟩⟩, ?_⟩
  · obtain ⟨tiles, tiled⟩ := parse_iff_tiled.1 h
    exact ⟨tiles, tiled, fun other tiled' => tiled'.unique tiled⟩
  · rintro tiles ⟨field, -, -, tiling⟩
    refine ⟨fun exact t ht _ => exact t ht, fun exact t ht => ?_⟩
    by_cases known : t.tag ∈ readTags
    · exact exact t ht known
    · exact tiling.exact_of_unknown ht known

/-! ### An element that declares too much -/

/-- An element that numbers the invocation and declares some length. -/
def idTile (declared : UInt8) : Tile := ⟨callingIdTag, [declared], declared.toNat, [Ber.integerTag, 0x01, 0x05]⟩

/-- An APDU of this element alone. -/
def idOnly (declared : UInt8) : Bytes := [apduTag, 0x05, callingIdTag, declared, Ber.integerTag, 0x01, 0x05]

theorem tiled_idOnly (declared : UInt8) (small : declared < 0x80) (max : UInt32) :
    Tiled max (idOnly declared) [idTile declared] { callingId := some 5 } := by
  have length (n : UInt8) (h : n < 0x80) : Ber.IsLength [n] n.toNat := ⟨n, [], rfl, .short h⟩
  have number : Ber.IsInteger [Ber.integerTag, 0x01, 0x05] 5 :=
    ⟨[0x01], [0x05], rfl, length 0x01 (by decide), by simp, by decide, by decide⟩
  have plain : (idTile declared).tag ≠ bodyTag := show callingIdTag ≠ bodyTag by decide
  exact ⟨[0x05], rfl, length 0x05 (by decide), .value plain (length declared small) (.callingId number) (.nil _)⟩

theorem parse_tiled_id : parse (idOnly 0x03) 64 = .ok { callingId := some 5 } ∧
    Tiled 64 (idOnly 0x03) [idTile 0x03] { callingId := some 5 } ∧ ∀ t ∈ [idTile 0x03], t.Exact := by
  obtain ⟨accepted, exact⟩ := parse_tiled (idOnly 0x03) 64 { callingId := some 5 }
  have tiled := tiled_idOnly 0x03 (by decide) 64
  refine ⟨accepted.2 ⟨_, tiled, fun other tiled' => tiled'.unique tiled⟩, tiled, (exact _ tiled).2 fun t ht _ => ?_⟩
  obtain rfl := List.mem_singleton.1 ht
  exact ⟨by decide, fun body => absurd body (by decide)⟩

/-- An element of three bytes that declares 99 is taken all the same. -/
theorem parse_misdeclared : parse (idOnly 0x63) 64 = .ok { callingId := some 5 } ∧
    ¬ ∃ tiles, Tiled 64 (idOnly 0x63) tiles { callingId := some 5 } ∧ ∀ t ∈ tiles, t.Exact := by
  have tiled := tiled_idOnly 0x63 (by decide) 64
  refine ⟨parse_iff_tiled.2 ⟨_, tiled⟩, ?_⟩
  rintro ⟨tiles, tiled', exact⟩
  obtain rfl := tiled'.unique tiled
  have declared : 0x63 = 3 := (exact _ (List.mem_singleton_self _)).value
  cases declared

end Incoming

end Acse

end Metering
