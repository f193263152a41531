import Metering.Proofs.RoundTrip

set_option autoImplicit false

/-! # What a tag is bound to

The tag of a secured body is computed from one run of bytes: the cleartext that is derived from the
decoded elements and, if the body is not encrypted, the body. That run can be taken apart again in one
way only (`Acse.Incoming.macInput_inj`). Elements that may be missing are told apart by their tags, which
ascend; the header of the body is as it was received, but says where it ends and how long the body is;
from the end of the run, the lengths of all that is left but the calling title are then known. -/

namespace Metering

open Reader (Takes Local)

/-! ## Elements that may be missing -/

namespace Acse

/-- Nothing, or a tag and bytes that a step takes. -/
def Element {α : Type} (x : Step Reader α) (tag : UInt8) (bytes : Bytes) (value : Option α) : Prop :=
  (bytes = [] ∧ value = none) ∨ ∃ v rest, value = some v ∧ bytes = tag :: rest ∧ Takes x rest v

/-- The bytes are empty or start with a larger tag. -/
def Above (tag : UInt8) (bytes : Bytes) : Prop := ∀ b ∈ bytes.head?, tag < b

/-- The bytes start with an element that may be missing, and no other one with its tag follows. -/
def Leading {α : Type} (x : Step Reader α) (tag : UInt8) (bytes : Bytes) (value : Option α) (rest : Bytes) :
    Prop :=
  ∃ e, Element x tag e value ∧ bytes = e ++ rest ∧ Above tag rest

namespace Leading

variable {α : Type} {x : Step Reader α} {tag low : UInt8} {bytes r r' : Bytes} {v v' : Option α}

theorem above (h : Leading x tag bytes v r) (le : low < tag) : Above low bytes := by
  obtain ⟨e, ⟨rfl, -⟩ | ⟨w, rest, -, rfl, -⟩, rfl, hr⟩ := h
  · intro b hb
    exact UInt8.lt_trans le (hr b hb)
  · intro b hb
    simp only [List.cons_append, List.head?_cons, Option.mem_some_iff] at hb
    exact hb ▸ le

/-- An element is told from what follows it. -/
theorem unique (h : Leading x tag bytes v r) (h' : Leading x tag bytes v' r') : v = v' ∧ r = r' := by
  have absent {r rest : Bytes} (hr : Above tag r) : r ≠ tag :: rest := by
    rintro rfl
    exact UInt8.lt_irrefl tag (hr tag rfl)
  obtain ⟨e, he, rfl, hr⟩ := h
  obtain ⟨e', he', same, hr'⟩ := h'
  rcases he with ⟨rfl, rfl⟩ | ⟨w, rest, rfl, rfl, takes⟩
  · rcases he' with ⟨rfl, rfl⟩ | ⟨w', rest', rfl, rfl, -⟩
    · exact ⟨rfl, same⟩
    · exact absurd same (absent hr)
  · rcases he' with ⟨rfl, rfl⟩ | ⟨w', rest', rfl, rfl, takes'⟩
    · exact absurd same.symm (absent hr')
    · obtain ⟨-, rfl, rfl⟩ := takes.unique takes' (List.cons.inj same).2
      exact ⟨rfl, rfl⟩

end Leading

theorem element_uid {tag : UInt8} {text : String} {bytes : Bytes} (canonical : Uid.Canonical text)
    (h : uidElement tag text = .ok bytes) :
    ∃ value, value.getD "" = text ∧ Element (Reader.byte >>= fun _ => Reader.uid) tag bytes value := by
  obtain ⟨rfl, rfl⟩ | ⟨encoded, he, rfl⟩ := uidElement_ok h
  · exact ⟨none, rfl, .inl ⟨rfl, rfl⟩⟩
  · exact ⟨some text, rfl, .inr ⟨text, _, rfl, rfl,
      (Reader.takes_byte _).bind (Reader.takes_uid canonical he)⟩⟩

theorem element_number (tag : UInt8) (value : Option UInt32) :
    Element (Reader.byte >>= fun _ => Reader.integer) tag (numberElement tag value) value := by
  cases value with
  | none => exact .inl ⟨rfl, rfl⟩
  | some n => exact .inr ⟨n, _, rfl, rfl, (Reader.takes_byte _).bind (Reader.takes_integer n)⟩

theorem element_authentication (sent : Bool) (auth : Authentication) :
    ∃ value, value.isSome = sent ∧
      Element (Reader.take 16) authenticationTag (if sent then auth.element else []) value := by
  cases sent with
  | false => exact ⟨none, rfl, .inl ⟨rfl, rfl⟩⟩
  | true => exact ⟨_, rfl, .inr ⟨_, _, rfl, rfl, Reader.takes_take _⟩⟩

/-! ## Titles made absolute -/

theorem isEmpty_absoluteTitle (context title : String) :
    (absoluteTitle context title).isEmpty = title.isEmpty := by
  have behind (front : String) (h : title.isEmpty = false) : (front ++ title).isEmpty = title.isEmpty := by
    rw [h, Bool.eq_false_iff]
    intro none
    have none' := String.isEmpty_iff.1 none
    rw [Bool.eq_false_iff] at h
    exact h (String.isEmpty_iff.2 (String.append_eq_empty_iff.1 none').2)
  unfold absoluteTitle
  cases hr : Uid.isRelative title with
  | false => rfl
  | true =>
    have some : title.isEmpty = false := by
      obtain ⟨rest, hrest⟩ := Uid.isRelative_iff.1 hr
      rw [Bool.eq_false_iff]
      intro none
      simp [String.isEmpty_iff.1 none] at hrest
    cases context.isEmpty
    · exact behind _ some
    · exact behind _ some

theorem absoluteElement_eq (tag : UInt8) (context title : String) :
    absoluteElement tag context title = uidElement tag (absoluteTitle context title) := by
  rw [absoluteElement, uidElement, isEmpty_absoluteTitle]

theorem canonical_append {front title : String} (hfront : Uid.Canonical front) (htitle : Uid.Canonical title)
    (relative : Uid.isRelative title = true) : Uid.Canonical (front ++ title) := by
  obtain ⟨first, arcs, hf⟩ := hfront
  obtain ⟨first', arcs', ht⟩ := htitle
  obtain ⟨rest, hrest⟩ := Uid.isRelative_iff.1 relative
  cases first' with
  | none => exact ⟨first, arcs ++ arcs', by simp [hf, ht]⟩
  | some n =>
    obtain ⟨c, digits, hc⟩ := Uid.digits_eq_cons n
    have plain : c ≠ '.' := Uid.ne_of_mem_digits rfl (hc ▸ List.mem_cons_self)
    rw [hrest] at ht
    simp only [Option.toList_some, List.flatMap_singleton, hc, List.cons_append, List.cons.injEq] at ht
    exact absurd ht.1.symm plain

theorem canonical_absoluteTitle {context title : String} (hcontext : Uid.Canonical context)
    (htitle : Uid.Canonical title) : Uid.Canonical (absoluteTitle context title) := by
  unfold absoluteTitle
  cases hr : Uid.isRelative title with
  | false => exact htitle
  | true =>
    cases context.isEmpty with
    | false => exact canonical_append hcontext htitle hr
    | true =>
      have standard : Uid.Canonical standardNetwork := ⟨some 2, [16, 124, 113620, 1, 22, 0], by decide +kernel⟩
      exact canonical_append standard htitle hr

/-! ## Received APDUs -/

theorem byte_ok {r r' : Reader} {b : UInt8} (h : Reader.byte.run r = (.ok b, r')) : r.rest = b :: r'.rest := by
  obtain ⟨taken, t, ht, h⟩ := Step.run_bind_ok.1 h
  obtain ⟨hb, rfl⟩ := Prod.mk.inj h
  obtain rfl := Except.ok.inj hb
  rw [Reader.run_take] at ht
  split at ht
  · exact absurd (Prod.mk.inj ht).1 (by simp)
  next some =>
    obtain ⟨htaken, rfl⟩ := Prod.mk.inj ht
    obtain rfl := Except.ok.inj htaken
    cases hr : r.rest with
    | nil => simp [hr] at some
    | cons b rest => simp

/-- Takes the end of a header: how many bytes follow, and the control byte, which is one of them. -/
def takeCounted : Step Reader (Epsem.Control × Nat) := do
  let octets ← Reader.length
  let control ← Step.ofExcept (Epsem.Control.ofByte (← Reader.byte))
  return (control, octets)

/-- Takes what stands between the tag of a body and the bytes it counts. -/
def takeHeader : Step Reader (Epsem.Control × Nat) := do
  let _ ← Reader.length
  let _ ← Reader.byte
  let _ ← Reader.length
  let next ← Reader.byte
  if next = referenceTag then
    let skipped ← Reader.length
    Reader.skip skipped
    let _ ← Reader.byte
    takeCounted
  else takeCounted

theorem local_takeHeader : Local takeHeader := by
  have counted : Local takeCounted := Reader.local_length.bind fun _ => Reader.local_byte.bind fun _ =>
    (Local.ofExcept _).bind fun _ => .pure _
  refine Reader.local_length.bind fun _ => Reader.local_byte.bind fun _ => Reader.local_length.bind fun _ =>
    Reader.local_byte.bind fun next => .ite ?_ counted
  exact Reader.local_length.bind fun skipped => (Reader.local_skip skipped).bind fun _ =>
    Reader.local_byte.bind fun _ => counted

namespace Incoming

/-- Takes the rest of a body element after the tag of the bytes it holds was read. -/
def takeOctets (start : Bytes) (a : Incoming) (next : UInt8) : Step Reader Incoming := do
  if next ≠ octetsTag then throw (.protocol (.badElement bodyTag))
  let octets ← Reader.length
  if octets = 0 ∨ octets ≠ (← Reader.remaining) then throw (.protocol (.badElement bodyTag))
  let control ← Step.ofExcept (Epsem.Control.ofByte (← Reader.byte))
  let left := (← get).rest
  if control.mode.isSecure ∧ left.length < tagLength then
    throw (.authentication .epsemShorterThanTag)
  return { a with
    bodyHeader := start.take (start.length - left.length)
    control := some control
    body := left }

/-- The APDU with a body behind the control byte, of which `start` is the whole element. -/
def withBody (a : Incoming) (start : Bytes) (control : Epsem.Control) (body : Bytes) : Incoming :=
  { a with bodyHeader := start.take (start.length - body.length), control := some control, body }

theorem takeOctets_ok {start : Bytes} {a b : Incoming} {next : UInt8} {r r' : Reader}
    (h : (takeOctets start a next).run r = (.ok b, r')) :
    ∃ control, b = a.withBody start control r'.rest ∧
      takeCounted.run r = (.ok (control, r'.rest.length + 1), r') ∧
      (control.mode.isSecure = true → tagLength ≤ r'.rest.length) := by
  unfold takeOctets at h
  split at h
  · exact absurd h Step.run_throw_ne_ok
  obtain ⟨octets, r1, h1, h⟩ := Step.run_bind_ok.1 h
  obtain ⟨left, r2, h2, h⟩ := Step.run_bind_ok.1 h
  obtain ⟨hleft, rfl⟩ := Prod.mk.inj h2
  obtain rfl := Except.ok.inj hleft
  split at h
  · exact absurd h Step.run_throw_ne_ok
  next counted =>
    obtain ⟨byte, r3, h3, h⟩ := Step.run_bind_ok.1 h
    obtain ⟨control, r4, h4, h⟩ := Step.run_bind_ok.1 h
    obtain ⟨hcontrol, rfl⟩ := Prod.mk.inj ((Step.run_ofExcept _ _).symm.trans h4)
    rw [Step.run_get_bind] at h
    dsimp only at h
    split at h
    · exact absurd h Step.run_throw_ne_ok
    next long =>
      obtain ⟨hb, rfl⟩ := Prod.mk.inj h
      have size : octets = r3.rest.length + 1 := by
        have := congrArg List.length (byte_ok h3)
        simp only [List.length_cons] at this
        omega
      refine ⟨control, (Except.ok.inj hb).symm, ?_, ?_⟩
      · rw [takeCounted, Step.run_bind_of_ok h1, Step.run_bind_of_ok h3, Step.run_bind_of_ok h4, ← size]
        rfl
      · intro secure
        exact Nat.le_of_not_lt fun short => long ⟨secure, short⟩

theorem takeBody_ok {maxSize : UInt32} {length : Nat} {start : Bytes} {a b : Incoming} {n : Nat}
    {r r' r'' : Reader} (hn : Reader.length.run r = (.ok n, r'))
    (h : (takeBody maxSize length start a).run r' = (.ok b, r'')) :
    ∃ control, b = a.withBody start control r''.rest ∧
      takeHeader.run r = (.ok (control, r''.rest.length + 1), r'') ∧
      (control.mode.isSecure = true → tagLength ≤ r''.rest.length) := by
  unfold takeBody at h
  split at h
  · exact absurd h Step.run_throw_ne_ok
  obtain ⟨external, r1, h1, h⟩ := Step.run_bind_ok.1 h
  split at h
  · exact absurd h Step.run_throw_ne_ok
  obtain ⟨m, r2, h2, h⟩ := Step.run_bind_ok.1 h
  obtain ⟨next, r3, h3, h⟩ := Step.run_bind_ok.1 h
  rw [takeHeader, Step.run_bind_of_ok hn, Step.run_bind_of_ok h1, Step.run_bind_of_ok h2,
    Step.run_bind_of_ok h3]
  split at h
  next reference =>
    obtain ⟨skipped, r4, h4, h⟩ := Step.run_bind_ok.1 h
    obtain ⟨_, r5, h5, h⟩ := Step.run_bind_ok.1 h
    obtain ⟨next', r6, h6, h⟩ := Step.run_bind_ok.1 h
    rw [if_pos reference, Step.run_bind_of_ok h4, Step.run_bind_of_ok h5, Step.run_bind_of_ok h6]
    exact takeOctets_ok h
  next other =>
    rw [if_neg other]
    exact takeOctets_ok h

/-- The identifiers are in canonical form. -/
structure Canonical (a : Incoming) : Prop where
  context : Uid.Canonical a.context
  calledTitle : Uid.Canonical a.calledTitle
  callingTitle : Uid.Canonical a.callingTitle

/-- A body stands behind a header that counts it and the control byte. -/
def Headed (a : Incoming) : Prop :=
  ∃ control rest, a.control = some control ∧ a.bodyHeader = bodyTag :: rest ∧
    Takes takeHeader rest (control, a.body.length + 1) ∧
    (control.mode.isSecure = true → tagLength ≤ a.body.length)

theorem uid_ok {r r' : Reader} {text : String} (h : Reader.uid.run r = (.ok text, r')) :
    Uid.Canonical text := by
  unfold Reader.uid at h
  obtain ⟨kind, r1, -, h⟩ := Step.run_bind_ok.1 h
  split at h
  · exact absurd h Step.run_throw_ne_ok
  obtain ⟨n, r2, -, h⟩ := Step.run_bind_ok.1 h
  obtain ⟨bytes, r3, -, h⟩ := Step.run_bind_ok.1 h
  exact Uid.canonical_of_decode (Prod.mk.inj ((Step.run_ofExcept _ _).symm.trans h)).1

/-- Takes the value of an element that is not the body; `n` is the length it declares. -/
def takeValue (tag : UInt8) (n : Nat) (a : Incoming) : Step Reader Incoming := do
  if tag = contextTag then return { a with context := ← Reader.uid }
  else if tag = calledTitleTag then return { a with calledTitle := ← Reader.uid }
  else if tag = calledIdTag then return { a with calledId := some (← Reader.integer) }
  else if tag = callingTitleTag then return { a with callingTitle := ← Reader.uid }
  else if tag = callingQualifierTag then return { a with callingQualifier := some (← Reader.integer) }
  else if tag = callingIdTag then return { a with callingId := some (← Reader.integer) }
  else if tag = authenticationTag then
    let value ← Reader.take authenticationLength
    return { a with authentication := some (← Step.ofExcept (Authentication.ofValue value)) }
  else
    Reader.skip n
    return a

/-- One element, and then the others. -/
theorem takeElements_succ (maxSize : UInt32) (length fuel : Nat) (a : Incoming) :
    takeElements maxSize length (fuel + 1) a = (do
      let start := (← get).rest
      if start.isEmpty then return a
      let tag ← Reader.byte
      let n ← Reader.length
      if tag = bodyTag then takeBody maxSize length start a
      else takeElements maxSize length fuel (← takeValue tag n a)) := by
  rw [takeElements]
  refine congrArg (get >>= ·) (funext fun r => ?_)
  dsimp only
  split
  · rfl
  refine congrArg (Reader.byte >>= ·) (funext fun tag => congrArg (Reader.length >>= ·) (funext fun n => ?_))
  by_cases body : tag = bodyTag
  · subst body
    rfl
  · rw [if_neg body, takeValue]
    split_ifs <;> simp only [bind_assoc, pure_bind]

theorem takeValue_ok {tag : UInt8} {n : Nat} {a b : Incoming} {r r' : Reader}
    (h : (takeValue tag n a).run r = (.ok b, r')) (ha : a.Canonical) : b.Canonical ∧ b.control = a.control := by
  have put {α : Type} {x : Step Reader α} {f : α → Incoming} (h : (x >>= fun v => pure (f v)).run r = (.ok b, r')) :
      ∃ v t, x.run r = (.ok v, t) ∧ f v = b := by
    obtain ⟨v, t, ht, h⟩ := Step.run_bind_ok.1 h
    exact ⟨v, t, ht, Except.ok.inj (Prod.mk.inj h).1⟩
  unfold takeValue at h
  split at h
  · obtain ⟨context, _, read, rfl⟩ := put h
    exact ⟨⟨uid_ok read, ha.calledTitle, ha.callingTitle⟩, rfl⟩
  split at h
  · obtain ⟨title, _, read, rfl⟩ := put h
    exact ⟨⟨ha.context, uid_ok read, ha.callingTitle⟩, rfl⟩
  split at h
  · obtain ⟨_, _, -, rfl⟩ := put h
    exact ⟨⟨ha.context, ha.calledTitle, ha.callingTitle⟩, rfl⟩
  split at h
  · obtain ⟨title, _, read, rfl⟩ := put h
    exact ⟨⟨ha.context, ha.calledTitle, uid_ok read⟩, rfl⟩
  split at h
  · obtain ⟨_, _, -, rfl⟩ := put h
    exact ⟨⟨ha.context, ha.calledTitle, ha.callingTitle⟩, rfl⟩
  split at h
  · obtain ⟨_, _, -, rfl⟩ := put h
    exact ⟨⟨ha.context, ha.calledTitle, ha.callingTitle⟩, rfl⟩
  split at h
  · rw [← bind_assoc] at h
    obtain ⟨_, _, -, rfl⟩ := put h
    exact ⟨⟨ha.context, ha.calledTitle, ha.callingTitle⟩, rfl⟩
  · obtain ⟨_, _, -, rfl⟩ := put h
    exact ⟨ha, rfl⟩

theorem takeElements_ok {maxSize : UInt32} {length fuel : Nat} {a b : Incoming} {r r' : Reader}
    (h : (takeElements maxSize length fuel a).run r = (.ok b, r')) (ha : a.Canonical) (none : a.control = none) :
    b.Canonical ∧ (b.control = .none ∨ b.Headed) := by
  induction fuel generalizing a r with
  | zero =>
    obtain ⟨hb, -⟩ := Prod.mk.inj h
    obtain rfl := Except.ok.inj hb
    exact ⟨ha, .inl none⟩
  | succ fuel ih =>
    rw [takeElements_succ, Step.run_get_bind] at h
    dsimp only at h
    split at h
    · obtain ⟨hb, -⟩ := Prod.mk.inj h
      obtain rfl := Except.ok.inj hb
      exact ⟨ha, .inl none⟩
    obtain ⟨tag, r1, h1, h⟩ := Step.run_bind_ok.1 h
    obtain ⟨n, r2, h2, h⟩ := Step.run_bind_ok.1 h
    split at h
    next body =>
      obtain ⟨control, rfl, header, long⟩ := takeBody_ok h2 h
      obtain ⟨rest, hrest, takes⟩ := local_takeHeader header
      have whole : r.rest = (bodyTag :: rest) ++ r'.rest := by rw [byte_ok h1, hrest, body, List.cons_append]
      refine ⟨⟨ha.context, ha.calledTitle, ha.callingTitle⟩, .inr ⟨control, rest, rfl, ?_, takes, long⟩⟩
      show r.rest.take (r.rest.length - r'.rest.length) = bodyTag :: rest
      rw [whole, List.length_append, Nat.add_sub_cancel, List.take_left]
    · obtain ⟨_, _, taken, h⟩ := Step.run_bind_ok.1 h
      obtain ⟨canonical, same⟩ := takeValue_ok taken ha
      exact ih h canonical (same.trans none)

/-- Takes the start tag and the length of an APDU, behind which so many bytes must be left. -/
def takeFront : Step Reader Nat := do
  if (← Reader.byte) ≠ apduTag then throw (.frameInvalid .noApduStart)
  let length ← Reader.length
  let left ← Reader.remaining
  if length ≠ left then throw (.frameInvalid .apduLength)
  return left

theorem takeApdu_eq (maxSize : UInt32) :
    takeApdu maxSize = (takeFront >>= fun left => takeElements maxSize left left {}) := by
  rw [takeApdu, takeFront, bind_assoc]
  refine congrArg (Reader.byte >>= ·) (funext fun tag => ?_)
  dsimp only
  split
  · rfl
  rw [bind_assoc]
  refine congrArg (Reader.length >>= ·) (funext fun length => ?_)
  rw [bind_assoc]
  refine congrArg (Reader.remaining >>= ·) (funext fun left => ?_)
  split
  · rfl
  next same =>
    obtain rfl : length = left := Decidable.not_not.1 same
    rfl

theorem parse_ok {bytes : Bytes} {max : UInt32} {a : Incoming} (h : parse bytes max = .ok a) :
    a.Canonical ∧ (a.control = none ∨ a.Headed) := by
  have run : (takeApdu max).run (Reader.ofBytes bytes) = (.ok a, _) := Step.run_eq_of_fst h
  rw [takeApdu_eq] at run
  obtain ⟨left, r, -, run⟩ := Step.run_bind_ok.1 run
  exact takeElements_ok run ⟨Uid.canonical_empty, Uid.canonical_empty, Uid.canonical_empty⟩ rfl

/-! ## The bytes under the tag -/

/-- The part of the body that the tag is computed from as it is: all of it before the tag, unless it is
encrypted. -/
def covered (a : Incoming) : Bytes :=
  if a.mode = .authenticated then a.body.take (a.body.length - tagLength) else []

/-- What the tag of a secured body is computed from, but for an encrypted body. -/
def macInput (a : Incoming) (auth : Authentication) : Except Fault Bytes := do
  let clear ← a.clear auth
  return clear ++ a.covered

/-- Opening goes by these bytes, the encrypted body and the tag. -/
theorem openSecured_eq (a : Incoming) (secure : a.mode.isSecure = true) (eax : Eax) (auth : Authentication) :
    a.openSecured a.mode eax auth = (do
      let input ← a.macInput auth
      let body := a.body.take (a.body.length - tagLength)
      let (plain, tag) :=
        if a.mode = .encrypted then eax.decryptBody input body else (body, eax.authenticate input)
      if Eax.tagsAgree tag (a.body.drop (a.body.length - tagLength)) then return plain
      else throw (.authentication .tagMismatch)) := by
  unfold openSecured macInput covered
  cases a.clear auth with
  | error e => simp only [bind, Except.bind]
  | ok clear =>
    cases hm : a.mode with
    | clear => simp [hm, SecurityMode.isSecure] at secure
    | authenticated => simp only [reduceCtorEq, if_false, if_true, bind, Except.bind, pure, Except.pure]
    | encrypted =>
      simp only [reduceCtorEq, if_false, if_true, List.append_nil, bind, Except.bind, pure, Except.pure]

/-- The bytes under the tag, taken apart. -/
structure Parts (a : Incoming) (auth : Authentication) (input : Bytes) where
  context : Option String
  called : Option String
  sent : Option Bytes
  calling : Option String
  /-- The element of the calling title. -/
  callingElement : Bytes
  behindContext : Bytes
  behindCalled : Bytes
  behindCalledId : Bytes
  behindQualifier : Bytes
  behindCallingId : Bytes
  behindSent : Bytes
  context_eq : context.getD "" = a.context
  called_eq : called.getD "" = absoluteTitle a.context a.calledTitle
  sent_eq : sent.isSome = a.authentication.isSome
  calling_eq : calling.getD "" = absoluteTitle a.context a.callingTitle
  leadingContext : Leading (Reader.byte >>= fun _ => Reader.uid) contextTag input context behindContext
  leadingCalled :
    Leading (Reader.byte >>= fun _ => Reader.uid) calledTitleTag behindContext called behindCalled
  leadingCalledId :
    Leading (Reader.byte >>= fun _ => Reader.integer) calledIdTag behindCalled a.calledId behindCalledId
  leadingQualifier : Leading (Reader.byte >>= fun _ => Reader.integer) callingQualifierTag behindCalledId
    a.callingQualifier behindQualifier
  leadingCallingId :
    Leading (Reader.byte >>= fun _ => Reader.integer) callingIdTag behindQualifier a.callingId behindCallingId
  leadingSent : Leading (Reader.take 16) authenticationTag behindCallingId sent behindSent
  elementCalling : Element (Reader.byte >>= fun _ => Reader.uid) callingTitleTag callingElement calling
  end_eq : behindSent = a.bodyHeader ++ (callingElement ++ (auth.trailer ++ a.covered))

theorem parts_of_macInput {a : Incoming} {auth : Authentication} {input : Bytes} (ha : a.Canonical)
    (headed : a.Headed) (h : a.macInput auth = .ok input) : Nonempty (Parts a auth input) := by
  obtain ⟨clear, hclear, h⟩ := Step.except_bind_ok.1 h
  obtain rfl := Except.ok.inj h
  obtain ⟨e1, h1, hclear⟩ := Step.except_bind_ok.1 hclear
  obtain ⟨e2, h2, hclear⟩ := Step.except_bind_ok.1 hclear
  obtain ⟨e8, h8, hclear⟩ := Step.except_bind_ok.1 hclear
  obtain rfl := Except.ok.inj hclear
  rw [absoluteElement_eq] at h2 h8
  obtain ⟨context, hcontext, element1⟩ := element_uid ha.context h1
  obtain ⟨called, hcalled, element2⟩ := element_uid (canonical_absoluteTitle ha.context ha.calledTitle) h2
  obtain ⟨calling, hcalling, element8⟩ := element_uid (canonical_absoluteTitle ha.context ha.callingTitle) h8
  obtain ⟨sent, hsent, element6⟩ := element_authentication a.authentication.isSome auth
  obtain ⟨-, rest, -, header, -, -⟩ := headed
  -- from the back, since each element has to know what follows it
  have above : Above authenticationTag (a.bodyHeader ++ (e8 ++ (auth.trailer ++ a.covered))) := by
    rw [header]
    intro b hb
    simp only [List.cons_append, List.head?_cons, Option.mem_some_iff] at hb
    exact hb ▸ (by decide)
  have leading6 : Leading _ authenticationTag _ _ _ := ⟨_, element6, rfl, above⟩
  have leading5 : Leading _ callingIdTag _ _ _ :=
    ⟨_, element_number callingIdTag a.callingId, rfl, leading6.above (by decide)⟩
  have leading4 : Leading _ callingQualifierTag _ _ _ :=
    ⟨_, element_number callingQualifierTag a.callingQualifier, rfl, leading5.above (by decide)⟩
  have leading3 : Leading _ calledIdTag _ _ _ :=
    ⟨_, element_number calledIdTag a.calledId, rfl, leading4.above (by decide)⟩
  have leading2 : Leading _ calledTitleTag _ _ _ := ⟨_, element2, rfl, leading3.above (by decide)⟩
  have leading1 : Leading _ contextTag _ _ _ := ⟨_, element1, rfl, leading2.above (by decide)⟩
  refine ⟨⟨context, called, sent, calling, e8, _, _, _, _, _, _, hcontext, hcalled, hsent, hcalling, ?_, leading2,
    leading3, leading4, leading5, leading6, element8, rfl⟩⟩
  simpa only [address, List.append_assoc] using leading1

/-- **A tag is bound to all the client acts on.** Two received APDUs with secured bodies whose tags are
computed from the same bytes agree in their addressing, in whether the key and vector were sent, in the
header of the body with the control byte, in the key and vector in force and, unless it is encrypted, in
the body. -/
theorem macInput_inj {bytes bytes' : Bytes} {max max' : UInt32} {a a' : Incoming}
    {auth auth' : Authentication} {input : Bytes} (parsed : parse bytes max = .ok a)
    (parsed' : parse bytes' max' = .ok a') (secure : a.mode.isSecure = true) (secure' : a'.mode.isSecure = true)
    (h : a.macInput auth = .ok input) (h' : a'.macInput auth' = .ok input) :
    a.context = a'.context ∧
      absoluteTitle a.context a.calledTitle = absoluteTitle a'.context a'.calledTitle ∧
      absoluteTitle a.context a.callingTitle = absoluteTitle a'.context a'.callingTitle ∧
      a.calledId = a'.calledId ∧ a.callingId = a'.callingId ∧ a.callingQualifier = a'.callingQualifier ∧
      a.authentication.isSome = a'.authentication.isSome ∧ a.bodyHeader = a'.bodyHeader ∧
      a.control = a'.control ∧ auth = auth' ∧
      (a.mode = .authenticated →
        a.body.take (a.body.length - tagLength) = a'.body.take (a'.body.length - tagLength)) := by
  have headed {b : Incoming} (hb : b.control = none ∨ b.Headed) (secure : b.mode.isSecure = true) : b.Headed := by
    rcases hb with none | headed
    · simp [mode, none, SecurityMode.isSecure] at secure
    · exact headed
  obtain ⟨canonical, hb⟩ := parse_ok parsed
  obtain ⟨canonical', hb'⟩ := parse_ok parsed'
  have head := headed hb secure
  have head' := headed hb' secure'
  obtain ⟨p⟩ := parts_of_macInput canonical head h
  obtain ⟨p'⟩ := parts_of_macInput canonical' head' h'
  -- the front, element by element
  obtain ⟨context, rest⟩ := p.leadingContext.unique p'.leadingContext
  obtain ⟨called, rest⟩ := p.leadingCalled.unique (rest ▸ p'.leadingCalled)
  obtain ⟨calledId, rest⟩ := p.leadingCalledId.unique (rest ▸ p'.leadingCalledId)
  obtain ⟨qualifier, rest⟩ := p.leadingQualifier.unique (rest ▸ p'.leadingQualifier)
  obtain ⟨callingId, rest⟩ := p.leadingCallingId.unique (rest ▸ p'.leadingCallingId)
  obtain ⟨sent, rest⟩ := p.leadingSent.unique (rest ▸ p'.leadingSent)
  rw [p.end_eq, p'.end_eq] at rest
  -- the header, which says how much of the body follows
  obtain ⟨control, header, hcontrol, hheader, takes, tagged⟩ := head
  obtain ⟨control', header', hcontrol', hheader', takes', tagged'⟩ := head'
  rw [hheader, hheader'] at rest
  obtain ⟨rfl, counted, rest⟩ := takes.unique takes' (List.cons.inj rest).2
  obtain ⟨rfl, size⟩ := Prod.mk.inj counted
  have same : a.mode = a'.mode := by simp only [mode, hcontrol, hcontrol']
  have length : a.covered.length = a'.covered.length := by
    unfold covered
    rw [← same, Nat.add_right_cancel size]
    split
    · rw [List.length_take, List.length_take]
      omega
    · rfl
  -- the end, from the back
  have trailers : auth.trailer.length = auth'.trailer.length := by simp [Authentication.trailer]
  have back : (auth.trailer ++ a.covered).length = (auth'.trailer ++ a'.covered).length := by
    rw [List.length_append, List.length_append, trailers, length]
  obtain ⟨elements, rest⟩ := List.append_inj' rest back
  obtain ⟨trailer, bodies⟩ := List.append_inj rest trailers
  have calling : p.calling = p'.calling := by
    have alone {b : Incoming} {auth : Authentication} (q : Parts b auth input) :
        Leading (Reader.byte >>= fun _ => Reader.uid) callingTitleTag q.callingElement q.calling [] :=
      ⟨_, q.elementCalling, (List.append_nil _).symm, by simp [Above]⟩
    exact ((alone p).unique (elements ▸ alone p')).1
  refine ⟨?_, ?_, ?_, calledId, callingId, qualifier, ?_, ?_, ?_, trailer_inj trailer, ?_⟩
  · rw [← p.context_eq, context, p'.context_eq]
  · rw [← p.called_eq, called, p'.called_eq]
  · rw [← p.calling_eq, calling, p'.calling_eq]
  · rw [← p.sent_eq, sent, p'.sent_eq]
  · rw [hheader, hheader']
  · rw [hcontrol, hcontrol']
  · intro authenticated
    simpa only [covered, ← same, authenticated, if_true] using bodies

/-! ### One title in two forms

Two answers whose called titles are written differently and whose tags differ. Their bodies are not
encrypted. -/

/-- An answer to a title as it is encoded, with a tag. -/
def answerTo (title tag : Bytes) : Bytes :=
  let elements := [contextTag, 0x0A, 0x06, 0x08, 0x60, 0x7C, 0x86, 0xF7, 0x54, 0x01, 0x16, 0x00] ++
    [calledTitleTag, UInt8.ofNat title.length] ++ title ++
    [bodyTag, 0x0B, externalTag, 0x09, octetsTag, 0x07, 0x84, 0x01, 0x30] ++ tag
  apduTag :: UInt8.ofNat elements.length :: elements

/-- The title `.2.5`. -/
def relativeForm : Bytes := [0x80, 0x02, 0x02, 0x05]

/-- The same title behind its context. -/
def absoluteForm : Bytes := [0x06, 0x0A, 0x60, 0x7C, 0x86, 0xF7, 0x54, 0x01, 0x16, 0x00, 0x02, 0x05]

/-- What is found in the answer to the relative form. -/
def relativeAnswer : Incoming where
  context := standardNetwork
  calledTitle := ".2.5"
  control := some { mode := .authenticated, response := .always, edClass := false }
  bodyHeader := [0xBE, 0x0B, 0x28, 0x09, 0x81, 0x07, 0x84]
  body := [0x01, 0x30, 1, 2, 3, 4]

/-- What is found in the answer to the absolute form. -/
def absoluteAnswer : Incoming :=
  { relativeAnswer with calledTitle := standardNetwork ++ ".2.5", body := [0x01, 0x30, 0, 0, 0, 0] }

/-- The two forms give one input of the tag, and mean one title. -/
theorem macInput_inj_twoForms :
    ∃ a a' input, parse (answerTo relativeForm [1, 2, 3, 4]) 64 = .ok a ∧
      parse (answerTo absoluteForm [0, 0, 0, 0]) 64 = .ok a' ∧ a.mode.isSecure = true ∧
      a'.mode.isSecure = true ∧ a.macInput ⟨1, 5⟩ = .ok input ∧ a'.macInput ⟨1, 5⟩ = .ok input ∧
      a.calledTitle ≠ a'.calledTitle ∧
      absoluteTitle a.context a.calledTitle = absoluteTitle a'.context a'.calledTitle ∧
      a.body.take (a.body.length - tagLength) = a'.body.take (a'.body.length - tagLength) := by
  have parsed : parse (answerTo relativeForm [1, 2, 3, 4]) 64 = .ok relativeAnswer :=
    Step.except_ok_of_toOption (by decide +kernel)
  have parsed' : parse (answerTo absoluteForm [0, 0, 0, 0]) 64 = .ok absoluteAnswer :=
    Step.except_ok_of_toOption (by decide +kernel)
  obtain ⟨input, h⟩ : ∃ input, relativeAnswer.macInput ⟨1, 5⟩ = .ok input := by
    cases h : relativeAnswer.macInput ⟨1, 5⟩ with
    | ok input => exact ⟨input, rfl⟩
    | error e =>
      have made : (relativeAnswer.macInput ⟨1, 5⟩).toOption.isSome = true := by decide +kernel
      simp [h, Except.toOption] at made
  have same : (absoluteAnswer.macInput ⟨1, 5⟩).toOption = (relativeAnswer.macInput ⟨1, 5⟩).toOption := by decide +kernel
  have h' : absoluteAnswer.macInput ⟨1, 5⟩ = .ok input := Step.except_ok_of_toOption (by rw [same, h]; rfl)
  obtain ⟨-, called, -, -, -, -, -, -, -, -, body⟩ := macInput_inj parsed parsed' rfl rfl h h'
  exact ⟨relativeAnswer, absoluteAnswer, input, parsed, parsed', rfl, rfl, h, h', by decide +kernel, called, body rfl⟩

end Incoming

end Acse

end Metering
