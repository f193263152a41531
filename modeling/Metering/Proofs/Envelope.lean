import Metering.Proofs.Answered
import Metering.Proofs.RoundTrip

set_option autoImplicit false

/-! # Room for what stands around a request

Around the services of an APDU stand titles, ids, a key and vector, the header of the body and a tag, and none
of them has a fixed length. But the length of an APDU grows with the length of its parts
(`Acse.apduLength_mono`), so under one configuration no APDU is longer than one with the largest id and with key
and vector announced (`Config.longestApdu`). An APDU is refused as too large for its length only
(`Acse.Outgoing.unrefused_build`). So where the longest one is allowed, no service is refused that keeps to the
limit for services (`Associated.unrefused_pack`), and no write of a table is (`Client.writeTable_unrefused`).
Where it is not, a write that was cut to fit is refused all the same (`Client.split_write_refused`). -/

namespace Metering

open Step (Moves Same)

/-! ## Refusals -/

/-- The result is no refusal, neither of the meter nor of our own. -/
def Unrefused {α : Type} (r : Except Fault α) : Prop := ∀ e, r = .error e → Client.isNok e = false

section Unrefused

variable {σ α β : Type}

theorem unrefused_ok (a : α) : Unrefused (.ok a : Except Fault α) := nofun

theorem unrefused_error {e : Fault} (h : Client.isNok e = false) : Unrefused (.error e : Except Fault α) := by
  rintro _ ⟨⟩
  exact h

theorem Unrefused.bind {x : Except Fault α} {f : α → Except Fault β} (hx : Unrefused x)
    (hf : ∀ a, x = .ok a → Unrefused (f a)) : Unrefused (x >>= f) := by
  cases x with
  | ok a => exact hf a rfl
  | error e => exact unrefused_error (hx e rfl)

theorem Unrefused.run_bind {x : Step σ α} {f : α → Step σ β} {s : σ} (hx : Unrefused (x.run s).1)
    (hf : ∀ a t, x.run s = (.ok a, t) → Unrefused ((f a).run t).1) : Unrefused ((x >>= f).run s).1 := by
  rw [Step.run_bind]
  rcases h : x.run s with ⟨r, t⟩
  rw [h] at hx
  cases r with
  | ok a => exact hf a t h
  | error e => exact unrefused_error (hx e rfl)

end Unrefused

/-! ## How long elements are -/

theorem Ber.length_lengthBytes_mono {m n : Nat} (h : m ≤ n) : (lengthBytes m).length ≤ (lengthBytes n).length := by
  unfold lengthBytes
  repeat' split
  all_goals
    simp only [List.length_cons, List.length_nil, Bytes.length_bigEndian]
    omega

/-- An element with a number is longest for the largest number. -/
theorem Ber.length_taggedUnsigned_le (tag : UInt8) (n : UInt32) :
    (taggedUnsigned tag n).length ≤ (taggedUnsigned tag 0xFFFFFFFF).length := by
  have longest : (taggedUnsigned tag 0xFFFFFFFF).length = 8 := by rfl
  obtain ⟨width, -, short, -, digits⟩ := unsignedBytes_eq n
  rw [longest, taggedUnsigned, digits]
  simp
  omega

namespace Acse

theorem elementLength_mono {m n : Nat} (h : m ≤ n) : elementLength m ≤ elementLength n :=
  Nat.succ_le_succ (Nat.add_le_add h (Ber.length_lengthBytes_mono h))

/-- Around a body stand three elements, one within the other, and a control byte. -/
theorem length_bodyHeader (control : Epsem.Control) (n tail : Nat) :
    (bodyHeader control n tail).length + n + tail = elementLength (elementLength (elementLength (n + 1 + tail))) := by
  simp only [bodyHeader, element, elementLength, List.length_cons, List.length_append, List.length_nil]
  omega

/-- The number of bytes of an APDU: `front` bytes of addressing and of key and vector, and `body` bytes of device
class and services with `tail` bytes behind. -/
def apduLength (front body tail : Nat) : Nat :=
  elementLength (front + elementLength (elementLength (elementLength (body + 1 + tail))))

/-- An APDU with longer parts is longer. -/
theorem apduLength_mono {front front' body body' : Nat} (tail : Nat) (hfront : front ≤ front') (hbody : body ≤ body') :
    apduLength front body tail ≤ apduLength front' body' tail := by
  have octets : body + 1 + tail ≤ body' + 1 + tail := by omega
  have inner := elementLength_mono (elementLength_mono (elementLength_mono octets))
  exact elementLength_mono (Nat.add_le_add hfront inner)

theorem Authentication.length_element (a : Authentication) : a.element.length = authenticationLength + 2 := by
  simp [element, authenticationLength, authenticationFront, authenticationMiddle]

theorem unrefused_uidElement (tag : UInt8) (text : String) : Unrefused (uidElement tag text) := by
  unfold uidElement Uid.tagged Uid.encode
  split
  · exact unrefused_ok _
  · split
    · exact unrefused_ok _
    · exact unrefused_error rfl

theorem unrefused_absoluteElement (tag : UInt8) (context title : String) :
    Unrefused (absoluteElement tag context title) := by
  rw [absoluteElement_eq]
  exact unrefused_uidElement _ _

theorem unrefused_addressing (a : Addressing) : Unrefused (addressing a) :=
  .bind (unrefused_uidElement _ _) fun _ _ => .bind (unrefused_uidElement _ _) fun _ _ =>
    .bind (unrefused_uidElement _ _) fun _ _ => unrefused_ok _

theorem unrefused_cleartext (a : Addressing) (sent : Bool) (bodyHeader : Bytes) (auth : Authentication) :
    Unrefused (cleartext a sent bodyHeader auth) :=
  .bind (unrefused_uidElement _ _) fun _ _ => .bind (unrefused_absoluteElement _ _ _) fun _ _ =>
    .bind (unrefused_absoluteElement _ _ _) fun _ _ => unrefused_ok _

namespace Outgoing

variable {o : Outgoing} {p : Parameters} {secured : Option Seal} {bytes : Bytes}

theorem unrefused_framed (o : Outgoing) (p : Parameters) (tail : Nat) : Unrefused (o.framed p tail) := by
  have encoded (edClass : Option Bytes) : Unrefused (Epsem.encode edClass o.services) := by
    cases edClass with
    | none => exact unrefused_ok _
    | some c =>
      have padded : Unrefused (Epsem.paddedEdClass c) := by
        unfold Epsem.paddedEdClass
        split
        · exact unrefused_error rfl
        · exact unrefused_ok _
      exact padded.bind fun _ _ => unrefused_ok _
  exact (encoded _).bind fun _ _ => unrefused_ok _

theorem unrefused_filled (o : Outgoing) (p : Parameters) (secured : Option Seal) : Unrefused (o.filled p secured) := by
  have chosen : Unrefused (sealFor p secured) := by
    unfold sealFor
    split
    · exact unrefused_ok _
    · exact unrefused_ok _
    · exact unrefused_error rfl
  refine chosen.bind fun chosen _ => ?_
  cases chosen with
  | none => exact unrefused_framed o p 0
  | some s =>
    exact (unrefused_framed o p tagLength).bind fun _ _ => (unrefused_cleartext _ _ _ _).bind fun _ _ => unrefused_ok _

/-- **An APDU is refused for its length only.** -/
theorem unrefused_build
    (fits : ∀ addresses plain, addressing (o.address p) = .ok addresses →
      Epsem.encode (if p.edClass.isEmpty then none else some p.edClass) o.services = .ok plain →
      apduLength (addresses.length + (authenticationElement (sentWith p secured)).length) plain.length
        (tailLength p) ≤ p.maxOutgoing.toNat) : Unrefused (o.build p secured) := by
  rw [build_eq]
  refine (unrefused_filled o p secured).bind fun b hb => (unrefused_addressing _).bind fun addresses haddresses => ?_
  obtain ⟨plain, encoded, contents, header⟩ := filled_ok hb
  have around := length_bodyHeader (control p) plain.length (tailLength p)
  have length : (apduOf (addresses ++ b.toList)).length =
      apduLength (addresses.length + (authenticationElement (sentWith p secured)).length) plain.length
        (tailLength p) := by
    rw [length_apduOf, apduLength, ← around, FrameBuffer.toList_eq, header]
    simp only [List.length_append, contents.length]
    congr 1
    omega
  rw [length, if_neg (Nat.not_lt.2 (fits addresses plain haddresses encoded))]
  exact unrefused_ok _

/-- What was built is no longer than the association allows. -/
theorem length_le_of_build (h : o.build p secured = .ok bytes) : bytes.length ≤ p.maxOutgoing.toNat := by
  rw [build_eq] at h
  obtain ⟨b, -, h⟩ := Step.except_bind_ok.1 h
  obtain ⟨addresses, -, h⟩ := Step.except_bind_ok.1 h
  split at h
  · cases h
  next fits =>
    obtain rfl := Except.ok.inj h
    exact Nat.not_lt.1 fits

end Outgoing

/-! ## The longest APDU -/

namespace Parameters

/-- The most bytes of addressing. An identifier that cannot be sent takes none: nothing is sent under it. -/
def longestAddressing (p : Parameters) : Nat :=
  match addressing ((Outgoing.ofId 0xFFFFFFFF).address p) with
  | .ok bytes => bytes.length
  | .error _ => 0

/-- The bytes of key and vector, where they are announced. -/
def longestAuthentication (p : Parameters) : Nat := if p.mode.isSecure then authenticationLength + 2 else 0

/-- The bytes of device class and services: a leading service, if there is one, and one of `n` bytes. -/
def longestBody (p : Parameters) (leading : Option Bytes) (n : Nat) : Nat :=
  (if p.edClass.isEmpty then 0 else edClassLength) + (leading.toList.flatMap Epsem.serviceBytes).length +
    (n + (Ber.lengthBytes n).length)

/-- The most bytes of an APDU with these services. -/
def longestApdu (p : Parameters) (leading : Option Bytes) (n : Nat) : Nat :=
  apduLength (p.longestAddressing + p.longestAuthentication) (p.longestBody leading n) (Outgoing.tailLength p)

variable {p : Parameters} {o : Outgoing} {addresses plain service : Bytes} {leading : Option Bytes} {n : Nat}

/-- Requests of one association differ in the id only, and the largest id is the longest. -/
theorem length_addressing_le (request : o.calledId = none) (h : addressing (o.address p) = .ok addresses) :
    addresses.length ≤ p.longestAddressing := by
  obtain ⟨context, hcontext, h⟩ := Step.except_bind_ok.1 h
  obtain ⟨called, hcalled, h⟩ := Step.except_bind_ok.1 h
  obtain ⟨calling, hcalling, h⟩ := Step.except_bind_ok.1 h
  obtain rfl := Except.ok.inj h
  have longest : addressing ((Outgoing.ofId 0xFFFFFFFF).address p) = .ok (context ++ called ++
      numberElement calledIdTag none ++ calling ++ numberElement callingQualifierTag p.callingQualifier ++
      numberElement callingIdTag (some 0xFFFFFFFF)) :=
    Step.except_bind_ok.2 ⟨context, hcontext, Step.except_bind_ok.2 ⟨called, hcalled,
      Step.except_bind_ok.2 ⟨calling, hcalling, rfl⟩⟩⟩
  have id := Ber.length_taggedUnsigned_le callingIdTag o.callingId
  rw [longestAddressing, longest]
  simp only [Outgoing.address, request, numberElement, List.length_append, List.length_nil]
  omega

theorem length_sentWith_le (p : Parameters) (secured : Option Seal) :
    (authenticationElement (Outgoing.sentWith p secured)).length ≤ p.longestAuthentication := by
  unfold Outgoing.sentWith longestAuthentication
  split
  · rcases secured.bind fun s => if s.sendAuthentication then some s.authentication else none with _ | a
    · exact Nat.zero_le _
    · exact Nat.le_of_eq (by simp [authenticationElement, a.length_element])
  · exact Nat.le_refl _

theorem length_encode_le (short : service.length ≤ n)
    (h : Epsem.encode (if p.edClass.isEmpty then none else some p.edClass) (leading.toList ++ [service]) = .ok plain) :
    plain.length ≤ p.longestBody leading n := by
  obtain ⟨rfl, -, padded⟩ := Outgoing.encode_ok h
  have count := Ber.length_lengthBytes_mono short
  have edClass : ((Outgoing.edClassField p).getD []).length ≤ if p.edClass.isEmpty then 0 else edClassLength := by
    cases hc : Outgoing.edClassField p with
    | none => exact Nat.zero_le _
    | some c =>
      have given : p.edClass.isEmpty = false := by
        cases empty : p.edClass.isEmpty with
        | false => rfl
        | true => simp [Outgoing.edClassField, empty] at hc
      rw [given]
      exact Nat.le_of_eq (padded c hc)
  simp only [longestBody, List.flatMap_append, List.flatMap_singleton, Epsem.serviceBytes, List.length_append]
  omega

/-- **No APDU is longer** than the longest. -/
theorem apduLength_le (request : o.calledId = none) (services : o.services = leading.toList ++ [service])
    (short : service.length ≤ n) (secured : Option Seal) (haddresses : addressing (o.address p) = .ok addresses)
    (encoded : Epsem.encode (if p.edClass.isEmpty then none else some p.edClass) o.services = .ok plain) :
    apduLength (addresses.length + (authenticationElement (Outgoing.sentWith p secured)).length) plain.length
      (Outgoing.tailLength p) ≤ p.longestApdu leading n := by
  rw [services] at encoded
  exact apduLength_mono _ (Nat.add_le_add (length_addressing_le request haddresses) (length_sentWith_le p secured))
    (length_encode_le short encoded)

end Parameters

end Acse

/-! ## Associations -/

/-- The most bytes of services that the requests of a configuration have. -/
def Config.maxRequest (config : Config) : Nat := min (config.network.maxOutgoing.toNat - Association.envelope) 0xFFFF

/-- The most bytes that an APDU needs for such a request. -/
def Config.longestApdu (config : Config) : Nat :=
  (Association.settingsOf config).parameters.longestApdu (Association.settingsOf config).leadingSecurity config.maxRequest

namespace Association

variable {config : Config} {a : Association}

theorem Serves.leadingSecurity (h : a.Serves config) : a.leadingSecurity = (settingsOf config).leadingSecurity :=
  congrArg (·.leadingSecurity) h.settings

theorem Serves.maxRequest (h : a.Serves config) : a.maxRequest = config.maxRequest := by
  unfold Association.maxRequest
  rw [h.parameters]
  rfl

/-- Without sessions the security service leads, and with them there is none. -/
theorem Serves.withLeading (h : a.Serves config) (services : List Bytes) :
    Associated.withLeading a services = (settingsOf config).leadingSecurity.toList ++ services := by
  unfold Associated.withLeading
  rw [h.leadingSecurity, h.options]
  cases hs : config.network.sessionless <;> simp [settingsOf, hs]

theorem Serves.prepare (h : a.Serves config) : (Associated.prepare a).Serves config := by
  unfold Associated.prepare
  dsimp only
  split
  · split
    · exact ⟨h.settings, h.security⟩
    · exact ⟨h.settings, h.security⟩
  · exact h

theorem unrefused_chooseSeal (a : Association) : Unrefused (chooseSeal.run a).1 := by
  have vector (s : SecurityContext) : Unrefused (SecurityContext.nextVector.run s).1 := by
    unfold SecurityContext.nextVector
    rw [Step.run_get_bind, Step.run_set_bind]
    dsimp only
    split
    · split
      · split
        · exact unrefused_error rfl
        · exact unrefused_ok _
      · exact unrefused_ok _
    · exact unrefused_ok _
  have authentication (s : SecurityContext) (a : Association) : Unrefused ((chooseAuthentication s).run a).1 := by
    have given := vector s
    unfold chooseAuthentication
    rw [Step.run_get_bind]
    split
    · exact unrefused_ok _
    · dsimp only
      rw [Step.run_modify_bind]
      refine .run_bind ?_ fun _ _ _ => unrefused_ok _
      rw [Step.run_ofExcept]
      exact given
  unfold chooseSeal
  rw [Step.run_get_bind]
  split
  · split
    · exact unrefused_error rfl
    · exact .run_bind (authentication _ _) fun _ _ _ => unrefused_ok _
  · exact unrefused_ok _

theorem unrefused_build {o : Acse.Outgoing} (h : ∀ secured, Unrefused (o.build a.parameters secured)) :
    Unrefused ((build o).run a).1 := by
  refine .run_bind (unrefused_chooseSeal a) fun secured t chosen => ?_
  have kept : t.parameters = a.parameters :=
    congrArg (·.settings.parameters) (chooseSeal_identity.of_run chosen)
  rw [Step.run_get_bind, Step.run_ofExcept, kept]
  exact h secured

end Association

namespace Associated

variable {config : Config} {s : Associated}

/-- **A service that keeps to the limit** is packed, where the longest APDU is allowed: nothing is refused. -/
theorem unrefused_pack (serves : s.association.Serves config)
    (room : config.longestApdu ≤ config.network.maxOutgoing.toNat) {service : Bytes}
    (short : service.length ≤ config.maxRequest) : Unrefused ((pack [service]).run s).1 := by
  have prepared := serves.prepare
  rw [pack_run]
  refine Association.unrefused_build fun secured => ?_
  rw [prepared.parameters]
  refine Acse.Outgoing.unrefused_build fun addresses plain haddresses encoded => ?_
  refine Nat.le_trans ?_ room
  exact Acse.Parameters.apduLength_le rfl (prepared.withLeading _) short secured haddresses encoded

theorem length_le_of_pack (serves : s.association.Serves config) {services : List Bytes} {apdu : Bytes}
    (h : ((pack services).run s).1 = .ok apdu) : apdu.length ≤ config.network.maxOutgoing.toNat := by
  rw [pack_run] at h
  obtain ⟨_, -, built⟩ := (Association.build_run _ _).2 apdu h
  rw [serves.prepare.parameters] at built
  exact Acse.Outgoing.length_le_of_build built

end Associated

end Metering
