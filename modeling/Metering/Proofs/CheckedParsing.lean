import Metering.Proofs.Traps
import Metering.Proofs.Binding
import Metering.Procedure
import Metering.Service.Response
import Metering.Service.Timing

set_option autoImplicit false

/-! # Parsing does not trap

Every parser of received bytes is carried out as on a machine and follows its definition, from any position and
over any bytes that a machine holds. A loop goes round as long as there are bytes; its bound is one more than
their number, and running out of it counts as a trap. -/

namespace Metering

namespace Checked

variable {σ : Type}

/-- Reads the value of the key and vector element. -/
def authentication (value : Bytes) : Checked σ Acse.Authentication := do
  let bad : Fault := .protocol (.badElement Acse.authenticationTag)
  if value.length ≠ Acse.authenticationLength then throw bad
  if (← slice value 0 8) ≠ Acse.authenticationFront then throw bad
  if (← slice value 9 11) ≠ Acse.authenticationMiddle then throw bad
  let vector := [← index value 11, ← index value 12, ← index value 13, ← index value 14]
  return ⟨← index value 8, UInt32.ofNat (Bytes.ofBigEndian vector)⟩

end Checked

namespace Held

open Checked Acse

variable {m : Machine} (b : Held m)

/-! ## APDUs -/

/-- Takes what follows the tag of the bytes within a body element that starts at `tagStart`. -/
def octets (tagStart : Nat) (a : Incoming) (next : UInt8) : Checked Nat Incoming := do
  if next ≠ octetsTag then throw (.protocol (.badElement bodyTag))
  let octets ← b.length
  if octets = 0 ∨ octets ≠ (← b.remaining) then throw (.protocol (.badElement bodyTag))
  let control ← Checked.ofExcept (Epsem.Control.ofByte (← b.byte))
  if control.mode.isSecure ∧ (← b.remaining) < tagLength then
    throw (.authentication .epsemShorterThanTag)
  return { a with
    bodyHeader := ← slice b.bytes tagStart (← get)
    control := some control
    body := ← b.rest }

/-- Takes the rest of a body element that starts at `tagStart`. -/
def body (maxSize : UInt32) (length tagStart : Nat) (a : Incoming) : Checked Nat Incoming := do
  if length > maxSize.toNat then throw (.nok .responseTooLarge (Bytes.bigEndian 4 maxSize.toNat))
  if (← b.byte) ≠ externalTag then throw (.protocol (.badElement bodyTag))
  let _ ← b.length
  let next ← b.byte
  if next = referenceTag then
    let skipped ← b.length
    b.skip skipped
    b.octets tagStart a (← b.byte)
  else b.octets tagStart a next

/-- Takes elements until the bytes end or the body was taken. -/
def elements (maxSize : UInt32) (length : Nat) : (fuel : Nat) → Incoming → Checked Nat Incoming
  | 0, _ => trap
  | fuel + 1, a => do
    if (← b.remaining) = 0 then return a
    let tagStart ← get
    let tag ← b.byte
    let elementLength ← b.length
    let more := elements maxSize length fuel
    if tag = contextTag then more { a with context := ← b.uid }
    else if tag = calledTitleTag then more { a with calledTitle := ← b.uid }
    else if tag = calledIdTag then more { a with calledId := some (← b.integer) }
    else if tag = callingTitleTag then more { a with callingTitle := ← b.uid }
    else if tag = callingQualifierTag then more { a with callingQualifier := some (← b.integer) }
    else if tag = callingIdTag then more { a with callingId := some (← b.integer) }
    else if tag = authenticationTag then
      let value ← b.take authenticationLength
      more { a with authentication := some (← Checked.authentication value) }
    else if tag = bodyTag then b.body maxSize length tagStart a
    else
      b.skip elementLength
      more a

/-- Takes a whole APDU. -/
def apdu (maxSize : UInt32) : Checked Nat Incoming := do
  if (← b.byte) ≠ apduTag then throw (.frameInvalid .noApduStart)
  let length ← b.length
  if length ≠ (← b.remaining) then throw (.frameInvalid .apduLength)
  b.elements maxSize length (b.bytes.length + 1) {}

/-! ## Services -/

/-- Takes services until the bytes or the list end. -/
def services : (fuel : Nat) → Checked Nat (List Bytes)
  | 0 => trap
  | fuel + 1 => do
    if (← b.remaining) = 0 then return []
    let length ← b.length
    if length = 0 then return []
    let left ← b.remaining
    if length > left then throw (.protocol (.serviceTooLong length left))
    let service ← b.take length
    return service :: (← services fuel)

/-- Takes the code; a failure carries what follows it. -/
def checkCode : Checked Nat Unit := do
  let code ← b.byte
  if Response.isNok code then throw (.nok (NokCode.ofByte code) (← b.rest))

/-- Takes standard, version and revision and leaves the features. -/
def identification : Checked Nat Identification := do
  return { standard := ← b.byte, version := ← b.byte, revision := ← b.byte, tickets := none }

/-- Takes features up to the zero that ends them. -/
def features : (fuel : Nat) → TicketFeature → Checked Nat TicketFeature
  | 0, _ => trap
  | fuel + 1, f => do
    let code ← b.byte
    if code = 0x00 then return f
    else if code = 0x01 then
      let bits ← b.byte
      let algorithm ← b.byte
      features fuel { f with canAuthenticate := bits &&& 1 ≠ 0, algorithm }
    else if code = 0x02 then
      let bits ← b.byte
      let algorithm ← b.byte
      let length ← b.byte
      let ticket ← b.take length.toNat
      features fuel { canAuthenticate := bits &&& 1 ≠ 0, algorithm, ticket }
    else if code = 0x06 then
      let _ ← b.byte
      let length ← b.byte
      b.skip length.toNat
      features fuel f
    else if code = 0x07 then
      let length ← b.byte
      b.skip length.toNat
      features fuel f
    else throw (.protocol (.unknownFeature code))

/-- Takes standard, version, revision and the features. -/
def identificationWithFeatures : Checked Nat Identification := do
  let who ← b.identification
  let tickets ← b.features (b.bytes.length + 1) {}
  return { who with tickets := some tickets }

/-- Takes the results of negotiate. -/
def agreement (baudRequested : Bool) : Checked Nat Agreement := do
  let packetSize := UInt16.ofNat (← b.number16)
  let maxPackets ← b.byte
  let left ← b.remaining
  if baudRequested ∧ left > 0 then
    let index ← b.byte
    let baud ← Checked.ofExcept (Baud.ofIndex index)
    return { packetSize, maxPackets, baud := some baud }
  return { packetSize, maxPackets, baud := none }

/-- Takes timing values. -/
def timing : Checked Nat Timing := do
  return { traffic := ← b.byte, intercharacter := ← b.byte,
           acknowledgement := ← b.byte, retries := ← b.byte }

/-- Takes the results of authenticate. -/
def ticketAnswer : Checked Nat TicketAnswer := do
  let length ← b.byte
  if length = 0 then throw (.authentication .emptyResponse)
  let keyId ← b.byte
  let data ← b.take (← sub length.toNat 1)
  return { length, keyId, data }

/-- Takes table contents: count, bytes, checksum. -/
def tableData (number : UInt16) (offset : Option UInt32) : Checked Nat TableData := do
  let declared ← b.number16
  let left ← b.remaining
  if left < (← add m.largest declared 1) then throw (.partialData declared (min left declared))
  let data ← b.take declared
  let checksum ← b.byte
  return { number, offset, data, declared, checksumValid := checksum = tableChecksum data }

/-- Takes the idle timeout that a meter may grant at logon. -/
def grantedIdle : Checked Nat (Option Nat) := do
  let left ← b.remaining
  if left ≥ 2 then return some (← b.number16) else return none

end Held

/-- Reads the contents of table 8. -/
def Checked.procedureResponse {σ : Type} (table : Bytes) : Checked σ ProcedureResponse := do
  if table.length < ProcedureResponse.minLength then
    throw (.protocol (.procedureTableShort table.length ProcedureResponse.minLength))
  return { number := [← index table 0, ← index table 1]
           sequence := ← index table 2
           result := ProcedureResult.ofByte (← index table 3)
           data := ← slice table 4 table.length }

namespace Checked

variable {σ : Type}

theorem authentication_eq (value : Bytes) :
    authentication value = (ofExcept (Acse.Authentication.ofValue value) : Checked σ Acse.Authentication) := by
  unfold authentication Acse.Authentication.ofValue
  by_cases whole : value.length = Acse.authenticationLength
  · rw [if_neg (not_not.2 whole), slice_front (by rw [whole]; decide), pure_bind,
      slice_eq (by decide) (by rw [whole]; decide), pure_bind]
    by_cases front : value.take 8 = Acse.authenticationFront
    · by_cases middle : (value.drop 9).take 2 = Acse.authenticationMiddle
      · rw [if_neg (not_not.2 front), if_neg (not_not.2 middle), if_pos ⟨whole, front, middle⟩]
        match value, whole with
        | [_, _, _, _, _, _, _, _, _, _, _, _, _, _, _], _ => rfl
      · rw [if_neg fun (h : _ ∧ _ ∧ _) => middle h.2.2, if_neg (not_not.2 front)]
        exact if_pos middle
    · rw [if_neg fun (h : _ ∧ _ ∧ _) => front h.2.1]
      exact if_pos front
  · rw [if_neg fun (h : _ ∧ _ ∧ _) => whole h.1]
    exact if_pos whole

end Checked

namespace Held

open Checked Acse

variable {α : Type} {m : Machine} {b : Held m} {p : Nat}

theorem follows_octets {tagStart : Nat} {a : Incoming} {next : UInt8} (h : p ≤ b.bytes.length)
    (behind : tagStart ≤ p) :
    b.Follows p (b.octets tagStart a next) (Incoming.takeOctets (b.bytes.drop tagStart) a next) := by
  refine .guard h fun _ => (follows_length h).bind fun p1 octets _ on1 inside => ?_
  refine (follows_remaining inside).bind fun p2 left _ on2 inside => ?_
  refine .guard inside fun _ => (follows_byte inside).bind fun p3 first _ on3 inside => ?_
  refine (Follows.ofExcept _ inside).bind fun p4 control _ on4 inside => ?_
  refine .remaining_bind inside (.get_left ?_)
  dsimp only [reader]
  rw [List.length_drop, List.length_drop, show b.bytes.length - tagStart - (b.bytes.length - p4) = p4 - tagStart by omega]
  refine .guard inside fun _ => ⟨p4, ?_, rfl, Nat.le_refl p4, inside⟩
  show (slice b.bytes tagStart p4 >>= fun header => b.rest >>= fun left => pure _ : Checked Nat Incoming).run p4 = _
  rw [slice_eq (by omega) inside, pure_bind, Checked.run_bind, run_rest inside]
  rfl

theorem follows_body {maxSize : UInt32} {length tagStart : Nat} {a : Incoming} (h : p ≤ b.bytes.length)
    (behind : tagStart ≤ p) :
    b.Follows p (b.body maxSize length tagStart a)
      (Incoming.takeBody maxSize length (b.bytes.drop tagStart) a) := by
  refine .guard h fun _ => ?_
  refine (follows_byte h).bind fun p1 external _ on1 inside => .guard inside fun _ => ?_
  refine (follows_length inside).bind fun p2 _ _ on2 inside => ?_
  refine (follows_byte inside).bind fun p3 next _ on3 inside => ?_
  refine .ite (fun _ => ?_) fun _ => follows_octets inside (by omega)
  refine (follows_length inside).bind fun p4 skipped ran on4 inside => ?_
  refine (follows_skip inside (Reader.length_le ran)).bind fun p5 _ _ on5 inside => ?_
  exact (follows_byte inside).bind fun p6 _ _ on6 inside => follows_octets inside (by omega)

/-- **The loop over the elements never traps**: every round takes a byte, so the bytes end before the bound. -/
theorem follows_elements {maxSize : UInt32} {length fuel bound : Nat} {a : Incoming} (h : p ≤ b.bytes.length)
    (enough : b.bytes.length - p < fuel) (covered : b.bytes.length - p ≤ bound) :
    b.Follows p (b.elements maxSize length fuel a) (Incoming.takeElements maxSize length bound a) := by
  induction fuel generalizing p bound a with
  | zero => omega
  | succ fuel ih =>
    rw [elements]
    refine .remaining_bind h ?_
    by_cases ended : b.bytes.length - p = 0
    · rw [if_pos ended]
      have empty : (b.reader p).rest.isEmpty = true := by
        rw [List.isEmpty_iff_length_eq_zero, length_rest_reader, ended]
      cases bound with
      | zero => exact .pure a h
      | succ bound =>
        rw [Incoming.takeElements]
        refine .get_left ?_
        dsimp only
        rw [if_pos empty]
        exact .pure a h
    · obtain ⟨bound, rfl⟩ : ∃ n, bound = n + 1 := ⟨bound - 1, by omega⟩
      have some : ¬ (b.reader p).rest.isEmpty = true := by
        rw [List.isEmpty_iff_length_eq_zero, length_rest_reader]
        exact ended
      rw [if_neg ended, Incoming.takeElements]
      refine .get_bind ?_
      dsimp only
      rw [if_neg some]
      refine (follows_byte h).bind fun p1 tag ran on1 inside1 => ?_
      obtain rfl := position_of_byte ran
      refine (follows_length inside1).bind fun p2 n ran2 on2 inside2 => ?_
      have round {q : Nat} (a : Incoming) (on : p2 ≤ q) (inside : q ≤ b.bytes.length) :
          b.Follows q (b.elements maxSize length fuel a) (Incoming.takeElements maxSize length bound a) :=
        ih inside (by omega) (by omega)
      have uid (put : String → Incoming) : b.Follows p2
          (b.uid >>= fun text => b.elements maxSize length fuel (put text))
          (Reader.uid >>= fun text => Incoming.takeElements maxSize length bound (put text)) :=
        (follows_uid inside2).bind fun q text _ on inside => round (put text) on inside
      have integer (put : UInt32 → Incoming) : b.Follows p2
          (b.integer >>= fun n => b.elements maxSize length fuel (put n))
          (Reader.integer >>= fun n => Incoming.takeElements maxSize length bound (put n)) :=
        (follows_integer inside2).bind fun q n _ on inside => round (put n) on inside
      refine .ite (fun _ => uid _) fun _ => .ite (fun _ => uid _) fun _ => .ite (fun _ => integer _) fun _ => ?_
      refine .ite (fun _ => uid _) fun _ => .ite (fun _ => integer _) fun _ => .ite (fun _ => integer _) fun _ => ?_
      refine .ite (fun _ => ?_) fun _ => .ite (fun _ => follows_body inside2 (by omega)) fun _ => ?_
      · refine (follows_take inside2 (by decide)).bind fun p3 value _ on3 inside3 => ?_
        rw [authentication_eq]
        exact (Follows.ofExcept _ inside3).bind fun p4 _ _ on4 inside4 => round _ (by omega) inside4
      · exact (follows_skip inside2 (Reader.length_le ran2)).bind fun p3 _ _ on3 inside3 => round a on3 inside3

theorem follows_apdu {maxSize : UInt32} (h : p ≤ b.bytes.length) :
    b.Follows p (b.apdu maxSize) (Incoming.takeApdu maxSize) := by
  refine (follows_byte h).bind fun p1 tag _ _ inside => .guard inside fun _ => ?_
  refine (follows_length inside).bind fun p2 length _ _ inside => ?_
  refine (follows_remaining inside).bind fun p3 left ran _ inside => .guard inside fun _ => ?_
  have counted : b.bytes.length - p2 = left := length_rest_reader.symm.trans (Except.ok.inj (Prod.mk.inj ran).1)
  exact follows_elements inside (by omega) (by omega)

/-- **The loop over the services never traps**: every round takes a length. -/
theorem follows_services {fuel bound : Nat} (h : p ≤ b.bytes.length) (enough : b.bytes.length - p < fuel)
    (covered : b.bytes.length - p ≤ bound) : b.Follows p (b.services fuel) (Epsem.takeServices bound) := by
  induction fuel generalizing p bound with
  | zero => omega
  | succ fuel ih =>
    rw [services]
    cases bound with
    | zero =>
      refine .remaining_bind h ?_
      rw [if_pos (Nat.le_zero.1 covered)]
      exact .pure [] h
    | succ bound =>
      rw [Epsem.takeServices]
      refine .both_remaining h (.ite (fun _ => .pure [] h) fun _ => ?_)
      refine (follows_length h).bind fun q length ran on inside => ?_
      have further := position_of_length ran
      refine .ite (fun _ => .pure [] inside) fun _ => .both_remaining inside (.guard inside fun _ => ?_)
      refine (follows_take inside (Reader.length_le ran)).bind fun r service _ on' inside => ?_
      exact (ih inside (by omega) (by omega)).bind fun _ _ _ _ inside => .pure _ inside

theorem follows_checkCode (h : p ≤ b.bytes.length) : b.Follows p b.checkCode Response.checkCode := by
  refine (follows_byte h).bind fun q code _ _ inside => ?_
  refine .ite (fun _ => ⟨q, ?_, rfl, Nat.le_refl q, inside⟩) fun _ => .pure () inside
  show (b.rest >>= fun left => throw (.nok (NokCode.ofByte code) left) : Checked Nat Unit).run q = _
  rw [Checked.run_bind, run_rest inside]
  rfl

theorem follows_identification (h : p ≤ b.bytes.length) : b.Follows p b.identification Identification.take :=
  (follows_byte h).bind fun _ _ _ _ h => (follows_byte h).bind fun _ _ _ _ h => (follows_byte h).bind fun _ _ _ _ h =>
    .pure _ h

/-- **The loop over the features never traps**: every round takes a byte. -/
theorem follows_features {fuel bound : Nat} {f : TicketFeature} (h : p ≤ b.bytes.length)
    (enough : b.bytes.length - p < fuel) (covered : b.bytes.length - p ≤ bound) :
    b.Follows p (b.features fuel f) (Identification.takeFeatures bound f) := by
  induction fuel generalizing p bound f with
  | zero => omega
  | succ fuel ih =>
    cases bound with
    | zero =>
      refine ⟨p, ?_, rfl, Nat.le_refl p, h⟩
      rw [features, Checked.run_bind, run_byte_end h (by omega)]
      rfl
    | succ bound =>
      refine (follows_byte h).bind fun p1 code ran _ h1 => ?_
      obtain rfl := position_of_byte ran
      have round {q : Nat} (f : TicketFeature) (on : p + 1 ≤ q) (inside : q ≤ b.bytes.length) :
          b.Follows q (b.features fuel f) (Identification.takeFeatures bound f) := ih inside (by omega) (by omega)
      have small (n : UInt8) : n.toNat ≤ 0xFFFFFF := by
        have := n.toNat_lt
        omega
      refine .ite (fun _ => .pure f h1) fun _ => .ite (fun _ => ?_) fun _ => .ite (fun _ => ?_) fun _ =>
        .ite (fun _ => ?_) fun _ => .ite (fun _ => ?_) fun _ => .throw _ h1
      · refine (follows_byte h1).bind fun p2 bits _ on2 h2 => ?_
        exact (follows_byte h2).bind fun p3 algorithm _ on3 h3 => round _ (by omega) h3
      · refine (follows_byte h1).bind fun p2 bits _ on2 h2 => ?_
        refine (follows_byte h2).bind fun p3 algorithm _ on3 h3 => ?_
        refine (follows_byte h3).bind fun p4 length _ on4 h4 => ?_
        exact (follows_take h4 (small length)).bind fun p5 ticket _ on5 h5 => round _ (by omega) h5
      · refine (follows_byte h1).bind fun p2 _ _ on2 h2 => (follows_byte h2).bind fun p3 length _ on3 h3 => ?_
        exact (follows_skip h3 (small length)).bind fun p4 _ _ on4 h4 => round f (by omega) h4
      · refine (follows_byte h1).bind fun p2 length _ on2 h2 => ?_
        exact (follows_skip h2 (small length)).bind fun p3 _ _ on3 h3 => round f (by omega) h3

theorem follows_identificationWithFeatures (h : p ≤ b.bytes.length) :
    b.Follows p b.identificationWithFeatures Identification.takeWithFeatures := by
  refine (follows_identification h).bind fun p1 who _ _ h => .remaining_left ?_
  exact (follows_features h (by omega) (Nat.le_refl _)).bind fun _ _ _ _ h => .pure _ h

theorem follows_timing (h : p ≤ b.bytes.length) : b.Follows p b.timing Timing.take :=
  (follows_byte h).bind fun _ _ _ _ h => (follows_byte h).bind fun _ _ _ _ h => (follows_byte h).bind fun _ _ _ _ h =>
    (follows_byte h).bind fun _ _ _ _ h => .pure _ h

theorem follows_agreement (baudRequested : Bool) (h : p ≤ b.bytes.length) :
    b.Follows p (b.agreement baudRequested) (Agreement.take baudRequested) := by
  refine (follows_number16 h).bind fun p1 size _ _ h => (follows_byte h).bind fun p2 packets _ _ h => ?_
  refine (follows_remaining h).bind fun p3 left _ _ h => .ite (fun _ => ?_) fun _ => .pure _ h
  exact (follows_byte h).bind fun p4 index _ _ h => (Follows.ofExcept _ h).bind fun _ _ _ _ h => .pure _ h

theorem follows_ticketAnswer (h : p ≤ b.bytes.length) : b.Follows p b.ticketAnswer TicketAnswer.take := by
  refine (follows_byte h).bind fun p1 length _ _ h => .guard h fun some => ?_
  refine (follows_byte h).bind fun p2 keyId _ _ h => ?_
  have one : 1 ≤ length.toNat := Nat.one_le_iff_ne_zero.2 fun none => some (UInt8.toNat_inj.1 none)
  have small : length.toNat - 1 ≤ 0xFFFFFF := by
    have := length.toNat_lt
    omega
  rw [sub_eq one, pure_bind]
  exact (follows_take h small).bind fun _ _ _ _ h => .pure _ h

theorem follows_tableData (number : UInt16) (offset : Option UInt32) (h : p ≤ b.bytes.length) :
    b.Follows p (b.tableData number offset) (TableData.take number offset) := by
  refine (follows_number16 h).bind fun p1 declared ran _ h => ?_
  have small : declared < 256 ^ 2 := Reader.number_lt ran
  have wide := m.wide
  refine .both_remaining h ?_
  rw [add_eq (by omega), pure_bind]
  refine .guard h fun _ => (follows_take h (by omega)).bind fun p2 data _ _ h => ?_
  exact (follows_byte h).bind fun _ _ _ _ h => .pure _ h

theorem follows_grantedIdle (h : p ≤ b.bytes.length) : b.Follows p b.grantedIdle takeGrantedIdle :=
  (follows_remaining h).bind fun _ _ _ _ h =>
    .ite (fun _ => (follows_number16 h).bind fun _ _ _ _ h => .pure _ h) fun _ => .pure _ h

/-- Every parser of responses does from a position as its definition does. -/
structure ParsersFollow (b : Held m) (p : Nat) : Prop where
  checkCode : b.Follows p b.checkCode Response.checkCode
  identification : b.Follows p b.identification Identification.take
  identificationWithFeatures : b.Follows p b.identificationWithFeatures Identification.takeWithFeatures
  agreement : ∀ baudRequested, b.Follows p (b.agreement baudRequested) (Agreement.take baudRequested)
  timing : b.Follows p b.timing Timing.take
  ticketAnswer : b.Follows p b.ticketAnswer TicketAnswer.take
  grantedIdle : b.Follows p b.grantedIdle takeGrantedIdle
  tableData : ∀ number offset, b.Follows p (b.tableData number offset) (TableData.take number offset)

theorem parsersFollow {p : Nat} (h : p ≤ b.bytes.length) : b.ParsersFollow p where
  checkCode := follows_checkCode h
  identification := follows_identification h
  identificationWithFeatures := follows_identificationWithFeatures h
  agreement baudRequested := follows_agreement baudRequested h
  timing := follows_timing h
  ticketAnswer := follows_ticketAnswer h
  grantedIdle := follows_grantedIdle h
  tableData number offset := follows_tableData number offset h

end Held

/-- **Decoding table 8 never traps**, once its length was checked. -/
theorem Checked.procedureResponse_eq {σ : Type} (table : Bytes) :
    procedureResponse table = (ofExcept (ProcedureResponse.ofTable table) : Checked σ ProcedureResponse) := by
  match table with
  | [] | [_] | [_, _] | [_, _, _] => rfl
  | first :: second :: sequence :: result :: data =>
    have long : ¬ (first :: second :: sequence :: result :: data).length < ProcedureResponse.minLength := by
      simp [ProcedureResponse.minLength]
    have behind : slice (first :: second :: sequence :: result :: data) 4 (data.length + 4) = (pure data : Checked σ Bytes) :=
      slice_behind (Nat.le_add_left 4 data.length)
    rw [procedureResponse, if_neg long]
    show (slice _ 4 (data.length + 4) >>= fun data =>
      pure (ProcedureResponse.mk [first, second] sequence (ProcedureResult.ofByte result) data)) = _
    rw [behind]
    rfl

end Metering
