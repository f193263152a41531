import Metering.Proofs.CheckedChannel
import Metering.Proofs.CheckedOpening
import Metering.Proofs.Codec
import Metering.Proofs.Reception

set_option autoImplicit false

/-! # Received bytes trap nothing

Reading a packet off the line is carried out as on a machine: its length comes out of the header, everything behind
it is found by that length, and the checksum is looked up byte by byte. The counters of link and channel have 64 bits,
so as many receptions are safe as still fit them (`Linked.Room`). Together with the parsers and with opening, no byte
string that is received reaches an operation that traps (`Checked.never_traps`). -/

namespace Metering

open Checked

namespace Crc

variable {σ : Type}

/-- Takes one byte through the table. -/
def checkedStep (c : Crc) (b : UInt8) : Checked σ Crc :=
  match table[((c.register ^^^ b.toUInt16) &&& 0xFF).toNat]? with
  | some entry => pure ⟨(c.register >>> 8) ^^^ entry⟩
  | none => trap

/-- The checksum of a run of bytes. -/
def checkedOfBytes (bytes : Bytes) : Checked σ UInt16 := do return (← bytes.foldlM checkedStep start).value

/-- **The table is never left**: it has an entry for every low byte. -/
theorem checkedStep_eq (c : Crc) (b : UInt8) : c.checkedStep b = (pure (c.stepByTable b) : Checked σ Crc) := by
  have low : ((c.register ^^^ b.toUInt16) &&& 0xFF).toNat < table.size := by
    rw [UInt16.toNat_and, show table.size = 256 by simp [table]]
    exact Nat.and_lt_two_pow _ (show 0xFF < 2 ^ 8 by decide)
  rw [checkedStep, stepByTable, Array.getElem?_eq_getElem low, Array.getD_eq_getD_getElem?, Array.getElem?_eq_getElem low]
  rfl

theorem checkedOfBytes_eq (bytes : Bytes) : checkedOfBytes bytes = (pure (ofBytes bytes) : Checked σ UInt16) := by
  have steps : (checkedStep : Crc → UInt8 → Checked σ Crc) = fun c b => pure (c.stepByTable b) :=
    funext fun c => funext fun b => c.checkedStep_eq b
  rw [checkedOfBytes, steps, List.foldlM_pure, pure_bind]
  rfl

end Crc

/-- Where the parts of a frame lie by the length that its header announces. -/
theorem Packet.Parts.cuts {header rest : Bytes} (parts : Packet.Parts header rest) :
    ∃ x y, rest.drop (Linked.announcedLength header) = [x, y] ∧
      (Packet.frameOf header rest)[Linked.announcedLength header + packetHeaderLength]? = some x ∧
      (Packet.frameOf header rest)[Linked.announcedLength header + packetHeaderLength + 1]? = some y ∧
      (Packet.frameOf header rest).take (Linked.announcedLength header + packetHeaderLength) =
        Packet.frameOf header (rest.take (Linked.announcedLength header)) ∧
      ((Packet.frameOf header rest).drop packetHeaderLength).take (Linked.announcedLength header) =
        rest.take (Linked.announcedLength header) := by
  obtain ⟨x, y, trailer, whole⟩ := parts.exists_trailer
  have front : (Packet.frameOf header (rest.take (Linked.announcedLength header))).length =
      Linked.announcedLength header + packetHeaderLength := by
    rw [Packet.length_frameOf _ parts.length_header, parts.length_take]
  have behind : (Packet.frameOf header rest).drop packetHeaderLength = rest := by
    have skipped : (Packet.frameOf header rest).drop (0 + packetHeaderLength) = rest.drop 0 :=
      Packet.drop_frameOf parts.length_header 0
    rwa [Nat.zero_add, List.drop_zero] at skipped
  refine ⟨x, y, trailer, ?_, ?_, ?_, by rw [behind]⟩
  · rw [whole, ← front, List.getElem?_append_right (Nat.le_refl _), Nat.sub_self]
    rfl
  · rw [whole, ← front, List.getElem?_append_right (Nat.le_add_right _ 1), Nat.add_sub_cancel_left]
    rfl
  · rw [whole, ← front, List.take_left]

namespace Linked

/-! ## One packet -/

/-- Carries out what concerns the channel. -/
def checkedOnChannel {α : Type} (x : Checked Channel α) : Checked Linked α :=
  Checked.within Linked.channel (fun s channel => { s with channel }) x

/-- Raises a counter. -/
def checkedRaise (counter : LinkStatistics → Nat) (put : Nat → LinkStatistics → LinkStatistics) : Checked Linked Unit := do
  let n ← add largestCount (counter (← get).link.statistics) 1
  ofStep (count (put n))

/-- Leaves the line alone after a bad length and drops what arrives. -/
def checkedRefuseLength (length : Nat) : Checked Linked Unit := do
  checkedRaise (·.lengthErrors) fun n s => { s with lengthErrors := n }
  ofStep (onChannel (Channel.sleep (min (← ofStep parameters).acknowledgement maxBadLengthPause)))
  checkedOnChannel Channel.checkedClearInput
  throw (.frameInvalid (.inboundLength length))

/-- The length that a header announces. -/
def checkedLength (header : Bytes) : Checked Linked Nat := do
  return Bytes.ofBigEndian [← index header 3, ← index header 4]

/-- Makes a packet of its header and of what was read behind it. -/
def checkedTakePacket (m : Machine) (acceptDamaged : Bool) (length : Nat) (header rest : Bytes) :
    Checked Linked (Packet × UInt16) := do
  let _ ← add m.largest length packetOverhead
  let bytes := Packet.frameOf header rest
  let stop ← add m.largest length packetHeaderLength
  let crc := UInt16.ofNat (Bytes.ofLittleEndian [← index bytes stop, ← index bytes (← add m.largest stop 1)])
  let computed ← Crc.checkedOfBytes (← slice bytes 0 stop)
  if crc ≠ computed ∧ !acceptDamaged then
    checkedRaise (·.checksumErrors) fun n s => { s with checksumErrors := n }
    throw (.frameInvalid .checksum)
  let packet := { identity := ← index bytes 1, control := ⟨← index bytes 2⟩, sequence := ← index bytes 3
                  data := ← slice bytes packetHeaderLength stop : Packet }
  ofStep turnAround
  return (packet, crc)

/-- Reads one packet with its checksum. -/
def checkedReceivePacket (m : Machine) (acceptDamaged : Bool) : Checked Linked (Packet × UInt16) := do
  let p ← ofStep parameters
  let _ ← checkedOnChannel (Channel.checkedReadStart m [startByte] p.acknowledgement)
  let header ← checkedOnChannel (Channel.checkedReadExact m (packetHeaderLength - 1) p.intercharacter)
  let length ← checkedLength header
  if length = 0 ∨ length > (← get).link.maxData then checkedRefuseLength length
  let rest ← checkedOnChannel (Channel.checkedReadExact m (← add m.largest length 2) p.intercharacter)
  checkedTakePacket m acceptDamaged length header rest

/-- Reads what follows the start byte of a packet that is to be dropped. -/
def checkedReadStray (m : Machine) : Checked Linked Unit := do
  let timeout := (← ofStep parameters).intercharacter
  let header ← checkedOnChannel (Channel.checkedReadExact m (packetHeaderLength - 1) timeout)
  let length ← checkedLength header
  if length ≤ (← get).link.maxData then
    let _ ← checkedOnChannel (Channel.checkedReadExact m (← add m.largest length 2) timeout)

/-- The length of a message, as estimated from its first packet. -/
def checkedEstimate {σ : Type} (m : Machine) (p : Packet) : Checked σ Nat := do
  mul m.largest (← add m.largest p.sequence.toNat 1) p.data.length

/-- What is left of a link after some receptions, whatever came of them; each may pass a wrong checksum. -/
def receiving (s : Linked) (receptions : List Bool) : Linked :=
  receptions.foldl (fun s acceptDamaged => ((receivePacket acceptDamaged).run s).2) s

/-! ## What a reception costs -/

variable {m : Machine} {s : Linked}

theorem onChannel_charges {α : Type} {x : Step Channel α} (h : Channel.Charges id s.channel x) :
    Channel.Charges Linked.channel s (onChannel x) := by
  unfold Channel.Charges onChannel at *
  rw [Step.run_within]
  rcases run : x.run s.channel with ⟨e | a, c⟩ <;> rw [run] at h <;> exact h

theorem parameters_charges : Channel.Charges Linked.channel s parameters := .of_same (.bind .get fun _ => .pure _)

theorem turnAround_charges : Channel.Charges Linked.channel s turnAround :=
  parameters_charges.bind fun _ _ _ => onChannel_charges (Channel.sleep_charges _)

theorem count_charges (f : LinkStatistics → LinkStatistics) : Channel.Charges Linked.channel s (count f) :=
  .of_same (.modify fun _ => rfl)

theorem refuseLength_charges (length : Nat) : Channel.Charges Linked.channel s (refuseLength length) :=
  (count_charges _).bind fun _ _ _ => parameters_charges.bind fun _ _ _ =>
    (onChannel_charges (Channel.sleep_charges _)).bind fun _ _ _ =>
      (onChannel_charges Channel.clearInput_charges).bind fun _ _ _ => .throw _

theorem announcedLength_lt {header : Bytes} (h : header.length = packetHeaderLength - 1) : announcedLength header < 65536 := by
  obtain ⟨_, _, _, high, low, rfl⟩ := Packet.exists_fields h
  exact Bytes.ofBigEndian_lt [high, low]

theorem announcedLength_le {header : Bytes} (h : header.length = packetHeaderLength - 1) :
    announcedLength header + 2 ≤ Channel.mostWanted :=
  Nat.add_le_add_right (Nat.le_of_lt_succ (announcedLength_lt h)) 2

theorem receivePacket_charges (acceptDamaged : Bool) : Channel.Charges Linked.channel s (receivePacket acceptDamaged) := by
  refine parameters_charges.bind fun p s0 _ => ?_
  refine (onChannel_charges (Channel.readStart_charges _ _)).bind fun _ s1 _ => ?_
  refine (onChannel_charges (Channel.readExact_charges (by decide) _)).bind fun header s2 headed => .get_bind ?_
  have length_header := (Channel.readExactly_ok (onChannel_ok headed).1).1
  by_cases bad : announcedLength header = 0 ∨ announcedLength header > s2.link.maxData
  · rw [if_pos bad]
    exact (refuseLength_charges _).bind fun _ _ refused => absurd refused (refuseLength_ne_ok _ _ _)
  rw [if_neg bad]
  refine (onChannel_charges (Channel.readExact_charges (announcedLength_le length_header) _)).bind fun rest s3 _ => ?_
  dsimp only
  split
  · exact (count_charges _).bind fun _ _ _ => .of_same (.throw_bind _ _)
  · exact turnAround_charges.bind fun _ _ _ => .pure _

/-- There is room for `n` receptions more, in the counters and in memory. -/
structure Room (m : Machine) (n : Nat) (s : Linked) : Prop where
  heard : s.heard + n ≤ largestCount
  channel : s.channel.Room m n

/-- A reception is counted once at most. -/
theorem receivePacket_heard (acceptDamaged : Bool) (s : Linked) :
    ((receivePacket acceptDamaged).run s).2.heard ≤ s.heard + 1 := by
  have judged := receivePacket_judges acceptDamaged s
  rcases run : (receivePacket acceptDamaged).run s with ⟨e | a, t⟩ <;> rw [run] at judged
  · exact judged.heard
  · exact Nat.le_trans (Counts.of_tally judged).heard (Nat.le_succ _)

namespace Room

variable {n : Nat}

/-- A reception takes the room of one. -/
theorem receivePacket (room : s.Room m (n + 1)) (acceptDamaged : Bool) :
    ((Linked.receivePacket acceptDamaged).run s).2.Room m n where
  heard := by
    have heard := receivePacket_heard acceptDamaged s
    have counted := room.heard
    omega
  channel := (receivePacket_charges acceptDamaged).once.room (Nat.add_comm n 1 ▸ room.channel)

/-- Receptions take the room of as many. -/
theorem receiving {receptions : List Bool} (room : s.Room m (receptions.length + n)) : (s.receiving receptions).Room m n := by
  induction receptions generalizing s with
  | nil => rwa [List.length_nil, Nat.zero_add] at room
  | cons acceptDamaged receptions ih =>
    rw [List.length_cons, Nat.add_right_comm] at room
    exact ih (room.receivePacket acceptDamaged)

end Room

/-! ## The packet agrees -/

theorem checkedRaise_agrees {counter : LinkStatistics → Nat} (put : Nat → LinkStatistics → LinkStatistics)
    (room : counter s.link.statistics < largestCount) :
    Agrees s (checkedRaise counter put) (count fun n => put (counter n + 1) n) := by
  show (add largestCount (counter s.link.statistics) 1 >>= fun n => ofStep (count (put n)) : Checked Linked Unit).run s = _
  rw [add_eq room, pure_bind]
  rfl

theorem checkedRefuseLength_agrees (room : s.link.statistics.lengthErrors < largestCount) (length : Nat) :
    Agrees s (checkedRefuseLength length) (refuseLength length) :=
  (checkedRaise_agrees (fun n s => { s with lengthErrors := n }) room).bind fun _ _ _ => (Agrees.ofStep _).bind fun _ _ _ =>
    (Agrees.ofStep _).bind fun _ _ _ => (Agrees.within Channel.checkedClearInput_agrees).bind fun _ _ _ => .throw _

theorem checkedLength_eq {header : Bytes} (h : header.length = packetHeaderLength - 1) :
    checkedLength header = pure (announcedLength header) := by
  obtain ⟨_, _, _, high, low, rfl⟩ := Packet.exists_fields h
  rw [checkedLength, index_eq rfl, pure_bind, index_eq rfl, pure_bind]
  rfl

/-- What is cut out of a frame is there, if as much was read as its header announces. -/
theorem checkedTakePacket_agrees {header rest : Bytes} (parts : Packet.Parts header rest)
    (room : s.link.statistics.checksumErrors < largestCount) (acceptDamaged : Bool) :
    Agrees s (checkedTakePacket m acceptDamaged (announcedLength header) header rest) (do
      let data := rest.take (announcedLength header)
      let crc := UInt16.ofNat (Bytes.ofLittleEndian (rest.drop (announcedLength header)))
      if crc ≠ Crc.ofBytes ([startByte] ++ header ++ data) ∧ !acceptDamaged then
        count fun s => { s with checksumErrors := s.checksumErrors + 1 }
        throw (.frameInvalid .checksum)
      turnAround
      return (Packet.read header data, crc)) := by
  have wide := m.wide
  have small := announcedLength_lt parts.length_header
  have headerLength : packetHeaderLength = 6 := rfl
  have overhead : packetOverhead = 8 := rfl
  obtain ⟨x, y, trailer, first, second, front, data⟩ := parts.cuts
  have inside : announcedLength header + packetHeaderLength ≤ (Packet.frameOf header rest).length := by
    rw [Packet.length_frameOf rest parts.length_header, parts.length_rest]
    omega
  rw [checkedTakePacket, add_eq (by omega), pure_bind, add_eq (by omega), pure_bind, index_eq first, pure_bind,
    add_eq (by omega), pure_bind, index_eq second, pure_bind, slice_front inside, pure_bind, front,
    Crc.checkedOfBytes_eq, pure_bind]
  dsimp only
  rw [trailer]
  refine .ite (fun _ => ?_) fun _ => ?_
  · exact (checkedRaise_agrees (fun n s => { s with checksumErrors := n }) room).bind fun _ _ _ => .throw _
  · obtain ⟨_, _, _, _, _, rfl⟩ := Packet.exists_fields parts.length_header
    rw [index_eq rfl, pure_bind, index_eq rfl, pure_bind, index_eq rfl, pure_bind, slice_eq (by omega) inside, pure_bind,
      Nat.add_sub_cancel, data]
    exact (Agrees.ofStep _).bind fun _ _ _ => .pure _

/-- **Reading a packet never traps**, whatever arrives: a header has the bytes of a length, and what is read behind
it has the bytes that the length tells of and a checksum. -/
theorem checkedReceivePacket_agrees (room : s.Room m 1) (acceptDamaged : Bool) :
    Agrees s (checkedReceivePacket m acceptDamaged) (receivePacket acceptDamaged) := by
  have wide := m.wide
  have counted : s.link.statistics.heard + 1 ≤ largestCount := room.heard
  rw [LinkStatistics.heard] at counted
  refine (Agrees.ofStep parameters).bind fun p s0 known => ?_
  obtain ⟨-, rfl⟩ := Prod.mk.inj known
  have started_agrees := Channel.checkedReadStart_agrees room.channel [startByte] p.acknowledgement
  refine started_agrees.within.bind fun start s1 started => ?_
  obtain ⟨started, link1⟩ := onChannel_ok started
  have room1 := (Channel.readStart_charges _ _).room room.channel started
  have short : packetHeaderLength - 1 ≤ Channel.mostWanted := by decide
  have headed_agrees := Channel.checkedReadExact_agrees room1 short p.intercharacter
  refine headed_agrees.within.bind fun header s2 headed => ?_
  -- the channel leaves the counters of the link alone
  obtain ⟨headed, link2⟩ := onChannel_ok headed
  have link2 : s2.link = s.link := link2.trans link1
  have length_header := (Channel.readExactly_ok headed).1
  have small := announcedLength_lt length_header
  have room2 := (Channel.readExact_charges short _).room room1 headed
  rw [checkedLength_eq length_header, pure_bind]
  refine .get_bind ?_
  dsimp only
  by_cases bad : announcedLength header = 0 ∨ announcedLength header > s2.link.maxData
  · rw [if_pos bad, if_pos bad]
    exact (checkedRefuseLength_agrees (by rw [link2]; omega) _).bind fun _ _ refused =>
      absurd refused (refuseLength_ne_ok _ _ _)
  rw [if_neg bad, if_neg bad, add_eq (by omega), pure_bind]
  have rested_agrees := Channel.checkedReadExact_agrees room2 (announcedLength_le length_header) p.intercharacter
  refine rested_agrees.within.bind fun rest s3 rested => ?_
  obtain ⟨rested, link3⟩ := onChannel_ok rested
  have parts : Packet.Parts header rest := ⟨length_header, (Channel.readExactly_ok rested).1⟩
  exact checkedTakePacket_agrees parts (by rw [link3, link2]; omega) acceptDamaged

theorem checkedReadStray_agrees (room : s.Room m 1) : Agrees s (checkedReadStray m) readStray := by
  refine (Agrees.ofStep parameters).bind fun p s0 known => ?_
  obtain ⟨-, rfl⟩ := Prod.mk.inj known
  have short : packetHeaderLength - 1 ≤ Channel.mostWanted := by decide
  have headed_agrees := Channel.checkedReadExact_agrees room.channel short p.intercharacter
  refine headed_agrees.within.bind fun header s1 headed => ?_
  obtain ⟨headed, -⟩ := onChannel_ok headed
  have length_header := (Channel.readExactly_ok headed).1
  have small := announcedLength_lt length_header
  have room1 := (Channel.readExact_charges short _).room room.channel headed
  have wide := m.wide
  rw [checkedLength_eq length_header, pure_bind]
  refine .get_bind (.ite (fun _ => ?_) fun _ => .pure _)
  rw [add_eq (by omega), pure_bind]
  exact (Channel.checkedReadExact_agrees room1 (announcedLength_le length_header) _).within.bind fun _ _ _ => .pure _

theorem checkedEstimate_eq {σ : Type} {t : Linked} {p : Packet} {crc : UInt16}
    (h : (receivePacket false).run s = (.ok (p, crc), t)) :
    checkedEstimate m p = (pure ((p.sequence.toNat + 1) * p.data.length) : Checked σ Nat) := by
  obtain ⟨-, -, -, -, short, -⟩ := receivePacket_ok h
  have wide := m.wide
  have sequence := p.sequence.toNat_lt
  have size := s.link.packetSize.toNat_lt
  have product : (p.sequence.toNat + 1) * p.data.length ≤ 256 * 65536 := Nat.mul_le_mul (by omega) (by omega)
  rw [checkedEstimate, add_eq (by omega), pure_bind, mul_eq (by omega)]

/-- **No reception traps**, as long as there is room for those before it and for itself. -/
theorem receiving_agrees {receptions : List Bool} (room : s.Room m (receptions.length + 1)) (acceptDamaged : Bool) :
    Agrees (s.receiving receptions) (checkedReceivePacket m acceptDamaged) (receivePacket acceptDamaged) :=
  checkedReceivePacket_agrees room.receiving acceptDamaged

end Linked

/-- **Titles fail to encode or fit lengths of one byte.** -/
theorem Uid.encode_fits (text : String) :
    (∃ e, Uid.encode text = .error e) ∨ ∃ bytes, Uid.encode text = .ok bytes ∧ bytes.length + 2 ≤ 0xFF := by
  cases encoded : Uid.encode text with
  | error e => exact .inl ⟨e, rfl⟩
  | ok bytes =>
    have short := Uid.length_encode_le encoded
    exact .inr ⟨bytes, rfl, by omega⟩

open Checked in
/-- **No received bytes trap the client.** On a machine of 32 bits or more and for every run of bytes that it holds:
reading packets off the line gives what it gives without traps, as often as counters and memory have room for it; so
does taking an APDU apart, alone or followed by the check of what it answers and by opening, under any key and vector;
so do the parsers of bodies, responses and procedures, from any position. -/
theorem Checked.never_traps (m : Machine) (b : Held m) (s : Linked) :
    (∀ receptions acceptDamaged, s.Room m (receptions.length + 1) →
      (Linked.checkedReceivePacket m acceptDamaged).run (s.receiving receptions) =
        some ((Linked.receivePacket acceptDamaged).run (s.receiving receptions))) ∧
    (s.Room m 1 → (Linked.checkedReadStray m).run s = some (Linked.readStray.run s)) ∧
    (∀ packet crc t, (Linked.receivePacket false).run s = (.ok (packet, crc), t) →
      outcome (Linked.checkedEstimate m packet) = some (.ok ((packet.sequence.toNat + 1) * packet.data.length))) ∧
    (∀ maxSize, outcome (b.apdu maxSize) = some (Acse.Incoming.parse b.bytes maxSize)) ∧
    (∀ maxSize p id eax auth, outcome (b.response maxSize p id eax auth) = some (do
      let a ← Acse.Incoming.parse b.bytes maxSize
      a.verifyResponse p id
      a.openBody eax auth)) ∧
    (∀ maxSize a, Acse.Incoming.parse b.bytes maxSize = .ok a → ∀ eax auth,
      outcome (openBody m a eax auth) = some (a.openBody eax auth)) ∧
    (∀ text, (∃ e, Uid.encode text = .error e) ∨ ∃ bytes, Uid.encode text = .ok bytes ∧ bytes.length + 2 ≤ 0xFF) ∧
    outcome (b.services (b.bytes.length + 1)) = some (Epsem.split b.bytes) ∧
    (∀ p ≤ b.bytes.length, b.ParsersFollow p) ∧
    outcome (procedureResponse b.bytes) = some (ProcedureResponse.ofTable b.bytes) := by
  refine ⟨fun receptions acceptDamaged room => Linked.receiving_agrees room acceptDamaged,
    fun room => Linked.checkedReadStray_agrees room, fun packet crc t received => ?_,
    fun maxSize => (Held.follows_apdu (Nat.zero_le _)).outcome_eq,
    b.outcome_response, fun maxSize a parsed eax auth => ?_, Uid.encode_fits,
    (Held.follows_services (Nat.zero_le _) (by omega) (by omega)).outcome_eq, fun p => Held.parsersFollow, ?_⟩
  · rw [Linked.checkedEstimate_eq received]
    rfl
  · rw [openBody_eq parsed]
    exact outcome_ofExcept _
  · rw [procedureResponse_eq]
    exact outcome_ofExcept _

/-- A machine of 32 bits. -/
def Machine.ofWord : Machine := ⟨0xFFFFFFFF, Nat.le_refl _⟩

/-- An APDU in the clear with a device class and one service. -/
def Held.classed : Held Machine.ofWord where
  bytes := [0x60, 0x0D, 0xBE, 0x0B, 0x28, 0x09, 0x81, 0x07, 0x90, 0x41, 0x42, 0x20, 0x20, 0x01, 0x00]
  fits := by decide

/-- What is taken out of it. -/
def Acse.Incoming.classed : Acse.Incoming where
  control := some { mode := .clear, response := .always, edClass := true }
  bodyHeader := [0xBE, 0x0B, 0x28, 0x09, 0x81, 0x07, 0x90]
  body := [0x41, 0x42, 0x20, 0x20, 0x01, 0x00]

/-- A link that hears a packet behind garbage. -/
def Linked.hearsPacket : Linked where
  channel :=
    { line := { isClosed := false, arrivals := [(0, .data [0x55, 0xEE, 0x00, 0x00, 0x00, 0x00, 0x01, 0x20, 0x13, 0x10])] }
      connected := true }
  link := .ofParameters (.ofConfig {})

theorem Checked.never_traps_classed :
    Linked.hearsPacket.Room Machine.ofWord 1 ∧
    (Linked.checkedReceivePacket Machine.ofWord false).run Linked.hearsPacket =
      some ((Linked.receivePacket false).run Linked.hearsPacket) ∧
    (Linked.checkedReadStray Machine.ofWord).run Linked.hearsPacket = some (Linked.readStray.run Linked.hearsPacket) ∧
    (∃ packet crc t, (Linked.receivePacket false).run Linked.hearsPacket = (.ok (packet, crc), t) ∧
      outcome (Linked.checkedEstimate Machine.ofWord packet) = some (.ok 1)) ∧
    Acse.Incoming.parse Held.classed.bytes 64 = .ok .classed ∧
    outcome (openBody Machine.ofWord .classed none .unknown) =
      some (.ok ([0x01, 0x00], { Acse.Incoming.classed with edClass := some [0x41, 0x42, 0x20, 0x20] })) ∧
    Held.classed.ParsersFollow 13 := by
  obtain ⟨packets, stray, estimate, -, -, opening, -, -, parsers, -⟩ :=
    never_traps Machine.ofWord Held.classed Linked.hearsPacket
  have capacity : Ring.empty.capacity = 256 := List.length_replicate
  have ring : Linked.hearsPacket.channel.input.Fits Machine.ofWord := by
    rw [Ring.Fits, show Linked.hearsPacket.channel.input = Ring.empty from rfl, capacity]
    decide
  have room : Linked.hearsPacket.Room Machine.ofWord 1 := ⟨by decide, ⟨ring, by decide, by decide, by decide⟩⟩
  have heard : ((Linked.receivePacket false).run Linked.hearsPacket).1 = .ok (⟨0, ⟨0⟩, 0, [0x20]⟩, 0x1013) := by
    decide +kernel
  have received := Step.run_eq_of_fst heard
  have parsed : Acse.Incoming.parse Held.classed.bytes 64 = .ok .classed := by decide +kernel
  exact ⟨room, packets [] false room, stray room, ⟨_, _, _, received, estimate _ _ _ received⟩, parsed,
    opening 64 .classed parsed none .unknown, parsers 13 (by decide)⟩

end Metering
