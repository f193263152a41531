import Mathlib.Data.List.Chain
import Metering.Proofs.Feed
import Metering.Proofs.Pace
import Metering.Proofs.Receive

set_option autoImplicit false

/-! # Packets on their way

A packet that is on its way to an undisturbed link is read in three parts, the start byte, the header
and what is left, and each read has its own timeout. Where the channel allows a silence within a read,
a line without gaps never makes a packet late (`Transit.inTime_of_gapless`). Where it allows none, all
of the header has to come within one timeout of the start byte, and all that is left within one timeout
of the header (`Transit.Prompt`). `Linked.receivePacket_iff` says that nothing else decides it. -/

namespace Metering

open Channel Timed

/-- A packet on its way: the garbage in front of it, its start byte, its header, its data with the
checksum, and what comes behind it. -/
structure Transit where
  garbage : List Timed
  start : Timed
  header : List Timed
  rest : List Timed
  more : List Timed

namespace Transit

variable (a : Transit)

/-- The bytes of the packet. -/
def packet : List Timed := a.start :: (a.header ++ a.rest)

/-- The moment from which the start byte can be had, when it is waited for. -/
def started (now : Moment) : Nat := latest now (a.garbage ++ [a.start])

/-- The moment from which the header can be had. -/
def headed (now : Moment) : Nat := latest (a.started now) a.header

/-- Each byte of the packet follows the one before within less than a timeout. -/
def Gapless (timeout : Duration) : Prop := a.packet.IsChain fun x y => y.1 < x.1 + timeout

/-- The header comes within one timeout, and so does what is left. -/
structure Prompt (timeout : Duration) (now : Moment) : Prop where
  header : ∀ x ∈ a.header, x.1 ≤ a.started now + timeout
  rest : ∀ x ∈ a.rest, x.1 ≤ a.headed now + timeout

/-- The reads of the header and of what is left are in time, where the channel allows a silence. -/
structure InTime (silence timeout : Duration) (now : Moment) : Prop where
  header : Timed.InTime ((Patience.each timeout).renew silence) (a.started now + timeout) (a.started now) a.header
  rest : Timed.InTime ((Patience.each timeout).renew silence) (a.headed now + timeout) (a.headed now) a.rest

/-- The packet is what a link is about to hear: of a size that was agreed on, and its start byte comes
before the timeout for it. -/
structure Brings (p : Packet) (s : Linked) : Prop where
  due : s.channel.due = a.garbage ++ (a.packet ++ a.more)
  noise : ∀ y ∈ a.garbage, y.2 ≠ startByte
  encoded : p.encode = .ok (a.packet.map (·.2))
  header : a.header.length = packetHeaderLength - 1
  fits : p.data.length ≤ s.link.maxData
  timely : ∀ y ∈ a.garbage ++ [a.start], y.1 ≤ s.channel.now + s.link.parameters.acknowledgement

/-! ## Gaps -/

variable {a} {timeout silence : Duration} {now : Moment}

/-- A channel that allows no silence within a read gives each read one timeout. -/
theorem inTime_zero : a.InTime 0 timeout now ↔ a.Prompt timeout now := by
  have later (n : Nat) : max n (n + timeout) = n + timeout := Nat.max_eq_right (Nat.le_add_right _ _)
  have whole {n : Nat} {bytes : List Timed} :
      Timed.InTime ((Patience.each timeout).renew 0) (n + timeout) n bytes ↔ ∀ x ∈ bytes, x.1 ≤ n + timeout := by
    rw [inTime_const fun _ => rfl, later]
  constructor
  · rintro ⟨header, rest⟩
    exact ⟨whole.1 header, whole.1 rest⟩
  · rintro ⟨header, rest⟩
    exact ⟨whole.2 header, whole.2 rest⟩

/-- Without gaps no byte is late, once the byte before has come. -/
theorem inTime_chain {timeout : Nat} {x : Timed} {bytes : List Timed} (h : (x :: bytes).IsChain fun x y => y.1 < x.1 + timeout)
    {deadline now : Nat} (come : x.1 ≤ now) (renewed : timeout = 0 ∨ deadline = now + timeout) :
    Timed.InTime ((Patience.each timeout).renew timeout) deadline now bytes := by
  induction bytes generalizing x deadline now with
  | nil => trivial
  | cons y bytes ih =>
    obtain ⟨gap, rest⟩ := List.isChain_cons_cons.1 h
    replace gap : y.1 < x.1 + timeout := gap
    refine ⟨?_, ih rest (Nat.le_max_right now y.1) ?_⟩
    · rcases renewed with none | renewed <;> omega
    · by_cases none : timeout = 0
      · exact .inl none
      · exact .inr (if_neg none)

/-- **Where the channel allows the silence that the link waits for**, a line without gaps is in time. -/
theorem inTime_of_gapless (h : a.Gapless timeout) : a.InTime timeout timeout now := by
  have joined : ((a.start :: a.header) ++ a.rest).IsChain fun x y => y.1 < x.1 + timeout := h
  obtain ⟨front, -, -⟩ := List.isChain_append.1 joined
  refine ⟨inTime_chain front (le_latest_of_mem (by simp)) (.inr rfl), ?_⟩
  -- the byte in front of the rest is the last one of the header, or the start byte
  obtain ⟨last, before, hlast⟩ : ∃ last before, a.start :: a.header = before ++ [last] :=
    ⟨_, _, (List.dropLast_append_getLast (List.cons_ne_nil _ _)).symm⟩
  rw [hlast, List.append_assoc, List.singleton_append] at joined
  have tail : (last :: a.rest).IsChain fun x y => y.1 < x.1 + timeout := (List.isChain_append.1 joined).2.1
  refine inTime_chain tail ?_ (.inr rfl)
  have mem : last ∈ a.garbage ++ [a.start] ++ a.header := by
    rw [List.append_assoc, List.singleton_append, hlast]
    simp
  have come : last.1 ≤ latest now (a.garbage ++ [a.start] ++ a.header) := le_latest_of_mem mem
  rwa [latest_append] at come

end Transit

/-! ## The parts of an encoded packet -/

namespace Packet

/-- The header of a packet, behind its start byte. -/
def headerBytes (p : Packet) : Bytes :=
  [p.identity, p.control.byte, p.sequence] ++ Bytes.bigEndian 2 p.data.length

/-- What follows the header. -/
def restBytes (p : Packet) : Bytes := p.data ++ Bytes.littleEndian 2 (Crc.ofBytes p.body).toNat

theorem length_headerBytes (p : Packet) : p.headerBytes.length = packetHeaderLength - 1 := by
  rw [headerBytes, List.length_append, Bytes.length_bigEndian]
  rfl

theorem length_restBytes (p : Packet) : p.restBytes.length = p.data.length + 2 := by
  rw [restBytes, List.length_append, Bytes.length_littleEndian]

theorem encode_ok {p : Packet} {bytes : Bytes} (h : p.encode = .ok bytes) :
    bytes = startByte :: (p.headerBytes ++ p.restBytes) ∧ p.data.length ≤ 0xFFFF := by
  unfold encode at h
  split at h
  · cases h
  next short =>
    obtain rfl := Except.ok.inj h
    exact ⟨by simp [body, headerBytes, restBytes], Nat.le_of_not_lt short⟩

theorem announcedLength_headerBytes {p : Packet} (h : p.data.length ≤ 0xFFFF) :
    Linked.announcedLength p.headerBytes = p.data.length := by
  have field : (p.headerBytes.drop 3).take 2 = Bytes.bigEndian 2 p.data.length :=
    List.take_of_length_le (Nat.le_of_eq (Bytes.length_bigEndian 2 _))
  have size : Bytes.fieldSize 2 = 65536 := rfl
  rw [Linked.announcedLength, field, Bytes.ofBigEndian_bigEndian, size]
  omega

theorem take_restBytes (p : Packet) : p.restBytes.take p.data.length = p.data := List.take_left

theorem drop_restBytes (p : Packet) :
    p.restBytes.drop p.data.length = Bytes.littleEndian 2 (Crc.ofBytes p.body).toNat := List.drop_left

theorem body_eq (p : Packet) : [startByte] ++ p.headerBytes ++ p.data = p.body := by
  simp [body, headerBytes]

end Packet

namespace Transit.Brings

variable {a : Transit} {p : Packet} {s : Linked} (h : a.Brings p s)

include h

theorem parts : a.start.2 = startByte ∧ a.header.map (·.2) = p.headerBytes ∧ a.rest.map (·.2) = p.restBytes ∧
    p.data.length ≤ 0xFFFF := by
  obtain ⟨whole, short⟩ := Packet.encode_ok h.encoded
  rw [packet, List.map_cons, List.map_append, List.cons.injEq] at whole
  have length : (a.header.map (·.2)).length = p.headerBytes.length := by
    rw [List.length_map, h.header, p.length_headerBytes]
  obtain ⟨header, rest⟩ := List.append_inj whole.2 length
  exact ⟨whole.1, header, rest, short⟩

theorem rest_length : a.rest.length = p.data.length + 2 := by
  rw [← p.length_restBytes, ← h.parts.2.2.1, List.length_map]

end Transit.Brings

/-! ## Reading a packet in time -/

namespace Channel

/-- A part of what is to come is read exactly if it is in time. -/
theorem readPart_run {c : Channel} {timeout : Duration} {count : Nat} {part more : List Timed} (h : c.Undisturbed)
    (due : c.due = since c.now (part ++ more)) (length : part.length = count)
    (silence : c.intercharacter = 0 ∨ c.intercharacter = timeout) :
    (Timed.InTime ((Patience.each timeout).renew c.intercharacter) (c.now + timeout) c.now part →
      ∃ c', (readExact count timeout).run c = (.ok (part.map (·.2)), c') ∧ c'.Undisturbed ∧
        c'.due = since c'.now more ∧ c'.intercharacter = c.intercharacter ∧ c'.now = latest c.now part) ∧
    (¬ Timed.InTime ((Patience.each timeout).renew c.intercharacter) (c.now + timeout) c.now part →
      ∃ k c', (readExact count timeout).run c = (.error (.readTimeout k), c')) := by
  have settled : (Patience.each timeout).renew c.intercharacter ((Patience.each timeout).first c.now) c.now =
      (Patience.each timeout).first c.now := by
    rcases silence with none | same
    · rw [none]
      rfl
    · rw [same]
      exact ite_self _
  obtain ⟨good, bad⟩ := readFirst_run h.toUnhindered due length settled
  rw [extend_of_undisturbed h, limit_of_undisturbed h] at good bad
  refine ⟨fun timely => ?_, bad⟩
  obtain ⟨c', read, later, due', now⟩ := good timely
  exact ⟨c', read, later.undisturbed h, due', later.intercharacter_eq, now⟩

end Channel

namespace Linked

variable {α : Type}

theorem onChannel_run {x : Step Channel α} {s : Linked} {r : Except Fault α} {c : Channel}
    (h : x.run s.channel = (r, c)) : (onChannel x).run s = (r, { s with channel := c }) :=
  Step.run_within_eq.2 ⟨c, h, rfl⟩

/-- What becomes of a packet whose parts were read. -/
theorem receivePacket_parts {s : Linked} {acceptDamaged : Bool} {c1 c2 c3 : Channel} {start : UInt8} {length : Nat}
    {header rest : Bytes}
    (started : (readStart [startByte] s.link.parameters.acknowledgement).run s.channel = (.ok start, c1))
    (headed : (readExact (packetHeaderLength - 1) s.link.parameters.intercharacter).run c1 = (.ok header, c2))
    (announced : announcedLength header = length) (some : length ≠ 0) (fits : length ≤ s.link.maxData)
    (heard : (readExact (length + 2) s.link.parameters.intercharacter).run c2 = (.ok rest, c3)) :
    (receivePacket acceptDamaged).run s =
      if .ofNat (Bytes.ofLittleEndian (rest.drop length)) ≠ Crc.ofBytes ([startByte] ++ header ++ rest.take length) ∧
          !acceptDamaged then
        (.error (.frameInvalid .checksum),
          { s with channel := c3, link.statistics.checksumErrors := s.link.statistics.checksumErrors + 1 })
      else (do
        turnAround
        return (Packet.read header (rest.take length), .ofNat (Bytes.ofLittleEndian (rest.drop length))) :
          Step Linked (Packet × UInt16)).run { s with channel := c3 } := by
  have known : parameters.run s = (.ok s.link.parameters, s) := rfl
  unfold receivePacket
  rw [Step.run_bind_of_ok known, Step.run_bind_of_ok (onChannel_run started),
    Step.run_bind_of_ok (onChannel_run headed), Step.run_get_bind]
  dsimp only
  rw [announced, if_neg (not_or.2 ⟨some, Nat.not_lt.2 fits⟩), Step.run_bind_of_ok (onChannel_run heard)]
  dsimp only
  by_cases wrong : .ofNat (Bytes.ofLittleEndian (rest.drop length)) ≠ Crc.ofBytes ([startByte] ++ header ++ rest.take length) ∧
    !acceptDamaged
  · rw [if_pos wrong, if_pos wrong]
    rfl
  · rw [if_neg wrong, if_neg wrong]
    rfl

/-- **A packet on its way is returned** exactly if it carries data and the reads of its header and of
what is left are in time. -/
theorem receivePacket_iff {s : Linked} {p : Packet} {a : Transit} (acceptDamaged : Bool)
    (h : s.channel.Undisturbed) (brings : a.Brings p s)
    (silence : s.channel.intercharacter = 0 ∨ s.channel.intercharacter = s.link.parameters.intercharacter) :
    (∃ crc s', (receivePacket acceptDamaged).run s = (.ok (p, crc), s')) ↔
      p.data ≠ [] ∧ a.InTime s.channel.intercharacter s.link.parameters.intercharacter s.channel.now := by
  obtain ⟨isStart, headerBytes, restBytes, short⟩ := brings.parts
  generalize htimeout : s.link.parameters.intercharacter = timeout at silence ⊢
  -- the start byte
  have due : s.channel.due = since s.channel.now (a.garbage ++ a.start :: (a.header ++ (a.rest ++ a.more))) := by
    rw [← due_since, brings.due, Transit.packet, List.cons_append, List.append_assoc]
  have noise : ∀ y ∈ a.garbage, y.2 ∉ [startByte] := fun y hy => by simpa using brings.noise y hy
  have found : a.start.2 ∈ [startByte] := by rw [isStart]; exact List.mem_singleton_self _
  have timely : ∀ y ∈ a.garbage ++ [a.start],
      y.1 ≤ max s.channel.now (s.channel.limit (s.channel.now + s.link.parameters.acknowledgement)) := by
    rw [limit_of_undisturbed h, Nat.max_eq_right (Nat.le_add_right _ _)]
    exact brings.timely
  obtain ⟨c1, started, later1, due1, now1⟩ := (readStart_run h.toUnhindered due noise found).1 timely
  replace now1 : c1.now = a.started s.channel.now := now1
  have same1 := later1.intercharacter_eq
  have known : parameters.run s = (.ok s.link.parameters, s) := rfl
  unfold receivePacket
  rw [Step.run_bind_of_ok known, Step.run_bind_of_ok (onChannel_run started), htimeout]
  -- the header
  obtain ⟨good1, bad1⟩ := readPart_run (later1.undisturbed h) due1 brings.header (same1.symm ▸ silence)
  rw [same1, now1] at good1 bad1
  by_cases onTime : Timed.InTime ((Patience.each timeout).renew s.channel.intercharacter)
      (a.started s.channel.now + timeout) (a.started s.channel.now) a.header
  case neg =>
    obtain ⟨k, c2, late⟩ := bad1 onTime
    rw [Step.run_bind_of_error (onChannel_run late)]
    exact ⟨fun ⟨_, _, run⟩ => (nomatch (Prod.mk.inj run).1), fun right => absurd right.2.header onTime⟩
  obtain ⟨c2, read2, undisturbed2, due2, same2, now2⟩ := good1 onTime
  rw [headerBytes] at read2
  rw [Step.run_bind_of_ok (onChannel_run read2), Step.run_get_bind]
  dsimp only
  rw [Packet.announcedLength_headerBytes short]
  by_cases empty : p.data = []
  · -- a packet without data is refused
    rw [if_pos (.inl (by rw [empty]; rfl))]
    refine ⟨fun ⟨crc, s', run⟩ => ?_, fun right => absurd empty right.1⟩
    obtain ⟨_, _, refused, -⟩ := Step.run_bind_ok.1 run
    exact absurd refused (refuseLength_ne_ok _ _ _)
  have some : p.data.length ≠ 0 := fun none => empty (List.length_eq_zero_iff.1 none)
  rw [if_neg (not_or.2 ⟨some, Nat.not_lt.2 brings.fits⟩)]
  -- what is left
  replace now2 : c2.now = a.headed s.channel.now := now2
  obtain ⟨good2, bad2⟩ := readPart_run undisturbed2 due2 brings.rest_length (same2.symm ▸ silence)
  rw [same2, now2] at good2 bad2
  by_cases inTime : Timed.InTime ((Patience.each timeout).renew s.channel.intercharacter)
      (a.headed s.channel.now + timeout) (a.headed s.channel.now) a.rest
  case neg =>
    obtain ⟨k, c3, late⟩ := bad2 inTime
    rw [Step.run_bind_of_error (onChannel_run late)]
    exact ⟨fun ⟨_, _, run⟩ => (nomatch (Prod.mk.inj run).1), fun right => absurd right.2.rest inTime⟩
  obtain ⟨c3, read3, undisturbed3, -⟩ := good2 inTime
  rw [restBytes] at read3
  rw [Step.run_bind_of_ok (onChannel_run read3)]
  dsimp only
  rw [p.take_restBytes, p.drop_restBytes, Crc.ofLittleEndian_value, p.body_eq, if_neg (fun wrong => wrong.1 rfl)]
  obtain ⟨c4, slept, -⟩ := sleep_run undisturbed3.toUnhindered (d := s.link.parameters.turnaround)
    (by rw [capped, undisturbed3.deadline])
  have turned : turnAround.run { s with channel := c3 } = (.ok (), { s with channel := c4 }) := by
    have s3 := @onChannel_run _ _ { s with channel := c3 } _ _ slept
    exact s3
  refine ⟨fun _ => ⟨empty, onTime, inTime⟩, fun _ => ⟨Crc.ofBytes p.body, { s with channel := c4 }, ?_⟩⟩
  exact Step.run_bind_of_ok turned

end Linked

end Metering
