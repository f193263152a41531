import Metering.Proofs.Turns

set_option autoImplicit false

/-! # Packets and their bytes

Encoding and decoding undo each other, and a run of bytes decodes exactly if it is the encoding of a
packet. What decoding asks for comes first (`Packet.decode_cases`): a start byte, the announced length
and the good register, which one trailer alone reaches. A packet that is read off the line is checked
differently, by comparing its trailer with the checksum of what is in front of it, but both checks
pass the same frames (`Crc.validate_iff`), so reading a packet comes to decoding the frame that was
taken (`Linked.receivePacket_decode`). -/

namespace Metering

namespace Packet

/-! ## What decoding asks for -/

/-- What is long enough and starts as a frame is cut into its parts. -/
theorem exists_frameOf {bytes : Bytes} (long : packetOverhead ≤ bytes.length) (start : bytes.getD 0 0 = startByte) :
    ∃ header rest, bytes = frameOf header rest ∧ header.length = packetHeaderLength - 1 := by
  cases bytes with
  | nil => exact absurd long (by decide)
  | cons first bytes =>
    obtain rfl : first = startByte := start
    refine ⟨bytes.take (packetHeaderLength - 1), bytes.drop (packetHeaderLength - 1), ?_, ?_⟩
    · rw [frameOf, List.append_assoc, List.take_append_drop]
      rfl
    · simp only [packetOverhead, List.length_cons] at long
      simp only [packetHeaderLength, List.length_take]
      omega

/-- **Decoding gives a packet or refuses the frame**: a packet only if the frame has the right parts and
leaves the register good. -/
theorem decode_cases (bytes : Bytes) :
    (∃ header rest, bytes = frameOf header rest ∧ Parts header rest ∧
      (Crc.start.update bytes).validate = .ok () ∧
      decode bytes = .ok (read header (rest.take (Linked.announcedLength header)))) ∨
    ∃ cause, decode bytes = .error (.frameInvalid cause) := by
  by_cases short : bytes.length < packetOverhead
  · refine .inr ⟨.packetShort bytes.length, ?_⟩
    unfold decode
    rw [if_pos short]
    rfl
  by_cases start : bytes.getD 0 0 = startByte
  case neg =>
    refine .inr ⟨.packetStart (bytes.getD 0 0) startByte, ?_⟩
    unfold decode
    rw [if_neg short, if_pos start]
    rfl
  obtain ⟨header, rest, rfl, hheader⟩ := exists_frameOf (Nat.not_lt.1 short) start
  by_cases size : (frameOf header rest).length = Linked.announcedLength header + packetOverhead
  case neg =>
    refine .inr ⟨.packetLength (Linked.announcedLength header) (frameOf header rest).length, ?_⟩
    unfold decode
    rw [if_neg short, if_neg (not_not_intro start), announced_frameOf rest hheader, if_pos size]
    rfl
  have parts : Parts header rest := by
    refine ⟨hheader, ?_⟩
    rw [length_frameOf rest hheader] at size
    simp only [packetHeaderLength, packetOverhead] at size
    omega
  have decoded := decode_of_parts parts
  obtain checked | ⟨cause, checked⟩ := (Crc.start.update (frameOf header rest)).validate_cases
  · rw [checked] at decoded
    exact .inl ⟨header, rest, rfl, parts, checked, decoded⟩
  · rw [checked] at decoded
    exact .inr ⟨cause, decoded⟩

/-! ## There and back -/

theorem parts_of_short {p : Packet} (short : p.data.length ≤ 0xFFFF) : Parts p.headerBytes p.restBytes where
  length_header := p.length_headerBytes
  length_rest := by rw [p.length_restBytes, announcedLength_headerBytes short]

/-- What was encoded is decoded. -/
theorem decode_of_encode {p : Packet} {bytes : Bytes} (h : p.encode = .ok bytes) : decode bytes = .ok p := by
  obtain ⟨rfl, short⟩ := encode_ok h
  have whole : startByte :: (p.headerBytes ++ p.restBytes) = frameOf p.headerBytes p.restBytes := rfl
  have sent : frameOf p.headerBytes p.restBytes = p.body ++ (Crc.start.update p.body).valueBytes := by
    rw [← p.body_eq, frameOf, restBytes, List.append_assoc, List.append_assoc, List.append_assoc, List.append_assoc]
    rfl
  have checked : (Crc.start.update (frameOf p.headerBytes p.restBytes)).validate = .ok () := by
    rw [sent, Crc.update_append, Crc.validate, if_pos (Crc.update_valueBytes _)]
  rw [whole, decode_of_parts (parts_of_short short), checked, announcedLength_headerBytes short, take_restBytes]
  rfl

/-- The bytes in front of the checksum of a packet that was read are those it was read from. -/
theorem body_read {header data : Bytes} (hheader : header.length = packetHeaderLength - 1)
    (hdata : data.length = Linked.announcedLength header) : (read header data).body = frameOf header data := by
  obtain ⟨identity, control, sequence, high, low, rfl⟩ := exists_fields hheader
  have field : Bytes.bigEndian 2 data.length = [high, low] := by
    rw [hdata]
    exact Bytes.bigEndian_ofBigEndian [high, low]
  have opened : (read [identity, control, sequence, high, low] data).body =
      [startByte, identity, control, sequence] ++ Bytes.bigEndian 2 data.length ++ data := rfl
  rw [opened, field]
  rfl

/-- What is decoded was encoded. -/
theorem encode_of_decode {p : Packet} {bytes : Bytes} (h : decode bytes = .ok p) : p.encode = .ok bytes := by
  obtain ⟨header, rest, rfl, parts, checked, decoded⟩ | ⟨cause, refused⟩ := decode_cases bytes
  case inr =>
    rw [refused] at h
    cases h
  obtain rfl := Except.ok.inj (decoded.symm.trans h)
  obtain ⟨x, y, -, whole⟩ := parts.exists_trailer
  have body := body_read parts.length_header parts.length_take
  have small : Linked.announcedLength header < 65536 := by
    have bound := Bytes.ofBigEndian_lt ((header.drop 3).take 2)
    have size : ((header.drop 3).take 2).length = 2 := by
      rw [List.length_take, List.length_drop, parts.length_header]
      decide
    rwa [size] at bound
  have short : ¬ (read header (rest.take (Linked.announcedLength header))).data.length > 0xFFFF := by
    show ¬ (rest.take (Linked.announcedLength header)).length > 0xFFFF
    rw [parts.length_take]
    omega
  rw [whole, Crc.validate_iff, Crc.ofLittleEndian_eq_iff] at checked
  rw [whole, checked, encode, if_neg short, body]

end Packet

/-! ## Reading a packet off the line -/

namespace Linked

/-- A frame is taken off the line, up to the check of its checksum: the start byte, a header that
announces data but no more than was agreed on, and as many bytes as it announces with the checksum. -/
structure Gathers (s : Linked) (header rest : Bytes) (c : Channel) : Prop where
  some : announcedLength header ≠ 0
  fits : announcedLength header ≤ s.link.maxData
  reads : ∃ start c1 c2,
    (Channel.readStart [startByte] s.link.parameters.acknowledgement).run s.channel = (.ok start, c1) ∧
    (Channel.readExact (packetHeaderLength - 1) s.link.parameters.intercharacter).run c1 = (.ok header, c2) ∧
    (Channel.readExact (announcedLength header + 2) s.link.parameters.intercharacter).run c2 = (.ok rest, c)

/-- **Reading a packet comes to decoding the frame** that was taken off the line. -/
theorem receivePacket_decode {s : Linked} {header rest : Bytes} {c : Channel} (gathered : s.Gathers header rest c) :
    (receivePacket false).run s =
      match Packet.decode (Packet.frameOf header rest) with
      | .ok p => (do
          turnAround
          return (p, Crc.ofBytes p.body) : Step Linked (Packet × UInt16)).run { s with channel := c }
      | .error _ => (.error (.frameInvalid .checksum),
          { s with channel := c, link.statistics.checksumErrors := s.link.statistics.checksumErrors + 1 }) := by
  obtain ⟨some, fits, start, c1, c2, started, headed, rested⟩ := gathered
  have parts : Packet.Parts header rest :=
    ⟨(Channel.readExactly_ok headed).1, (Channel.readExactly_ok rested).1⟩
  have body : (Packet.read header (rest.take (announcedLength header))).body =
      Packet.frameOf header (rest.take (announcedLength header)) := Packet.body_read parts.length_header parts.length_take
  have check := Packet.validate_frameOf parts
  rw [receivePacket_parts started headed rfl some fits rested, Packet.decode_of_parts parts]
  rcases checked : (Crc.start.update (Packet.frameOf header rest)).validate with cause | ⟨⟩
  · have wrong : .ofNat (Bytes.ofLittleEndian (rest.drop (announcedLength header))) ≠
        Crc.ofBytes (Packet.frameOf header (rest.take (announcedLength header))) := by
      intro right
      rw [checked] at check
      cases check.2 right
    rw [if_pos ⟨wrong, rfl⟩]
    rfl
  · have right := check.1 checked
    rw [if_neg fun wrong => wrong.1 right, right, ← body]
    rfl

end Linked

/-- A link gathers the frame of a turn that comes, if its header announces what follows. -/
theorem Turn.Comes.gathers {turn : Turn} {s : Linked} (comes : turn.Comes s.link.parameters s.channel)
    (size : turn.rest.length = Linked.announcedLength turn.header + 2) (some : Linked.announcedLength turn.header ≠ 0)
    (fits : Linked.announcedLength turn.header ≤ s.link.maxData) :
    s.Gathers turn.header turn.rest (turn.heard s.link.parameters s.channel) where
  some := some
  fits := fits
  reads := ⟨startByte, _, _, comes.start_run.1, comes.header_run.1, size ▸ comes.rest_run.1⟩

/-! ## The codec -/

namespace Packet

/-- **The codec is exact.** Every packet that has an encoding is decoded from it, and from nothing else; the
register that decoding looks at is the good one exactly for the trailers that reading a packet off the line
takes for the checksum, which is CRC-16/X-25 of what is in front of them. -/
theorem codec_exact :
    (∀ p : Packet, p.data.length ≤ 0xFFFF → ∃ bytes, p.encode = .ok bytes ∧ decode bytes = .ok p) ∧
    (∀ (bytes : Bytes) (p : Packet), decode bytes = .ok p ↔ p.encode = .ok bytes) ∧
    (∀ (body : Bytes) (x y : UInt8),
      ((Crc.start.update (body ++ [x, y])).register = 0xF0B8 ↔
        UInt16.ofNat (Bytes.ofLittleEndian [x, y]) = Crc.ofBytes body) ∧
      ((Crc.start.update (body ++ [x, y])).validate = .ok () ↔
        UInt16.ofNat (Bytes.ofLittleEndian [x, y]) = Crc.ofBytes body)) ∧
    (∀ (s : Linked) (header rest : Bytes) (c : Channel), s.Gathers header rest c →
      (Linked.receivePacket false).run s =
        match decode (frameOf header rest) with
        | .ok p => (do
            Linked.turnAround
            return (p, Crc.ofBytes p.body) : Step Linked (Packet × UInt16)).run { s with channel := c }
        | .error _ => (.error (.frameInvalid .checksum),
            { s with channel := c, link.statistics.checksumErrors := s.link.statistics.checksumErrors + 1 })) ∧
    ∀ bytes : Bytes, (Crc.ofBytes bytes).toBitVec = Crc.x25 bytes := by
  refine ⟨fun p short => ?_, fun bytes p => ⟨encode_of_decode, decode_of_encode⟩, fun body x y => ?_,
    fun s header rest c gathered => Linked.receivePacket_decode gathered, Crc.ofBytes_x25⟩
  · have encoded : p.encode = .ok (p.body ++ Bytes.littleEndian 2 (Crc.ofBytes p.body).toNat) :=
      if_neg (Nat.not_lt.2 short)
    exact ⟨_, encoded, decode_of_encode encoded⟩
  · have checks := Crc.validate_iff body x y
    rw [Crc.validate_eq_ok_iff] at checks
    exact ⟨checks, Crc.validate_iff body x y⟩

/-- A packet that asks a meter to identify itself. -/
def identifyPacket : Packet := { identity := 0, control := ⟨0⟩, sequence := 0, data := [0x20] }

theorem ofBytes_identify : Crc.ofBytes [0xEE, 0, 0, 0, 0, 1, 0x20] = 0x1013 := by
  rw [Crc.ofBytes_eq]
  decide +kernel

theorem encode_identify : identifyPacket.encode = .ok [0xEE, 0, 0, 0, 0, 1, 0x20, 0x13, 0x10] := by
  have body : identifyPacket.body = [0xEE, 0, 0, 0, 0, 1, 0x20] := rfl
  rw [encode, if_neg (by decide), body, ofBytes_identify]
  rfl

/-- Its frame. -/
def identifyTurn : Turn := { header := [0, 0, 0, 0, 1], rest := [0x20, 0x13, 0x10], reply := ackByte }

/-- A link that hears it. -/
def hearsIdentify : Linked where
  channel :=
    { line := { isClosed := false, arrivals := [(0, .data (frameOf identifyTurn.header identifyTurn.rest))] }
      connected := true }
  link := .ofParameters (.ofConfig {})

theorem codec_exact_identify :
    decode [0xEE, 0, 0, 0, 0, 1, 0x20, 0x13, 0x10] = .ok identifyPacket ∧
    (Crc.start.update [0xEE, 0, 0, 0, 0, 1, 0x20, 0x13, 0x10]).register = 0xF0B8 ∧
    (Linked.receivePacket false).run hearsIdentify = (do
      Linked.turnAround
      return (identifyPacket, 0x1013) : Step Linked (Packet × UInt16)).run
        { hearsIdentify with channel := identifyTurn.heard hearsIdentify.link.parameters hearsIdentify.channel } := by
  obtain ⟨there, back, checks, read, -⟩ := codec_exact
  obtain ⟨bytes, encoded, decoded⟩ := there identifyPacket (by decide)
  obtain rfl := Except.ok.inj (encode_identify.symm.trans encoded)
  have comes : identifyTurn.Comes hearsIdentify.link.parameters hearsIdentify.channel := by decide +kernel
  have run := read hearsIdentify _ _ _ (comes.gathers rfl (by decide) (by decide))
  have frame : frameOf identifyTurn.header identifyTurn.rest = [0xEE, 0, 0, 0, 0, 1, 0x20, 0x13, 0x10] := rfl
  rw [frame, (back _ _).2 encoded] at run
  refine ⟨decoded, (checks [0xEE, 0, 0, 0, 0, 1, 0x20] 0x13 0x10).1.2 ?_, run.trans ?_⟩
  · rw [ofBytes_identify]
    rfl
  · rw [← ofBytes_identify]
    rfl

end Packet

end Metering
