import Mathlib.Data.List.Chain
import Metering.Proofs.Receive

set_option autoImplicit false

/-! # Messages put together from packets

A message that was received is the data of frames that stand in the bytes of the line in their
order. Between them stand garbage, damaged packets and repeats, none of which contributes to the
message: they pass (`Passes`) before the next new packet. `Linked.Delivers` is the run of packets
that were read new and acknowledged, and `Linked.Reassembled` says which of these runs give a
message. -/

namespace Metering

/-! ## Pieces of a stream -/

/-- The pieces stand in the bytes in their order, without overlap. -/
def InOrder : (pieces : List Bytes) → Bytes → Prop
  | [], _ => True
  | piece :: pieces, bytes => ∃ gap rest, bytes = gap ++ piece ++ rest ∧ InOrder pieces rest

namespace InOrder

variable {pieces : List Bytes} {x : Bytes}

theorem append (h : InOrder pieces x) (y : Bytes) : InOrder pieces (x ++ y) := by
  induction pieces generalizing x with
  | nil => trivial
  | cons piece pieces ih =>
    obtain ⟨gap, rest, rfl, more⟩ := h
    exact ⟨gap, rest ++ y, by simp, ih more⟩

theorem snoc (h : InOrder pieces x) (gap piece : Bytes) :
    InOrder (pieces ++ [piece]) (x ++ (gap ++ piece)) := by
  induction pieces generalizing x with
  | nil => exact ⟨x ++ gap, [], by simp, trivial⟩
  | cons first pieces ih =>
    obtain ⟨gap', rest, rfl, more⟩ := h
    exact ⟨gap', rest ++ (gap ++ piece), by simp, ih more⟩

end InOrder

/-! ## Packets delivered -/

namespace Linked

/-- The link has counted a packet. -/
def counted (p : Packet) (s : Linked) : Linked :=
  { s with
    link.statistics.received := s.link.statistics.received + 1
    link.incomingIdentity := p.identity }

/-- The link has accepted a packet, with `total` bytes of the message so far. -/
def accepted (f : Framed) (total : Nat) (s : Linked) : Linked :=
  { s with
    link.reports := s.link.reports ++ [total]
    link.lastReceived := some (f.toggle, f.checksum) }

/-- A new packet was read after tries that passed, acknowledged with one byte and accepted. -/
def Delivery (s : Linked) (f : Framed) (s' : Linked) : Prop :=
  ∃ t u v total, Passes s t ∧
    (receivePacket false).run t = (.ok (f.packet, f.checksum), u) ∧
    (∃ garbage, Channel.Observed t.channel u.channel (garbage ++ f.bytes) []) ∧
    (writeControl ackByte).run (counted f.packet u) = (.ok (), v) ∧
    (∃ echo, Channel.Observed u.channel v.channel echo [ackByte]) ∧
    s' = accepted f total v

/-- One packet after the other was delivered, each before the next was read. -/
inductive Delivers (s : Linked) : List Framed → Linked → Prop
  | none : Delivers s [] s
  | more {fs : List Framed} {f : Framed} {t u : Linked} (before : Delivers s fs t)
      (last : Delivery t f u) : Delivers s (fs ++ [f]) u

/-- The packets of a message of several: the first one says so, and the sequence numbers fall by
one. -/
structure Series (fs : List Framed) : Prop where
  multi : ∀ f ∈ fs, f.packet.control.isMulti = true
  first : ∀ f rest, fs = f :: rest →
    f.packet.control.isFirst = true ∧ ∀ g ∈ rest, g.packet.control.isFirst = false
  falling : fs.IsChain fun f g => f.packet.sequence.toNat = g.packet.sequence.toNat + 1

/-- From one state of the link to the other, `message` was received in the packets `fs`. -/
structure Reassembled (s : Linked) (message : Bytes) (fs : List Framed) (s' : Linked) : Prop where
  /-- Each packet was read, and acknowledged before the next was read. -/
  delivered : Delivers s fs s'
  /-- The frames stand in what was left from before and what was heard meanwhile. -/
  heard : ∃ heard, s'.channel.line.stream = s.channel.line.stream ++ heard ∧
    InOrder (fs.map Framed.bytes) (s.channel.input.toList ++ heard)
  message : message = fs.flatMap fun f => f.packet.data
  sizes : ∀ f ∈ fs, 1 ≤ f.packet.data.length ∧
    f.packet.data.length + packetOverhead ≤ s.link.packetSize.toNat
  /-- One packet alone, or a series down to sequence number zero. -/
  shape : (∃ f, fs = [f] ∧ f.packet.control.isMulti = false) ∨
    Series fs ∧ ∃ f, fs.getLast? = some f ∧ f.packet.sequence = 0
  /-- No packet has the toggle bit of the one before, from the last one accepted earlier on. -/
  toggles : ((s.link.lastReceived.map Prod.fst).toList ++ fs.map Framed.toggle).IsChain (· ≠ ·)
  last : s'.link.lastReceived = fs.getLast?.map fun f => (f.toggle, f.checksum)

/-! ## What the deliveries consume and leave -/

variable {s t u : Linked} {fs : List Framed} {f : Framed}

theorem Delivery.observed (h : Delivery t f u) :
    ∃ gap echo w, Channel.Observed t.channel u.channel (gap ++ f.bytes ++ echo) w := by
  obtain ⟨t1, u1, v, total, passes, -, ⟨garbage, read⟩, -, ⟨echo, sent⟩, rfl⟩ := h
  obtain ⟨⟨x, w, passed⟩, -⟩ := passes.talks
  have whole : Channel.Observed t.channel v.channel _ _ := (passed.trans read).trans sent
  refine ⟨x ++ garbage, echo, w ++ [] ++ [ackByte], ?_⟩
  rw [List.append_assoc x]
  exact whole

theorem Delivery.memory (h : Delivery t f u) :
    u.memory = (t.link.packetSize, some (f.toggle, f.checksum)) := by
  obtain ⟨t1, u1, v, total, passes, tried, -, sent, -, rfl⟩ := h
  have passed : t1.memory = t.memory := passes.talks.2
  have read : u1.memory = t1.memory := ((receivePacket_hears false).of_run tried).2
  have link : v.link = (counted f.packet u1).link := (writeControl_ok sent).2
  have size : v.link.packetSize = t.link.packetSize := by
    rw [link]
    exact (Prod.mk.inj (read.trans passed)).1
  exact Prod.ext size rfl

theorem Delivers.observed (h : Delivers s fs t) :
    ∃ x w, Channel.Observed s.channel t.channel x w ∧ InOrder (fs.map Framed.bytes) x := by
  induction h with
  | none => exact ⟨[], [], .of_eq rfl rfl, trivial⟩
  | more _ last ih =>
    obtain ⟨x, w, before, order⟩ := ih
    obtain ⟨gap, echo, w', delivered⟩ := last.observed
    refine ⟨_, _, before.trans delivered, ?_⟩
    rw [List.map_append, ← List.append_assoc]
    exact (order.snoc gap _).append echo

/-! ## Adding packets -/

/-- What holds while a message is put together and not spoiled. -/
structure Assembled (s : Linked) (fs : List Framed) (a : Assembly) (t : Linked) : Prop where
  delivered : Delivers s fs t
  message : a.message = fs.flatMap fun f => f.packet.data
  previous : a.previous = fs.getLast?.map fun f => f.packet.sequence
  memory : t.memory = (s.link.packetSize,
    (fs.getLast?.map fun f => (f.toggle, f.checksum)).or s.link.lastReceived)
  sizes : ∀ f ∈ fs, 1 ≤ f.packet.data.length ∧
    f.packet.data.length + packetOverhead ≤ s.link.packetSize.toNat
  series : Series fs
  /-- More packets are to come. -/
  going : ∀ f, fs.getLast? = some f → f.packet.isLast = false
  toggles : ((s.link.lastReceived.map Prod.fst).toList ++ fs.map Framed.toggle).IsChain (· ≠ ·)

namespace Assembled

variable {a : Assembly}

theorem start (s : Linked) : Assembled s [] {} s where
  delivered := .none
  message := rfl
  previous := rfl
  memory := rfl
  sizes := by simp
  series := ⟨by simp, by simp, .nil⟩
  going := by simp
  toggles := by cases s.link.lastReceived <;> simp

theorem toggle_ne_of_standing {x toggle : Bool} {crc crc' : UInt16}
    (h : standing (some (x, crc)) toggle crc' = .new) : x ≠ toggle := by
  rintro rfl
  unfold standing at h
  dsimp only at h
  rw [if_neg (by simp)] at h
  split at h <;> cases h

/-- The packet before the one that is to come is not the last one, so its number can fall. -/
theorem sequence_pos (h : Assembled s fs a t) {g : Framed} (last : fs.getLast? = some g) :
    g.packet.sequence ≠ 0 := by
  have notLast := h.going g last
  have multi := h.series.multi g (List.mem_of_getLast? last)
  simpa [Packet.isLast, multi] using notLast

/-- A packet that does not break the sequence stands alone, or makes the series longer. -/
theorem follows (h : Assembled s fs a t) (fits : breaksSequence a f.packet = false) :
    (fs = [] ∧ f.packet.control.isMulti = false) ∨
      f.packet.control.isMulti = true ∧ Series (fs ++ [f]) := by
  unfold breaksSequence at fits
  rw [h.previous] at fits
  by_cases further : f.packet.control.isMulti && !f.packet.control.isFirst
  · rw [if_pos further] at fits
    obtain ⟨multi, notFirst⟩ := Bool.and_eq_true_iff.1 further
    -- a packet in the middle: its number is one below that of the packet before
    cases last : fs.getLast? with
    | none => simp [last] at fits
    | some g =>
      have next : g.packet.sequence - 1 = f.packet.sequence := by simpa [last] using fits
      have falls : g.packet.sequence.toNat = f.packet.sequence.toNat + 1 := by
        have pos := h.sequence_pos last
        have positive : g.packet.sequence.toNat ≠ 0 := fun zero => pos (UInt8.toNat_inj.1 zero)
        rw [← next, UInt8.toNat_sub_of_le _ _ (UInt8.le_iff_toNat_le.2 (by simp; omega))]
        simp
        omega
      refine .inr ⟨multi, ?_, ?_, ?_⟩
      · intro g mem
        rcases List.mem_append.1 mem with old | new
        · exact h.series.multi g old
        · obtain rfl := List.mem_singleton.1 new
          exact multi
      · intro f0 rest eq
        cases fs with
        | nil => simp at last
        | cons f1 rest1 =>
          obtain ⟨rfl, rfl⟩ := List.cons.inj eq
          obtain ⟨first, others⟩ := h.series.first _ _ rfl
          refine ⟨first, fun g mem => ?_⟩
          rcases List.mem_append.1 mem with old | new
          · exact others g old
          · obtain rfl := List.mem_singleton.1 new
            simpa using notFirst
      · refine h.series.falling.append (.singleton f) ?_
        intro x hx y hy
        obtain rfl := Option.some.inj (last.symm.trans hx)
        obtain rfl := Option.some.inj hy
        exact falls
  · rw [if_neg further] at fits
    -- any other packet fits only as the first one
    have none : fs = [] := by simpa using fits
    subst none
    cases multi : f.packet.control.isMulti with
    | false => exact .inl ⟨rfl, rfl⟩
    | true =>
      have first : f.packet.control.isFirst = true := by simpa [multi] using further
      exact .inr ⟨rfl, by simpa using multi, by simp [first], .singleton f⟩

theorem toggles_snoc (h : Assembled s fs a t)
    (new : standing t.link.lastReceived f.toggle f.checksum = .new) :
    ((s.link.lastReceived.map Prod.fst).toList ++ (fs ++ [f]).map Framed.toggle).IsChain (· ≠ ·) := by
  have memory : t.link.lastReceived = _ := (Prod.mk.inj h.memory).2
  rw [List.map_append, ← List.append_assoc]
  refine h.toggles.append (.singleton f.toggle) ?_
  intro x hx y hy
  obtain rfl := Option.some.inj hy
  -- the toggle bit in front is that of the last accepted packet
  have known : ∃ crc, t.link.lastReceived = some (x, crc) := by
    rw [memory]
    rw [List.getLast?_append, List.getLast?_map] at hx
    cases last : fs.getLast? with
    | some g =>
      rw [last] at hx
      obtain rfl := Option.some.inj hx
      exact ⟨g.checksum, rfl⟩
    | none =>
      rw [last] at hx
      cases earlier : s.link.lastReceived with
      | none => simp [earlier] at hx
      | some known =>
        obtain ⟨toggle, crc⟩ := known
        obtain rfl : toggle = x := by simpa [earlier] using hx
        exact ⟨crc, rfl⟩
  obtain ⟨crc, known⟩ := known
  exact toggle_ne_of_standing (known ▸ new)

/-- What one more packet adds, whether or not it is the last one. -/
theorem sizes_snoc (h : Assembled s fs a t)
    (size : 1 ≤ f.packet.data.length ∧ f.packet.data.length + packetOverhead ≤ s.link.packetSize.toNat) :
    ∀ g ∈ fs ++ [f], 1 ≤ g.packet.data.length ∧
      g.packet.data.length + packetOverhead ≤ s.link.packetSize.toNat := by
  intro g mem
  rcases List.mem_append.1 mem with old | new
  · exact h.sizes g old
  · obtain rfl := List.mem_singleton.1 new
    exact size

theorem message_snoc (h : Assembled s fs a t) :
    (a.add f.packet).message = (fs ++ [f]).flatMap fun f => f.packet.data := by
  rw [List.flatMap_append, ← h.message]
  simp [Assembly.add]

/-- A packet that fits goes on with the message, unless it is the last one. -/
theorem add (h : Assembled s fs a t) (fits : breaksSequence a f.packet = false)
    (new : standing t.link.lastReceived f.toggle f.checksum = .new)
    (size : 1 ≤ f.packet.data.length ∧ f.packet.data.length + packetOverhead ≤ s.link.packetSize.toNat)
    (last : Delivery t f u) (going : f.packet.isLast = false) :
    Assembled s (fs ++ [f]) (a.add f.packet) u where
  delivered := .more h.delivered last
  message := h.message_snoc
  previous := by rw [List.getLast?_concat]; rfl
  memory := by
    rw [last.memory, List.getLast?_concat, (Prod.mk.inj h.memory).1]
    rfl
  sizes := h.sizes_snoc size
  series := by
    obtain ⟨-, alone⟩ | ⟨-, series⟩ := h.follows fits
    · simp [Packet.isLast, alone] at going
    · exact series
  going := by
    intro g hg
    rw [List.getLast?_concat] at hg
    obtain rfl := Option.some.inj hg
    exact going
  toggles := h.toggles_snoc new

/-- A packet that fits and is the last one completes the message. -/
theorem finish (h : Assembled s fs a t) (fits : breaksSequence a f.packet = false)
    (new : standing t.link.lastReceived f.toggle f.checksum = .new)
    (size : 1 ≤ f.packet.data.length ∧ f.packet.data.length + packetOverhead ≤ s.link.packetSize.toNat)
    (last : Delivery t f u) (final : f.packet.isLast = true) :
    Reassembled s (a.add f.packet).message (fs ++ [f]) u where
  delivered := .more h.delivered last
  heard := by
    obtain ⟨x, w, ⟨heard, stream, input, -⟩, order⟩ := (Delivers.more h.delivered last).observed
    exact ⟨heard, stream, input ▸ order.append _⟩
  message := h.message_snoc
  sizes := h.sizes_snoc size
  shape := by
    obtain ⟨rfl, alone⟩ | ⟨multi, series⟩ := h.follows fits
    · exact .inl ⟨f, rfl, alone⟩
    · exact .inr ⟨series, f, List.getLast?_concat, by simpa [Packet.isLast, multi] using final⟩
  toggles := h.toggles_snoc new
  last := by
    rw [List.getLast?_concat]
    exact (Prod.mk.inj last.memory).2

end Assembled

/-! ## Receiving a message -/

theorem place_ok {a a' : Assembly} {crc : UInt16} {p : Packet} {s s' : Linked}
    (h : (place a p crc).run s = (.ok a', s')) (sound : a'.spoiled = false) :
    a.spoiled = false ∧ breaksSequence a p = false ∧ a' = a.add p ∧
      s' = { s with link.reports := s.link.reports ++ [a'.message.length],
                    link.lastReceived := some (p.control.toggle, crc) } := by
  unfold place at h
  by_cases spoiled : a.spoiled
  · rw [if_pos spoiled] at h
    obtain rfl := Except.ok.inj (Prod.mk.inj h).1
    exact absurd (spoiled.symm.trans sound) (by simp)
  rw [if_neg spoiled] at h
  by_cases breaks : breaksSequence a p
  · rw [if_pos breaks] at h
    obtain ⟨_, _, _, h⟩ := Step.run_bind_ok.1 h
    obtain ⟨_, _, _, h⟩ := Step.run_bind_ok.1 h
    obtain rfl := Except.ok.inj (Prod.mk.inj h).1
    exact absurd sound (by simp)
  rw [if_neg breaks] at h
  obtain ⟨_, _, changed, h⟩ := Step.run_bind_ok.1 h
  obtain rfl := (Prod.mk.inj changed).2
  obtain ⟨ha, rfl⟩ := Prod.mk.inj h
  obtain rfl := Except.ok.inj ha
  exact ⟨Bool.eq_false_iff.2 spoiled, Bool.eq_false_iff.2 breaks, rfl, rfl⟩

/-- One round that does not spoil the response delivers one packet that fits. -/
theorem receiveRound_carries (s : Linked) :
    Step.Carries (fun a t => a.spoiled = false → ∃ fs, Assembled s fs a t)
      (fun r t => ∀ m, r = .message m → ∃ fs, Reassembled s m fs t) receiveRound := by
  intro a t r t' before h
  obtain ⟨_, _, found, h⟩ := Step.run_bind_ok.1 h
  obtain rfl := (Prod.mk.inj found).2
  obtain ⟨result, u, awaited, h⟩ := Step.run_bind_ok.1 h
  cases result with
  | none =>
    obtain rfl := Except.ok.inj (Prod.mk.inj h).1
    intro m hm
    cases hm
  | some result =>
    obtain ⟨p, crc, a1⟩ := result
    obtain ⟨_, _, counted, h⟩ := Step.run_bind_ok.1 h
    obtain rfl := (Prod.mk.inj counted).2
    obtain ⟨_, _, identified, h⟩ := Step.run_bind_ok.1 h
    obtain rfl := (Prod.mk.inj identified).2
    obtain ⟨_, v, acknowledged, h⟩ := Step.run_bind_ok.1 h
    obtain ⟨a2, w, placed, h⟩ := Step.run_bind_ok.1 h
    -- unless this packet spoils the response, it was delivered and fits
    have delivered (sound : a2.spoiled = false) : ∃ fs f, f.packet = p ∧ Assembled s fs a t ∧
        breaksSequence a f.packet = false ∧ a2 = a.add f.packet ∧
        standing t.link.lastReceived f.toggle f.checksum = .new ∧
        (1 ≤ f.packet.data.length ∧ f.packet.data.length + packetOverhead ≤ s.link.packetSize.toNat) ∧
        Delivery t f w := by
      obtain ⟨sound1, fits, rfl, rfl⟩ := place_ok placed sound
      obtain ⟨rfl, t1, passes, read, new⟩ := awaitPacket_ok awaited sound1
      obtain ⟨fs, before⟩ := before sound1
      obtain ⟨f, rfl, rfl, pos, fitting, frame⟩ := receivePacket_ok read
      have heard : t1.memory = t.memory := passes.talks.2
      have kept : u.memory = t.memory := ((receivePacket_hears false).of_run read).2.trans heard
      have size : t1.link.packetSize = s.link.packetSize :=
        (Prod.mk.inj (heard.trans before.memory)).1
      have last : u.link.lastReceived = t.link.lastReceived := (Prod.mk.inj kept).2
      refine ⟨fs, f, rfl, before, fits, rfl, last ▸ new, ⟨pos, size ▸ fitting⟩,
        t1, u, v, _, passes, read, frame, acknowledged, (writeControl_ok acknowledged).1, rfl⟩
    split at h
    next final =>
      obtain ⟨hr, rfl⟩ := Prod.mk.inj h
      obtain rfl := Except.ok.inj hr
      intro m hm
      cases sound : a2.spoiled with
      | true => rw [sound] at hm; cases hm
      | false =>
        rw [sound] at hm
        obtain rfl := Received.message.inj hm
        obtain ⟨fs, f, rfl, before, fits, rfl, new, size, delivery⟩ := delivered sound
        exact ⟨fs ++ [f], before.finish fits new size delivery final⟩
    next going =>
      obtain ⟨hr, rfl⟩ := Prod.mk.inj h
      obtain rfl := Except.ok.inj hr
      intro sound
      obtain ⟨fs, f, rfl, before, fits, rfl, new, size, delivery⟩ := delivered sound
      exact ⟨fs ++ [f], before.add fits new size delivery (Bool.eq_false_iff.2 going)⟩

/-- **A message that was received** is the data of frames that stand in order in what was heard,
each of them acknowledged before the next was read. -/
theorem receiveMessage_sound {s s' : Linked} {m : Bytes}
    (h : receiveMessage.run s = (.ok (.message m), s')) : ∃ fs, Reassembled s m fs s' := by
  unfold receiveMessage at h
  rw [Step.run_get_bind] at h
  exact Step.repeatWhileFed_ok (receiveRound_carries s) _ (fun _ => ⟨[], .start s⟩) h m rfl

/-- A link that hears garbage, a packet of two, that packet again, and the second packet, in pieces. -/
def hearsTwoPackets : Linked where
  channel :=
    { line :=
        { isClosed := false
          arrivals := [
            (0, .data [0xFF, 0xEE, 0x00, 0xC0, 0x01, 0x00]),
            (5, .data [0x02, 0x00, 0x01, 0x9B, 0x03, 0xEE, 0x00, 0xC0]),
            (9, .data [0x01, 0x00, 0x02, 0x00, 0x01, 0x9B, 0x03]),
            (20, .data [0xEE, 0x00, 0xA0, 0x00, 0x00, 0x01, 0x02, 0xC7, 0xF8])] }
      connected := true }
  link := .ofParameters (.ofConfig {})

theorem reassembled_twoPackets :
    (receiveMessage.run hearsTwoPackets).1 = .ok (.message [0x00, 0x01, 0x02]) ∧
      ∃ fs, Reassembled hearsTwoPackets [0x00, 0x01, 0x02] fs (receiveMessage.run hearsTwoPackets).2 := by
  have received : (receiveMessage.run hearsTwoPackets).1 = .ok (.message [0x00, 0x01, 0x02]) := by
    decide +kernel
  exact ⟨received, receiveMessage_sound (Step.run_eq_of_fst received)⟩

end Linked

end Metering
