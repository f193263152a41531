import Metering.Proofs.Frames
import Metering.Proofs.Turns

set_option autoImplicit false

/-! # Messages that are received

A message whose packets are sent with alternating toggle bits is received although frames are repeated or
damaged on the way, as long as no packet is preceded by more bad frames than the link has retries
(`Linked.receiveMessage_complete`). A bad frame costs one try and leaves the link as it was, but for what it
counts (`Linked.tryPacket_bad`); the packet itself is the next one of the series (`Packet.Series`), so it is
placed (`Linked.receiveRound_run`). -/

namespace Metering

/-! ## Series of packets -/

namespace Packet

/-- The packets of one message as they are sent. -/
structure Series (size : Nat) (packets : List Packet) : Prop where
  sizes : ∀ p ∈ packets, p.data ≠ [] ∧ p.data.length + packetOverhead ≤ size
  few : packets.length ≤ 256
  /-- Each packet says whether it is one of several and which, and counts those that follow it. -/
  numbered : ∀ front p rest, packets = front ++ p :: rest →
    p.control.isMulti = decide (1 < packets.length) ∧ (p.control.isMulti = true → p.control.isFirst = front.isEmpty) ∧
      p.sequence = UInt8.ofNat rest.length
  toggles : packets.IsChain fun p q => p.control.toggle ≠ q.control.toggle

variable {toggle : Bool} {identity dataFormat : UInt8} {message : Bytes} {size : Nat} {packets : List Packet}

theorem length_alternate (toggle : Bool) (packets : List Packet) : (alternate toggle packets).length = packets.length := by
  induction packets generalizing toggle with
  | nil => rfl
  | cons p packets ih => rw [alternate, List.length_cons, List.length_cons, ih]

theorem map_data_alternate (toggle : Bool) (packets : List Packet) :
    (alternate toggle packets).map (·.data) = packets.map (·.data) := by
  induction packets generalizing toggle with
  | nil => rfl
  | cons p packets ih => rw [alternate, List.map_cons, List.map_cons, ih]; rfl

/-- A packet with its toggle bit stands where the packet stood. -/
theorem alternate_split {front rest : List Packet} {q : Packet} (h : alternate toggle packets = front ++ q :: rest) :
    ∃ front' p rest' t, packets = front' ++ p :: rest' ∧ front'.length = front.length ∧ rest'.length = rest.length ∧
      q = p.toggled t := by
  induction front generalizing toggle packets with
  | nil =>
    cases packets with
    | nil => cases h
    | cons p packets =>
      obtain ⟨rfl, rfl⟩ := List.cons.inj h
      exact ⟨[], p, packets, toggle, rfl, rfl, (length_alternate _ _).symm, rfl⟩
  | cons f front ih =>
    cases packets with
    | nil => cases h
    | cons p packets =>
      obtain ⟨front', p', rest', t, rfl, frontLength, restLength, rfl⟩ := ih (List.cons.inj h).2
      exact ⟨p :: front', p', rest', t, rfl, congrArg Nat.succ frontLength, restLength, rfl⟩

theorem alternate_toggles (toggle : Bool) (packets : List Packet) :
    (alternate toggle packets).IsChain fun p q => p.control.toggle ≠ q.control.toggle := by
  induction packets generalizing toggle with
  | nil => exact .nil
  | cons p packets ih =>
    cases packets with
    | nil => exact .singleton _
    | cons q packets =>
      refine .cons_cons ?_ (ih (!toggle))
      simp [toggled, Control.toggle_withToggle]

theorem isMulti_controlOf (dataFormat : UInt8) (count index : Nat) :
    (controlOf dataFormat count index).isMulti = decide (1 < count) := by
  unfold controlOf
  split
  next one =>
    have format : ∀ b : BitVec 8, Control.isMulti ⟨⟨b⟩ &&& 0x03⟩ = false := by decide
    rw [decide_eq_false (Nat.not_lt.2 one)]
    exact format dataFormat.toBitVec
  next several =>
    rw [decide_eq_true (Nat.lt_of_not_le several)]
    split <;> rfl

theorem isFirst_controlOf {dataFormat : UInt8} {count index : Nat} (several : 1 < count) :
    (controlOf dataFormat count index).isFirst = decide (index = 0) := by
  unfold controlOf
  rw [if_neg (Nat.not_le.2 several)]
  split
  next zero => rw [decide_eq_true zero]; rfl
  next some => rw [decide_eq_false some]; rfl

/-- The packets that a message is cut into are sent as a series. -/
theorem series_of_split (cut : split identity dataFormat message size = .ok packets) (some : message ≠ []) :
    Series size (alternate toggle packets) where
  sizes := by
    have h := split_ok cut
    have wide := h.wide
    intro q hq
    obtain ⟨front, rest, split⟩ := List.append_of_mem hq
    obtain ⟨front', p, rest', t, rfl, -, -, rfl⟩ := alternate_split split
    have mem : p ∈ front' ++ p :: rest' := by simp
    have short := h.sizes p mem
    exact ⟨h.nonempty some p mem, by show p.data.length + _ ≤ _; omega⟩
  few := by
    rw [length_alternate]
    exact (split_ok cut).few
  numbered := by
    intro front q rest split
    obtain ⟨front', p, rest', t, eq, frontLength, restLength, rfl⟩ := alternate_split split
    obtain ⟨-, control, sequence⟩ := (split_ok cut).numbered front' p rest' eq
    have multi : (p.toggled t).control.isMulti = decide (1 < packets.length) := by
      rw [toggled, Control.isMulti_withToggle, control, isMulti_controlOf]
    rw [length_alternate]
    refine ⟨multi, fun isMulti => ?_, ?_⟩
    · have several : 1 < packets.length := of_decide_eq_true (multi.symm.trans isMulti)
      rw [toggled, Control.isFirst_withToggle, control, isFirst_controlOf several, frontLength]
      cases front <;> rfl
    · rw [← restLength]
      exact sequence
  toggles := alternate_toggles toggle packets

theorem one_lt_length (front : List Packet) (p q : Packet) (rest : List Packet) :
    1 < (front ++ p :: q :: rest).length := by
  simp only [List.length_append, List.length_cons]
  omega

/-- The last packet of a series says that it is the last. -/
theorem Series.isLast {front rest : List Packet} {p : Packet} (series : Series size packets)
    (split : packets = front ++ p :: rest) : p.isLast = rest.isEmpty := by
  obtain ⟨multi, -, sequence⟩ := series.numbered front p rest split
  have few := series.few
  rw [split, List.length_append, List.length_cons] at few
  unfold Packet.isLast
  rw [sequence]
  cases rest with
  | nil => simp
  | cons q rest =>
    have several : 1 < packets.length := split ▸ one_lt_length front p q rest
    have some : UInt8.ofNat (q :: rest).length ≠ 0 := by
      intro zero
      have := congrArg UInt8.toNat zero
      rw [UInt8.toNat_ofNat'] at this
      simp only [List.length_cons, UInt8.toNat_zero] at few this
      omega
    rw [multi, decide_eq_true several, decide_eq_false some]
    rfl

/-- The length of a message after each of its pieces. -/
def totals : (soFar : Nat) → (pieces : List Bytes) → List Nat
  | _, [] => []
  | soFar, piece :: rest => (soFar + piece.length) :: totals (soFar + piece.length) rest

variable {pieces : List Bytes}

theorem totals_increase (some : ∀ piece ∈ pieces, piece ≠ []) (soFar : Nat) :
    (totals soFar pieces).Pairwise (· < ·) ∧ ∀ n ∈ totals soFar pieces, soFar < n := by
  induction pieces generalizing soFar with
  | nil => exact ⟨.nil, fun n none => nomatch none⟩
  | cons piece pieces ih =>
    have pos : 0 < piece.length := List.length_pos_of_ne_nil (some piece List.mem_cons_self)
    obtain ⟨increase, above⟩ := ih (fun q hq => some q (List.mem_cons_of_mem piece hq)) (soFar + piece.length)
    refine ⟨.cons above increase, ?_⟩
    intro n hn
    rcases List.mem_cons.1 hn with rfl | later
    · exact Nat.lt_add_of_pos_right pos
    · exact Nat.lt_trans (Nat.lt_add_of_pos_right pos) (above n later)

theorem getLast?_totals (some : pieces ≠ []) (soFar : Nat) :
    (totals soFar pieces).getLast? = Option.some (soFar + pieces.flatten.length) := by
  induction pieces generalizing soFar with
  | nil => exact absurd rfl some
  | cons piece pieces ih =>
    cases pieces with
    | nil => simp [totals]
    | cons next rest =>
      have later := ih (List.cons_ne_nil next rest) (soFar + piece.length)
      rw [totals, List.flatten_cons, List.length_append, ← Nat.add_assoc, ← later]
      exact List.getLast?_cons_cons

end Packet

/-! ## Good frames and bad ones -/

namespace Turn

/-- The frame is that of a packet, and is acknowledged. -/
structure Carries (turn : Turn) (p : Packet) : Prop where
  header : turn.header = p.headerBytes
  rest : turn.rest = p.restBytes
  reply : turn.reply = ackByte

/-- The frame is of no use while a packet is awaited. -/
inductive Bad (previous : Option Packet) (p : Packet) (turn : Turn) : Prop
  /-- It is that of the packet before once more, which is acknowledged again. -/
  | again {q : Packet} (known : previous = some q) (carries : turn.Carries q)
  /-- It is that of the packet with other data or another checksum, so that the checksum is wrong, and is refused. -/
  | damaged (header : turn.header = p.headerBytes) (size : turn.rest.length = p.restBytes.length)
      (wrong : .ofNat (Bytes.ofLittleEndian (turn.rest.drop p.data.length)) ≠
        Crc.ofBytes ([startByte] ++ p.headerBytes ++ turn.rest.take p.data.length))
      (reply : turn.reply = nakByte)

end Turn

/-- What is heard while packets are awaited: each of them, after at most so many bad frames. -/
inductive Faulty (most : Nat) : (previous : Option Packet) → List Packet → List Turn → Prop
  | done {previous : Option Packet} : Faulty most previous [] []
  | next {previous : Option Packet} {p : Packet} {packets : List Packet} {bad turns : List Turn} {good : Turn}
      (few : bad.length ≤ most) (each : ∀ turn ∈ bad, turn.Bad previous p) (carries : good.Carries p)
      (rest : Faulty most (some p) packets turns) : Faulty most previous (p :: packets) (bad ++ good :: turns)

namespace Linked

open Channel

variable {s : Linked} {p q : Packet} {turn : Turn} {a : Assembly}

/-- The pause of a turn passes. -/
theorem turnAround_run {l : Link} {c : Channel} {link : LinkParameters} (comes : turn.Comes link c)
    (same : l.parameters = link) : turnAround.run ⟨turn.heard link c, l⟩ = (.ok (), ⟨turn.rested link c, l⟩) := by
  subst same
  have known : parameters.run ⟨turn.heard l.parameters c, l⟩ = (.ok l.parameters, ⟨turn.heard l.parameters c, l⟩) := rfl
  have slept : (onChannel (sleep l.parameters.turnaround)).run ⟨turn.heard l.parameters c, l⟩ =
      (.ok (), ⟨turn.rested l.parameters c, l⟩) := onChannel_run (s := ⟨_, l⟩) comes.pause_run.1
  unfold turnAround
  rw [Step.run_bind_of_ok known, slept]

/-- The reply of a turn goes out. -/
theorem writeControl_run {l : Link} {c : Channel} {link : LinkParameters} (comes : turn.Comes link c)
    (same : l.parameters = link) :
    (writeControl turn.reply).run ⟨turn.rested link c, l⟩ = (.ok (), ⟨turn.replied link c, l⟩) := by
  subst same
  have known : parameters.run ⟨turn.rested l.parameters c, l⟩ = (.ok l.parameters, ⟨turn.rested l.parameters c, l⟩) := rfl
  have sent : (onChannel (write [turn.reply] l.parameters.acknowledgement)).run ⟨turn.rested l.parameters c, l⟩ =
      (.ok 1, ⟨turn.replied l.parameters c, l⟩) := onChannel_run (s := ⟨_, l⟩) comes.reply_run
  unfold writeControl
  rw [Step.run_bind_of_ok known, Step.run_bind_of_ok sent]
  rfl

/-- A packet that comes is read. -/
theorem receivePacket_carries (comes : turn.Comes s.link.parameters s.channel) (carries : turn.Carries p)
    (some : p.data ≠ []) (fits : p.data.length + packetOverhead ≤ s.link.packetSize.toNat) :
    (receivePacket false).run s =
      (.ok (p, Crc.ofBytes p.body), { s with channel := turn.rested s.link.parameters s.channel }) := by
  have := s.link.packetSize.toNat_lt
  have announced : announcedLength turn.header = p.data.length := by
    rw [carries.header, Packet.announcedLength_headerBytes (by omega)]
  have heard := comes.rest_run.1
  have size : turn.rest.length = p.data.length + 2 := by rw [carries.rest, p.length_restBytes]
  rw [size] at heard
  rw [receivePacket_parts comes.start_run.1 comes.header_run.1 announced (by simpa using some)
      (Nat.le_sub_of_add_le fits) heard, carries.header, carries.rest, p.take_restBytes, p.drop_restBytes,
    Crc.ofLittleEndian_value, p.body_eq, if_neg (fun wrong => wrong.1 rfl)]
  have turned : turnAround.run { s with channel := turn.heard s.link.parameters s.channel } =
      (.ok (), { s with channel := turn.rested s.link.parameters s.channel }) := turnAround_run comes rfl
  rw [Step.run_bind_of_ok turned]
  rfl

/-- A damaged packet that comes is not read. -/
theorem receivePacket_damaged (comes : turn.Comes s.link.parameters s.channel) (header : turn.header = p.headerBytes)
    (size : turn.rest.length = p.restBytes.length)
    (wrong : .ofNat (Bytes.ofLittleEndian (turn.rest.drop p.data.length)) ≠
      Crc.ofBytes ([startByte] ++ p.headerBytes ++ turn.rest.take p.data.length))
    (some : p.data ≠ []) (fits : p.data.length + packetOverhead ≤ s.link.packetSize.toNat) :
    ∃ statistics, (receivePacket false).run s = (.error (.frameInvalid .checksum),
      { channel := turn.heard s.link.parameters s.channel, link := { s.link with statistics } }) := by
  have := s.link.packetSize.toNat_lt
  have announced : announcedLength turn.header = p.data.length := by
    rw [header, Packet.announcedLength_headerBytes (by omega)]
  have heard := comes.rest_run.1
  rw [size, p.length_restBytes] at heard
  rw [receivePacket_parts comes.start_run.1 comes.header_run.1 announced (by simpa using some)
    (Nat.le_sub_of_add_le fits) heard, header, if_pos ⟨wrong, rfl⟩]
  exact ⟨_, rfl⟩

/-- A link awaits a packet: its size was agreed on, and its toggle bit is not that of the packet before, which
was accepted if it belongs to the same message. -/
structure Awaits (previous : Option Packet) (p : Packet) (l : Link) : Prop where
  some : p.data ≠ []
  fits : p.data.length + packetOverhead ≤ l.packetSize.toNat
  new : ∀ known, l.lastReceived = Option.some known → known.1 ≠ p.control.toggle
  known : ∀ q, previous = Option.some q → l.lastReceived = Option.some (q.control.toggle, Crc.ofBytes q.body) ∧
    q.control.isMulti = true ∧ q.data ≠ [] ∧ q.data.length + packetOverhead ≤ l.packetSize.toNat

variable {previous : Option Packet}

/-- **A bad frame costs one try**, and leaves the link as it was but for what it counts. -/
theorem tryPacket_bad (next : Bool → Step Linked Accepted) (sound : a.spoiled = false) (awaits : Awaits previous p s.link)
    (bad : turn.Bad previous p) (comes : turn.Comes s.link.parameters s.channel) :
    ∃ statistics, (tryPacket a false (some next)).run s =
      (next false).run ⟨turn.replied s.link.parameters s.channel, { s.link with statistics }⟩ := by
  obtain ⟨c, l⟩ := s
  unfold tryPacket
  rw [Step.run_outcome_bind, sound]
  cases bad with
  | @again q known carries =>
    -- it is known, and one of several, so it says nothing of what is awaited
    obtain ⟨last, multi, some, fits⟩ := awaits.known q known
    have duplicate : standing l.lastReceived q.control.toggle (Crc.ofBytes q.body) = .duplicate := by
      rw [last]
      simp [standing]
    let counted : Link := { l with statistics := { l.statistics with duplicates := l.statistics.duplicates + 1 } }
    have replied := writeControl_run (l := counted) comes rfl
    rw [receivePacket_carries comes carries some fits]
    dsimp only
    rw [if_neg Bool.false_ne_true, Step.run_get_bind]
    dsimp only
    rw [duplicate]
    dsimp only
    have counts : (count fun n => { n with duplicates := n.duplicates + 1 }).run ⟨turn.rested l.parameters c, l⟩ =
        (.ok (), ⟨turn.rested l.parameters c, counted⟩) := rfl
    rw [Step.run_bind_of_ok counts, ← carries.reply, Step.run_bind_of_ok replied, multi]
    exact ⟨counted.statistics, rfl⟩
  | damaged header size wrong reply =>
    obtain ⟨statistics, tried⟩ := receivePacket_damaged comes header size wrong awaits.some awaits.fits
    obtain ⟨-, heard⟩ := comes.rest_run
    obtain ⟨-, rested⟩ := comes.pause_run
    have replied := writeControl_run (l := { l with statistics }) comes rfl
    have refused : refuse.run ⟨turn.heard l.parameters c, { l with statistics }⟩ =
        (.ok (), ⟨turn.replied l.parameters c, { l with statistics }⟩) := by
      have turned := turnAround_run (l := { l with statistics }) comes rfl
      unfold refuse
      rw [Step.run_bind_of_ok turned, Step.run_get_bind]
      dsimp only
      rw [rested.unhindered.connected, if_pos rfl, ← reply]
      exact replied
    refine ⟨statistics, ?_⟩
    rw [tried]
    dsimp only
    rw [Step.run_get_bind]
    dsimp only
    rw [heard.deadlineHit_eq, comes.uncut, if_neg Bool.false_ne_true, if_neg Bool.false_ne_true]
    exact Step.run_bind_of_ok refused

/-- A packet that is awaited is taken at once when it comes. -/
theorem tryPacket_good {again : Option (Bool → Step Linked Accepted)} (sound : a.spoiled = false)
    (awaits : Awaits previous p s.link) (carries : turn.Carries p) (comes : turn.Comes s.link.parameters s.channel) :
    (tryPacket a false again).run s = (.ok (some (p, Crc.ofBytes p.body, a)),
      { s with channel := turn.rested s.link.parameters s.channel }) := by
  have new : standing s.link.lastReceived p.control.toggle (Crc.ofBytes p.body) = .new := by
    unfold standing
    cases last : s.link.lastReceived with
    | none => rfl
    | some known => exact if_pos (awaits.new known last)
  unfold tryPacket
  rw [Step.run_outcome_bind, sound, receivePacket_carries comes carries awaits.some awaits.fits]
  dsimp only
  rw [if_neg Bool.false_ne_true, Step.run_get_bind]
  dsimp only
  rw [new]
  rfl

/-- **A packet is taken after bad frames**, if there are no more of them than retries. -/
theorem awaitPacket_run {bad turns : List Turn} {good : Turn} {retries : Nat} (sound : a.spoiled = false)
    (awaits : Awaits previous p s.link) (few : bad.length ≤ retries) (each : ∀ turn ∈ bad, turn.Bad previous p)
    (carries : good.Carries p) (come : Turn.AllCome s.link.parameters s.channel (bad ++ good :: turns)) :
    ∃ c statistics, (awaitPacket a retries false).run s = (.ok (some (p, Crc.ofBytes p.body, a)),
        ⟨good.rested s.link.parameters c, { s.link with statistics }⟩) ∧
      Turn.AllCome s.link.parameters c (good :: turns) ∧
      c.line.written = s.channel.line.written ++ bad.map (·.reply) ∧ c.toCome ≤ s.channel.toCome := by
  -- on the bad frames, each of which takes one of the retries
  induction bad generalizing s retries with
  | nil =>
    refine ⟨s.channel, s.link.statistics, ?_, come, (List.append_nil _).symm, le_rfl⟩
    cases retries with
    | zero => exact tryPacket_good sound awaits carries come.1
    | succ retries => exact tryPacket_good sound awaits carries come.1
  | cons turn bad ih =>
    obtain ⟨retries, rfl⟩ : ∃ n, retries = n + 1 := Nat.exists_eq_succ_of_ne_zero (by rintro rfl; cases few)
    obtain ⟨comes, come⟩ := come
    obtain ⟨statistics, tried⟩ :=
      tryPacket_bad (awaitPacket a retries) sound awaits (each turn List.mem_cons_self) comes
    obtain ⟨c, statistics', run, come', written, toCome⟩ :=
      @ih ⟨turn.replied s.link.parameters s.channel, { s.link with statistics }⟩ retries
        ⟨awaits.some, awaits.fits, awaits.new, awaits.known⟩ (Nat.le_of_succ_le_succ few)
        (fun t ht => each t (List.mem_cons_of_mem turn ht)) come
    refine ⟨c, statistics', ?_, come', ?_, le_trans toCome comes.toCome_lt.le⟩
    · rw [awaitPacket, tried, run]
    · rw [written, comes.written_eq, List.map_cons, List.append_assoc]
      rfl

/-- A link has received the front of a series. -/
structure Stands (size : Nat) (packets front : List Packet) (a : Assembly) (l : Link) : Prop where
  sound : a.spoiled = false
  message : a.message = front.flatMap (·.data)
  previous : a.previous = front.getLast?.map (·.sequence)
  last : ∀ q, front.getLast? = some q → l.lastReceived = some (q.control.toggle, Crc.ofBytes q.body)
  /-- Before the first packet, another toggle bit is known, or none. -/
  first : front = [] → ∀ p, packets.head? = some p → ∀ known, l.lastReceived = some known → known.1 ≠ p.control.toggle
  fits : size ≤ l.packetSize.toNat

section Series

variable {size : Nat} {packets front rest : List Packet} {l : Link} (series : Packet.Series size packets)
  (split : packets = front ++ p :: rest)

include series split

theorem Stands.awaits (h : Stands size packets front a l) : Awaits front.getLast? p l where
  some := (series.sizes p (split ▸ by simp)).1
  fits := Nat.le_trans (series.sizes p (split ▸ by simp)).2 h.fits
  new := by
    intro known last
    rcases List.eq_nil_or_concat' front with rfl | ⟨before, q, rfl⟩
    · exact h.first rfl p (split ▸ rfl) known last
    · -- the toggle bits of two packets in a row differ
      have same := h.last q List.getLast?_concat
      obtain rfl := Option.some.inj (last.symm.trans same)
      have toggles := series.toggles
      rw [split, List.append_assoc, List.singleton_append] at toggles
      exact (List.isChain_cons_cons.1 (List.isChain_append.1 toggles).2.1).1
  known := by
    intro q isLast
    obtain ⟨before, rfl⟩ := List.getLast?_eq_some_iff.1 isLast
    rw [List.append_assoc, List.singleton_append] at split
    have several : 1 < packets.length := split ▸ Packet.one_lt_length before q p rest
    obtain ⟨multi, -⟩ := series.numbered before q (p :: rest) split
    obtain ⟨some, small⟩ := series.sizes q (split ▸ by simp)
    exact ⟨h.last q isLast, multi.trans (decide_eq_true several), some, Nat.le_trans small h.fits⟩

/-- The next packet of a series does not break the sequence. -/
theorem Stands.continues (h : Stands size packets front a l) : breaksSequence a p = false := by
  obtain ⟨multi, isFirst, sequence⟩ := series.numbered front p rest split
  unfold breaksSequence
  rw [h.previous]
  rcases List.eq_nil_or_concat' front with rfl | ⟨before, q, rfl⟩
  · by_cases isMulti : p.control.isMulti
    · simp [isFirst isMulti]
    · simp [isMulti]
  · rw [List.append_assoc, List.singleton_append] at split
    have several : 1 < packets.length := split ▸ Packet.one_lt_length before q p rest
    have isMulti : p.control.isMulti = true := multi.trans (decide_eq_true several)
    obtain ⟨-, -, before⟩ := series.numbered before q (p :: rest) split
    have follows : q.sequence - 1 = p.sequence := by
      rw [before, sequence, List.length_cons, UInt8.ofNat_add]
      exact UInt8.add_sub_cancel _ _
    simp [isMulti, isFirst isMulti, follows]

/-- **A round takes the next packet of a series**, after bad frames. -/
theorem receiveRound_run {bad turns : List Turn} {good : Turn} (h : Stands size packets front a s.link)
    (few : bad.length ≤ s.link.parameters.retries.toNat) (each : ∀ turn ∈ bad, turn.Bad front.getLast? p)
    (carries : good.Carries p) (come : Turn.AllCome s.link.parameters s.channel (bad ++ good :: turns)) :
    ∃ t, (receiveRound a).run s =
        (.ok (if rest.isEmpty then .inr (.message (a.add p).message) else .inl (a.add p)), t) ∧
      Stands size packets (front ++ [p]) (a.add p) t.link ∧ t.link.parameters = s.link.parameters ∧
      t.link.reports = s.link.reports ++ [a.message.length + p.data.length] ∧ Turn.AllCome s.link.parameters t.channel turns ∧
      t.channel.line.written = s.channel.line.written ++ (bad ++ [good]).map (·.reply) ∧
      t.channel.toCome < s.channel.toCome := by
  obtain ⟨c, statistics, awaited, ⟨comes, come⟩, written, toCome⟩ :=
    awaitPacket_run h.sound (h.awaits series split) few each carries come
  have isLast := series.isLast split
  have continues := h.continues series split
  have known : parameters.run s = (.ok s.link.parameters, s) := rfl
  let noted : Link :=
    { s.link with
      statistics := { statistics with received := statistics.received + 1 }
      incomingIdentity := p.identity }
  let placed : Link :=
    { noted with
      reports := s.link.reports ++ [(a.add p).message.length]
      lastReceived := some (p.control.toggle, Crc.ofBytes p.body) }
  have replied := writeControl_run (l := noted) comes rfl
  rw [carries.reply] at replied
  have added : (place a p (Crc.ofBytes p.body)).run ⟨good.replied s.link.parameters c, noted⟩ =
      (.ok (a.add p), ⟨good.replied s.link.parameters c, placed⟩) := by
    unfold place
    rw [h.sound, if_neg Bool.false_ne_true, continues, if_neg Bool.false_ne_true]
    rfl
  refine ⟨⟨good.replied s.link.parameters c, placed⟩, ?_, ?_, rfl, ?_, come, ?_, ?_⟩
  · unfold receiveRound
    rw [Step.run_bind_of_ok known, Step.run_bind_of_ok awaited]
    dsimp only
    have counts : (count fun n => { n with received := n.received + 1 }).run
        ⟨good.rested s.link.parameters c, { s.link with statistics }⟩ = (.ok (), ⟨good.rested s.link.parameters c,
          { s.link with statistics := { statistics with received := statistics.received + 1 } }⟩) := rfl
    have identifies : (changeLink fun l => { l with incomingIdentity := p.identity }).run
        ⟨good.rested s.link.parameters c, { s.link with statistics := { statistics with received := statistics.received + 1 } }⟩ =
          (.ok (), ⟨good.rested s.link.parameters c, noted⟩) := rfl
    rw [Step.run_bind_of_ok counts, Step.run_bind_of_ok identifies, Step.run_bind_of_ok replied,
      Step.run_bind_of_ok added, isLast]
    split
    · rw [show (a.add p).spoiled = false from h.sound]
      rfl
    · rfl
  · exact {
      sound := h.sound
      message := by
        rw [List.flatMap_append, ← h.message]
        simp [Assembly.add]
      previous := by
        rw [List.getLast?_concat]
        rfl
      last := by
        intro q isLast
        rw [List.getLast?_concat] at isLast
        obtain rfl := Option.some.inj isLast
        rfl
      first := fun none => by simp at none
      fits := h.fits }
  · show s.link.reports ++ [(a.message ++ p.data).length] = _
    rw [List.length_append]
  · rw [comes.written_eq, written, List.map_append, ← List.append_assoc]
    rfl
  · exact lt_of_lt_of_le comes.toCome_lt toCome

end Series

/-- The rest of a series is received, whatever bad frames come between its packets. -/
theorem rounds_run {size : Nat} {packets front rest : List Packet} {turns : List Turn}
    (series : Packet.Series size packets) (split : packets = front ++ rest) (some : rest ≠ [])
    (stands : Stands size packets front a s.link)
    (faulty : Faulty s.link.parameters.retries.toNat front.getLast? rest turns)
    (come : Turn.AllCome s.link.parameters s.channel turns) :
    ∃ t, Step.Rounds answersLeft waiting receiveRound a s (.message (packets.flatMap (·.data))) t ∧
      t.link.reports = s.link.reports ++ Packet.totals a.message.length (rest.map (·.data)) ∧
      t.channel.line.written = s.channel.line.written ++ turns.map (·.reply) := by
  -- on the packets that are still to come
  induction rest generalizing front a s turns with
  | nil => exact absurd rfl some
  | cons p rest ih =>
    cases faulty with
    | @next _ _ _ bad turns good few each carries faulty =>
      obtain ⟨t, run, stands', parameters, reports, come', written, toCome⟩ :=
        receiveRound_run series split stands few each carries come
      have replies : s.channel.line.written ++ (bad ++ good :: turns).map (·.reply) =
          t.channel.line.written ++ turns.map (·.reply) := by
        rw [written, List.append_assoc, ← List.map_append, List.append_assoc, List.singleton_append]
      rw [replies, List.map_cons, Packet.totals]
      cases rest with
      | nil =>
        cases faulty
        refine ⟨t, .last ?_, reports, (List.append_nil _).symm⟩
        rw [run, split, ← stands'.message]
        rfl
      | cons q rest =>
        have nearer := Prod.Lex.toLex_lt_toLex.1 toCome
        have split' : packets = (front ++ [p]) ++ q :: rest := by rw [split, List.append_assoc, List.singleton_append]
        rw [← parameters] at come' faulty
        rw [← List.getLast?_concat (l := front)] at faulty
        obtain ⟨u, rounds, reports', written'⟩ := ih split' (List.cons_ne_nil q rest) stands' faulty come'
        refine ⟨u, .more run nearer rounds, ?_, written'⟩
        rw [reports', reports, List.append_assoc, Assembly.add, List.length_append]
        rfl

/-- **A message is received** although frames are repeated or damaged on the way: its packets are sent with
alternating toggle bits, the first of them not that of the last accepted packet, and before each of them come at
most so many bad frames as the link has retries. Each good packet and each repeat is acknowledged, each damaged
one refused, and the length so far is reported after each packet. -/
theorem receiveMessage_complete {s : Linked} {identity dataFormat : UInt8} {message : Bytes} {size : Nat}
    {packets : List Packet} {toggle : Bool} {turns : List Turn} (some : message ≠ [])
    (cut : Packet.split identity dataFormat message size = .ok packets) (fits : size ≤ s.link.packetSize.toNat)
    (new : ∀ known, s.link.lastReceived = Option.some known → known.1 ≠ toggle)
    (faulty : Faulty s.link.parameters.retries.toNat none (Packet.alternate toggle packets) turns)
    (come : Turn.AllCome s.link.parameters s.channel turns) :
    ∃ s' totals, receiveMessage.run s = (.ok (.message message), s') ∧
      s'.link.reports = s.link.reports ++ totals ∧ totals = Packet.totals 0 (packets.map (·.data)) ∧
      totals.Pairwise (· < ·) ∧ totals.getLast? = Option.some message.length ∧
      s'.channel.line.written = s.channel.line.written ++ turns.map (·.reply) := by
  have parts := Packet.split_ok cut
  have series : Packet.Series size (Packet.alternate toggle packets) := Packet.series_of_split cut some
  have sent : Packet.alternate toggle packets ≠ [] := by
    intro none
    have := congrArg List.length none
    rw [Packet.length_alternate] at this
    exact parts.some (List.length_eq_zero_iff.1 this)
  have message_eq : (Packet.alternate toggle packets).flatMap (·.data) = message := by
    rw [List.flatMap_def, Packet.map_data_alternate, ← List.flatMap_def, parts.message_eq]
  have start : Stands size (Packet.alternate toggle packets) [] {} s.link := by
    refine ⟨rfl, rfl, rfl, fun q none => (nomatch none), fun _ p first known last => ?_, fits⟩
    obtain ⟨q, rest, rfl⟩ := List.exists_cons_of_ne_nil parts.some
    obtain rfl := Option.some.inj first
    rw [Packet.toggled, Control.toggle_withToggle]
    exact new known last
  obtain ⟨t, rounds, reports, written⟩ := rounds_run series (List.nil_append _).symm sent start faulty come
  rw [message_eq] at rounds
  rw [Packet.map_data_alternate] at reports
  refine ⟨t, Packet.totals 0 _, ?_, reports, rfl, ?_, ?_, written⟩
  · unfold receiveMessage
    rw [Step.run_get_bind]
    exact Step.repeatWhileFed_run rounds (Nat.le_refl _)
  · refine (Packet.totals_increase ?_ 0).1
    intro piece mem
    obtain ⟨p, hp, rfl⟩ := List.mem_map.1 mem
    exact parts.nonempty some p hp
  · rw [Packet.getLast?_totals (by simpa using parts.some), ← List.flatMap_def, parts.message_eq, Nat.zero_add]

/-- The frame of the first of two packets, and that of the second. -/
def firstTurn : Turn := { header := [0, 0xC0, 1, 0, 2], rest := [1, 2, 0xD8, 0x28], reply := ackByte }

def secondTurn : Turn := { header := [0, 0xA0, 0, 0, 1], rest := [3, 0x4E, 0xE9], reply := ackByte }

/-- The first frame with another data byte. -/
def damagedTurn : Turn := { firstTurn with rest := [1, 0x82, 0xD8, 0x28], reply := nakByte }

/-- A link that hears the damaged frame, then the first one, that one once more because its acknowledgement was
lost, and then the second, each upon the reply to the one before. -/
def hearsFaults : Linked where
  channel :=
    { line :=
        { isClosed := false
          arrivals := [(0, .data (startByte :: (damagedTurn.header ++ damagedTurn.rest)))]
          answers := [firstTurn, firstTurn, secondTurn].map fun turn _ =>
            [(Duration.ofMillis 10, .arrival (.data (startByte :: (turn.header ++ turn.rest))))] }
      connected := true }
  link := .ofParameters (.ofConfig {})

theorem receiveMessage_complete_twoPackets :
    ∃ s', receiveMessage.run hearsFaults = (.ok (.message [1, 2, 3]), s') ∧ s'.link.reports = [2, 3] ∧
      s'.channel.line.written = [nakByte, ackByte, ackByte, ackByte] := by
  have cut : Packet.split 0 0 [1, 2, 3] 10 = .ok [⟨0, ⟨0xC0⟩, 1, [1, 2]⟩, ⟨0, ⟨0x80⟩, 0, [3]⟩] := rfl
  have first : firstTurn.Carries ⟨0, ⟨0xC0⟩, 1, [1, 2]⟩ := by
    refine ⟨rfl, ?_, rfl⟩
    rw [Packet.restBytes, Crc.ofBytes_eq]
    decide +kernel
  have second : secondTurn.Carries ⟨0, ⟨0xA0⟩, 0, [3]⟩ := by
    refine ⟨rfl, ?_, rfl⟩
    rw [Packet.restBytes, Crc.ofBytes_eq]
    decide +kernel
  have damaged : damagedTurn.Bad none ⟨0, ⟨0xC0⟩, 1, [1, 2]⟩ := by
    refine .damaged rfl rfl ?_ rfl
    rw [Crc.ofBytes_eq]
    decide +kernel
  have faulty : Faulty hearsFaults.link.parameters.retries.toNat none
      (Packet.alternate false [⟨0, ⟨0xC0⟩, 1, [1, 2]⟩, ⟨0, ⟨0x80⟩, 0, [3]⟩])
      ([damagedTurn] ++ firstTurn :: ([firstTurn] ++ [secondTurn])) :=
    .next (by decide) (List.forall_mem_singleton.2 damaged) first
      (.next (by decide) (List.forall_mem_singleton.2 (.again rfl first)) second .done)
  have come : Turn.AllCome hearsFaults.link.parameters hearsFaults.channel
      ([damagedTurn] ++ firstTurn :: ([firstTurn] ++ [secondTurn])) := by decide +kernel
  obtain ⟨s', totals, run, reports, rfl, -, -, written⟩ :=
    receiveMessage_complete (by simp) cut (by decide) (by simp [hearsFaults, Link.ofParameters]) faulty come
  exact ⟨s', run, reports, written⟩

end Linked

end Metering
