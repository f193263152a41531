import Metering.Proofs.Frames
import Metering.Proofs.Requests

set_option autoImplicit false

/-! # Packet sizes and what fits them

A link is given a packet size and count, and what its meter answers may lower both. Whatever the answers, both
stay within bounds (`Link.within_after`), so a message that is no longer than the agreed packets can hold goes
out in as many of them (`Link.Sizes.carries_of_length`). The requests of a session are that short, and those
for tables where they keep to the limits of the link (`Link.Sizes.Within.fits_brief`,
`Link.Sizes.Within.fits_keeps`). -/

namespace Metering

open Step (Moves Same)

/-- A configuration that was checked has packets of the least size, and at least one. -/
theorem Config.sizes_of_validate {config : Config} (valid : config.validate = .ok ()) :
    minPacketSize ≤ config.packetSize.toNat ∧ 1 ≤ config.maxPackets.toNat := by
  have within {what : Quantity} {value min max : Nat} {u : Unit} (h : checkRange what value min max = .ok u) :
      min ≤ value := by
    unfold checkRange at h
    split at h
    next inside => exact inside.1
    next => cases h
  obtain ⟨_, size, valid⟩ := Step.except_bind_ok.1 valid
  obtain ⟨_, count, valid⟩ := Step.except_bind_ok.1 valid
  exact ⟨within size, within count⟩

theorem Packet.length_le_of_split {identity dataFormat : UInt8} {toggle : Bool} {message : Bytes} {size : Nat}
    {packets : List Packet} {frames : List Bytes} (split : Packet.split identity dataFormat message size = .ok packets)
    (encoded : Packet.encodings toggle packets = .ok frames) : ∀ frame ∈ frames, frame.length ≤ size := by
  intro frame mem
  obtain ⟨p, hp, length⟩ := Packet.length_of_mem_encodings encoded mem
  have cut := Packet.split_ok split
  have short := cut.sizes p hp
  have wide := cut.wide
  omega

namespace Link

/-! ## Sizes -/

/-- Packet size and count: those that a link was given, and those that hold. -/
structure Sizes where
  givenSize : UInt16
  givenCount : UInt8
  size : UInt16
  count : UInt8

def sizes (l : Link) : Sizes where
  givenSize := l.parameters.packetSize
  givenCount := l.parameters.maxPackets
  size := l.packetSize
  count := l.maxPackets

namespace Sizes

/-- The number of bytes that a message may have. -/
def capacity (s : Sizes) : Nat := (s.size.toNat - packetOverhead) * s.count.toNat

def limits (s : Sizes) : LinkLimits := .ofPackets s.size.toNat s.count.toNat

/-- What holds is no more than what was configured, and not too little to work with. -/
structure Within (config : Config) (s : Sizes) : Prop where
  given : s.givenSize = config.packetSize ∧ s.givenCount = config.maxPackets
  size : minPacketSize ≤ s.size.toNat ∧ s.size.toNat ≤ config.packetSize.toNat
  count : 1 ≤ s.count.toNat ∧ s.count.toNat ≤ config.maxPackets.toNat

/-- A message goes out in no more packets than the count, none of them longer than the size. -/
def Carries (s : Sizes) (message : Bytes) : Prop :=
  ∀ identity dataFormat toggle, ∃ packets frames,
    Packet.split identity dataFormat message s.size.toNat = .ok packets ∧
    Packet.encodings toggle packets = .ok frames ∧
    frames.length ≤ s.count.toNat ∧ ∀ frame ∈ frames, frame.length ≤ s.size.toNat

/-- A request is carried, and so is a response with code, count, checksum and the bytes that are asked for. -/
structure Fits (s : Sizes) (r : Request) : Prop where
  request : s.Carries r.bytes
  response : ∀ n ∈ r.count?, ∀ response : Bytes, response.length = readOverhead + n → s.Carries response

variable {config : Config} {s : Sizes} {r : Request}

/-- **A message that is not too long** is carried. -/
theorem carries_of_length (wide : minPacketSize ≤ s.size.toNat) (some : 1 ≤ s.count.toNat) {message : Bytes}
    (h : message.length ≤ s.capacity) : s.Carries message := by
  intro identity dataFormat toggle
  have few := s.count.toNat_lt
  have large := s.size.toNat_lt
  obtain ⟨packets, split, count⟩ : ∃ packets, Packet.split identity dataFormat message s.size.toNat = .ok packets ∧
      packets.length ≤ s.count.toNat := by
    refine Packet.split_of_fits ?_ some (by omega) h
    simp only [minPacketSize, packetOverhead] at wide ⊢
    omega
  have short : ∀ p ∈ packets, p.data.length ≤ 0xFFFF := by
    intro p hp
    have := (Packet.split_ok split).sizes p hp
    omega
  obtain ⟨frames, encoded⟩ : ∃ frames, Packet.encodings toggle packets = .ok frames := Packet.encodings_ok short
  refine ⟨packets, frames, split, encoded, ?_, Packet.length_le_of_split split encoded⟩
  rw [Packet.length_encodings encoded]
  exact count

namespace Within

variable (h : s.Within config)

include h

theorem least_le_capacity : minPacketSize - packetOverhead ≤ s.capacity := by
  have room : minPacketSize - packetOverhead ≤ s.size.toNat - packetOverhead := Nat.sub_le_sub_right h.size.1 _
  calc minPacketSize - packetOverhead
      ≤ s.size.toNat - packetOverhead := room
    _ ≤ (s.size.toNat - packetOverhead) * s.count.toNat := Nat.le_mul_of_pos_right _ h.count.1

theorem carries {message : Bytes} (short : message.length ≤ s.capacity) : s.Carries message :=
  carries_of_length h.size.1 h.count.1 short

theorem fits_brief (brief : r.Brief) : s.Fits r := by
  constructor
  · exact h.carries (Nat.le_trans brief.short h.least_le_capacity)
  · intro n hn
    rw [brief.unnumbered] at hn
    cases hn

theorem fits_keeps (keeps : r.Keeps s.limits) : s.Fits r := by
  obtain ⟨request, response⟩ := keeps.fits h.least_le_capacity
  constructor
  · exact h.carries request
  · intro n hn bytes length
    exact h.carries (Nat.le_trans (Nat.le_of_eq length) (response n hn))

end Within

end Sizes

/-! ## What changes them -/

/-- What changes the sizes of a link. -/
inductive Call where
  | applyNegotiated (packetSize : UInt16) (maxPackets : UInt8)
  | reset

def Call.step : Call → Step Link Unit
  | applyNegotiated packetSize maxPackets => do let _ ← Link.applyNegotiated packetSize maxPackets
  | reset => modify Link.reset

/-- The link after calls, of which those that fail are passed over. -/
def after (l : Link) (calls : List Call) : Link := calls.foldl (fun l call => (call.step.run l).2) l

variable {config : Config} {l : Link}

/-- An answer is refused, and then nothing changes, or it leaves room to work with. -/
theorem applyNegotiated_run (packetSize : UInt16) (maxPackets : UInt8) (l : Link) :
    (∃ e, (applyNegotiated packetSize maxPackets).run l = (.error e, l)) ∨
      minPacketSize ≤ (min l.parameters.packetSize packetSize).toNat ∧ maxPackets ≠ 0 ∧
      (applyNegotiated packetSize maxPackets).run l = (.ok (min l.parameters.packetSize packetSize),
        { l with
          packetSize := min l.parameters.packetSize packetSize
          maxPackets := min maxPackets (max l.parameters.maxPackets 1) }) := by
  unfold applyNegotiated
  rw [Step.run_get_bind]
  dsimp only
  split
  · exact .inl ⟨_, rfl⟩
  next large =>
    split
    · exact .inl ⟨_, rfl⟩
    next some => exact .inr ⟨Nat.le_of_not_lt large, some, rfl⟩

/-- **A refused call** changes nothing. -/
theorem call_run_error {call : Call} {e : Fault} (h : (call.step.run l).1 = .error e) : (call.step.run l).2 = l := by
  cases call with
  | reset => cases h
  | applyNegotiated packetSize maxPackets =>
    rcases applyNegotiated_run packetSize maxPackets l with ⟨e', refused⟩ | ⟨-, -, taken⟩
    · rw [Call.step, Step.run_bind_of_error refused]
    · rw [Call.step, Step.run_bind_of_ok taken] at h
      cases h

theorem within_ofConfig (valid : config.validate = .ok ()) : (ofParameters (.ofConfig config)).sizes.Within config := by
  obtain ⟨size, count⟩ := config.sizes_of_validate valid
  exact ⟨⟨rfl, rfl⟩, ⟨size, Nat.le_refl _⟩, ⟨count, Nat.le_refl _⟩⟩

theorem within_call (valid : config.validate = .ok ()) (h : l.sizes.Within config) (call : Call) :
    (call.step.run l).2.sizes.Within config := by
  obtain ⟨size, count⟩ := config.sizes_of_validate valid
  have given : l.parameters.packetSize = config.packetSize ∧ l.parameters.maxPackets = config.maxPackets := h.given
  cases call with
  | reset =>
    show l.reset.sizes.Within config
    refine ⟨given, ?_, ?_⟩
    · simp [sizes, Link.reset, given, size]
    · simp [sizes, Link.reset, given, count]
  | applyNegotiated packetSize maxPackets =>
    rcases applyNegotiated_run packetSize maxPackets l with ⟨e, refused⟩ | ⟨large, some, taken⟩
    · rw [Call.step, Step.run_bind_of_error refused]
      exact h
    · rw [Call.step, Step.run_bind_of_ok taken]
      have least : 1 ≤ maxPackets.toNat := Nat.pos_of_ne_zero fun none => some (UInt8.toNat_inj.1 none)
      refine ⟨given, ⟨large, ?_⟩, ?_⟩
      · show (min l.parameters.packetSize packetSize).toNat ≤ config.packetSize.toNat
        rw [given.1, UInt16.toNat_min]
        exact Nat.min_le_left _ _
      · show 1 ≤ (min maxPackets (max l.parameters.maxPackets 1)).toNat ∧
          (min maxPackets (max l.parameters.maxPackets 1)).toNat ≤ config.maxPackets.toNat
        rw [given.2, UInt8.toNat_min, UInt8.toNat_max, UInt8.toNat_one]
        omega

/-- **Whatever the meter answers**, packet size and count stay within bounds. -/
theorem within_after (valid : config.validate = .ok ()) (calls : List Call) :
    ((ofParameters (.ofConfig config)).after calls).sizes.Within config := by
  have kept (l : Link) (h : l.sizes.Within config) : (l.after calls).sizes.Within config := by
    induction calls generalizing l with
    | nil => exact h
    | cons call calls ih => exact ih _ (within_call valid h call)
  exact kept _ (within_ofConfig valid)

end Link

end Metering
