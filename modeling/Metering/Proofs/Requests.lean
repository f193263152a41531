import Metering.Link.Basic
import Metering.Service.Request
import Metering.Proofs.Steps

set_option autoImplicit false

/-! # How long requests are

The services of a session have requests that fit the smallest packet (`Request.Brief`). A request for a table
is as long as the data it carries and what stands around them, and a read of a range names the number of bytes
it asks for. So a request that keeps to the limits of packets fits them, and so does the response it asks for
(`Request.Keeps.fits`). -/

namespace Metering

theorem Config.length_paddedUser (c : Config) : c.paddedUser.length = userLength := length_padded _ _

theorem Config.length_paddedPassword (c : Config) : c.paddedPassword.length = passwordLength := length_padded _ _

namespace Request

/-- The number of bytes that a read of a range asks for. -/
def count? (r : Request) : Option Nat :=
  match r.service with
  | .readPartial => some (Bytes.ofBigEndian (r.parameters.drop 5))
  | _ => none

theorem length_bytes (r : Request) : r.bytes.length = r.parameters.length + 1 := List.length_cons

/-! ## Services of a session -/

/-- The request fits the smallest packet and names no number of bytes. -/
structure Brief (r : Request) : Prop where
  short : r.bytes.length ≤ minPacketSize - packetOverhead
  unnumbered : r.count? = none

theorem brief_identify : identify.Brief := ⟨by decide, rfl⟩

theorem brief_terminate : terminate.Brief := ⟨by decide, rfl⟩

theorem brief_logoff : logoff.Brief := ⟨by decide, rfl⟩

theorem brief_logon (userId : UInt16) {user : Bytes} (h : user.length ≤ userLength) : (logon userId user).Brief := by
  refine ⟨?_, rfl⟩
  simp [length_bytes, logon, minPacketSize, packetOverhead, userLength] at h ⊢
  omega

theorem brief_logonWithIdle (userId : UInt16) {user : Bytes} (idle : UInt16) (h : user.length ≤ userLength) :
    (logonWithIdle userId user idle).Brief := by
  refine ⟨?_, rfl⟩
  simp [length_bytes, logonWithIdle, minPacketSize, packetOverhead, userLength] at h ⊢
  omega

theorem brief_security {password : Bytes} (h : password.length ≤ passwordLength) : (security password).Brief := by
  refine ⟨?_, rfl⟩
  simp [length_bytes, security, minPacketSize, packetOverhead, passwordLength] at h ⊢
  omega

/-- A ticket is a block of a cipher. -/
theorem brief_authenticate (keyId : UInt8) {ticket : Bytes} (h : ticket.length ≤ 16) :
    (authenticate keyId ticket).Brief := by
  refine ⟨?_, rfl⟩
  simp [length_bytes, authenticate, minPacketSize, packetOverhead] at h ⊢
  omega

theorem brief_negotiate (packetSize : UInt16) (maxPackets : UInt8) (baudIndex : Option UInt8) :
    (negotiate packetSize maxPackets baudIndex).Brief := by
  cases baudIndex <;> exact ⟨by simp [length_bytes, negotiate, minPacketSize, packetOverhead], rfl⟩

theorem brief_timingSetup (t : Timing) : (timingSetup t).Brief :=
  ⟨by simp [length_bytes, timingSetup, Timing.bytes, minPacketSize, packetOverhead], rfl⟩

theorem brief_wait {seconds : Nat} {r : Request} (h : wait seconds = .ok r) : r.Brief := by
  unfold wait at h
  split at h
  · cases h
  · obtain rfl := Except.ok.inj h
    exact ⟨by simp [length_bytes, minPacketSize, packetOverhead], rfl⟩

/-! ## Tables -/

variable {limits : LinkLimits} {table : UInt16} {offset count : Nat} {data : Bytes} {r : Request}

theorem length_of_offsetBytes {place : Bytes} (h : offsetBytes offset = .ok place) : place.length = 3 := by
  unfold offsetBytes at h
  split at h
  · cases h
  · obtain rfl := Except.ok.inj h
    simp

theorem length_of_tableContents {contents : Bytes} (h : tableContents data = .ok contents) :
    contents.length = data.length + 3 := by
  unfold tableContents at h
  split at h
  · cases h
  · obtain rfl := Except.ok.inj h
    simp
    omega

theorem readPartial_ok (h : readPartial table offset count = .ok r) :
    r.bytes.length = 8 ∧ r.count? = some (count % Bytes.fieldSize 2) := by
  obtain ⟨place, placed, h⟩ := Step.except_bind_ok.1 h
  obtain rfl := Except.ok.inj h
  have width := length_of_offsetBytes placed
  constructor
  · simp [length_bytes, width]
  · have behind : (Bytes.bigEndian 2 table.toNat ++ place ++ Bytes.bigEndian 2 count).drop 5 = Bytes.bigEndian 2 count :=
      List.drop_left' (by simp [width])
    rw [count?, behind, Bytes.ofBigEndian_bigEndian]

theorem writeFull_ok (h : writeFull table data = .ok r) : r.bytes.length = data.length + 6 ∧ r.count? = none := by
  obtain ⟨contents, made, h⟩ := Step.except_bind_ok.1 h
  obtain rfl := Except.ok.inj h
  refine ⟨?_, rfl⟩
  simp [length_bytes, length_of_tableContents made]
  omega

theorem writePartial_ok (h : writePartial table offset data = .ok r) :
    r.bytes.length = data.length + 9 ∧ r.count? = none := by
  obtain ⟨place, placed, h⟩ := Step.except_bind_ok.1 h
  obtain ⟨contents, made, h⟩ := Step.except_bind_ok.1 h
  obtain rfl := Except.ok.inj h
  refine ⟨?_, rfl⟩
  simp [length_bytes, length_of_offsetBytes placed, length_of_tableContents made]
  omega

/-- A request for a table that moves no more data than the limits allow. -/
inductive Keeps (limits : LinkLimits) : Request → Prop
  | readFull (table : UInt16) : Keeps limits (readFull table)
  | readPartial {table : UInt16} {offset count : Nat} {r : Request} (made : readPartial table offset count = .ok r)
      (short : count ≤ limits.maxRead) : Keeps limits r
  | writeFull {table : UInt16} {data : Bytes} {r : Request} (made : writeFull table data = .ok r)
      (short : data.length ≤ limits.maxWrite) : Keeps limits r
  | writePartial {table : UInt16} {offset : Nat} {data : Bytes} {r : Request}
      (made : writePartial table offset data = .ok r) (short : data.length ≤ limits.maxPartialWrite) : Keeps limits r

/-- **A request that keeps to the limits** of packets has no more bytes than they carry, and neither has the
response with what it asks for. -/
theorem Keeps.fits {size packets : Nat} (h : r.Keeps (.ofPackets size packets))
    (wide : minPacketSize - packetOverhead ≤ (size - packetOverhead) * packets) :
    r.bytes.length ≤ (size - packetOverhead) * packets ∧
      ∀ n ∈ r.count?, readOverhead + n ≤ (size - packetOverhead) * packets := by
  simp only [LinkLimits.ofPackets] at h
  generalize capacity : (size - packetOverhead) * packets = room at h wide ⊢
  have room24 : 24 ≤ room := wide
  cases h with
  | readFull table =>
    refine ⟨?_, by simp [count?, Request.readFull]⟩
    simp [length_bytes, Request.readFull]
    omega
  | @readPartial _ _ count _ made short =>
    obtain ⟨length, named⟩ := readPartial_ok made
    refine ⟨by omega, fun n hn => ?_⟩
    obtain rfl := Option.some.inj (named.symm.trans hn)
    have := Nat.mod_le count (Bytes.fieldSize 2)
    simp only [readOverhead] at short ⊢
    omega
  | writeFull made short =>
    obtain ⟨length, unnamed⟩ := writeFull_ok made
    refine ⟨?_, by simp [unnamed]⟩
    simp only [writeOverhead] at short
    omega
  | writePartial made short =>
    obtain ⟨length, unnamed⟩ := writePartial_ok made
    refine ⟨?_, by simp [unnamed]⟩
    simp only [partialWriteOverhead] at short
    omega

end Request

end Metering
