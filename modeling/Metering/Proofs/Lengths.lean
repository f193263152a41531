import Metering.Proofs.Bits
import Metering.Proofs.Stream

set_option autoImplicit false

/-! # Lengths agree

A length is encoded in two places, with an element and in front of a frame, and decoded in two, where elements are taken
apart and where an APDU is read off a stream. Both encodings are the same, and there is no other one as short
(`Ber.shortest_lengthBytes`). Whatever bytes there are, a stream and a reader find the same length in them or refuse the
same first byte (`Channel.readLength_mirrors`).

A length that takes four bytes after the first is encoded and not decoded (`Ber.fourOctets_refused`). -/

namespace Metering

open Timed

/-! ## The shortest encoding -/

namespace Ber

/-- An encoding of a length: one byte, or first how many bytes there are, with the top bit set, and then these. The
count 127 is reserved. -/
inductive Definite : Bytes → Nat → Prop where
  | short {n : Nat} (small : n < 0x80) : Definite [UInt8.ofNat n] n
  | long (octets : Bytes) (some : octets ≠ []) (few : octets.length < 0x7F) :
      Definite (UInt8.ofNat (0x80 + octets.length) :: octets) (Bytes.ofBigEndian octets)

/-- An encoding of a length that is shorter than all others. -/
structure Shortest (field : Bytes) (n : Nat) : Prop where
  definite : Definite field n
  shorter : ∀ other, Definite other n → other ≠ field → field.length < other.length

theorem definite_bigEndian {width n : Nat} (some : 0 < width) (few : width < 0x7F) (fits : n < 256 ^ width) :
    Definite (UInt8.ofNat (0x80 + width) :: Bytes.bigEndian width n) n := by
  have length := Bytes.length_bigEndian width n
  have value : Bytes.ofBigEndian (Bytes.bigEndian width n) = n := by
    rw [Bytes.ofBigEndian_bigEndian, Bytes.fieldSize_eq, Nat.mod_eq_of_lt fits]
  have encoded := Definite.long (Bytes.bigEndian width n) (List.ne_nil_of_length_pos (by omega)) (by omega)
  rwa [length, value] at encoded

/-- The first byte counts as few bytes as the number fits into. -/
theorem shortest_bigEndian (width : Nat) {n : Nat} (some : 0 < width) (few : width < 0x7F) (long : 0x80 ≤ n)
    (fits : n < 256 ^ width) (tight : 256 ^ (width - 1) ≤ n) :
    Shortest (UInt8.ofNat (0x80 + width) :: Bytes.bigEndian width n) n where
  definite := definite_bigEndian some few fits
  shorter := by
    intro other encoded different
    -- with fewer bytes the number would not fit, and with as many the bytes are determined
    cases encoded with
    | short small => exact absurd small (Nat.not_lt.2 long)
    | long octets _ _ =>
      have holds := Bytes.ofBigEndian_lt octets
      rw [Bytes.fieldSize_eq] at holds
      have enough : width - 1 < octets.length :=
        (Nat.pow_lt_pow_iff_right (by decide)).1 (Nat.lt_of_le_of_lt tight holds)
      have more : octets.length ≠ width := by
        rintro rfl
        rw [Bytes.bigEndian_ofBigEndian] at different
        exact different rfl
      simp only [List.length_cons, Bytes.length_bigEndian]
      omega

/-- **The encoding is the shortest one**, of any length it is meant for. -/
theorem shortest_lengthBytes {n : Nat} (h : n < 0x100000000) : Shortest (lengthBytes n) n := by
  unfold lengthBytes
  split
  next small =>
    refine ⟨.short small, fun other encoded different => ?_⟩
    cases encoded with
    | short => exact absurd rfl different
    | long octets some _ =>
      have := List.length_pos_iff.2 some
      simp only [List.length_cons, List.length_nil]
      omega
  split
  · exact shortest_bigEndian 1 (by decide) (by decide) (by omega) (by omega) (by omega)
  split
  · exact shortest_bigEndian 2 (by decide) (by decide) (by omega) (by omega) (by omega)
  split
  · exact shortest_bigEndian 3 (by decide) (by decide) (by omega) (by omega) (by omega)
  · exact shortest_bigEndian 4 (by decide) (by decide) (by omega) (by omega) (by omega)

end Ber

/-! ## What a reader makes of bytes -/

namespace Reader

/-- A length, from its first byte on. -/
theorem run_length (first : UInt8) (position : Nat) (rest : Bytes) :
    length.run ⟨position, first :: rest⟩ =
      if first < 0x80 then (.ok first.toNat, ⟨position + 1, rest⟩)
      else if first.toNat % 128 = 0 ∨ first.toNat % 128 > 3 then
        (.error (.invalidData (.lengthOctets (first.toNat % 128))), ⟨position + 1, rest⟩)
      else if rest.length < first.toNat % 128 then
        (.error (short ⟨position + 1, rest⟩ (first.toNat % 128)), ⟨position + 1, rest⟩)
      else (.ok (Bytes.ofBigEndian (rest.take (first.toNat % 128))),
        ⟨position + 1 + first.toNat % 128, rest.drop (first.toNat % 128)⟩) := by
  unfold length
  rw [Step.run_bind_of_ok (run_byte first position rest)]
  split
  · rfl
  dsimp only
  split
  · rfl
  have taken := run_take (first.toNat % 128) ⟨position + 1, rest⟩
  split
  next few =>
    rw [if_pos few] at taken
    exact Step.run_bind_of_error taken
  next enough =>
    rw [if_neg enough] at taken
    exact Step.run_bind_of_ok taken

/-- A length in four bytes is refused once the first byte is read. -/
theorem run_length_four {n : Nat} (h : 0x1000000 ≤ n) (position : Nat) (suffix : Bytes) :
    length.run ⟨position, Ber.lengthBytes n ++ suffix⟩ =
      (.error (.invalidData (.lengthOctets 4)), ⟨position + 1, Bytes.bigEndian 4 n ++ suffix⟩) := by
  rw [Ber.lengthBytes_four h, List.cons_append, run_length]
  rfl

end Reader

/-! ## What a stream makes of bytes -/

/-- What a read of a length gives on a queue: what a reader makes of its bytes. If those are too few, the read ends with
the far end or with its deadline. -/
def Queue.readLength (q : Queue) (closed : Bool) : Except Fault (Bytes × Nat) × Queue :=
  match Reader.length.run (Reader.ofBytes q.bytes) with
  | (.ok n, r) => (.ok (q.bytes.take r.position, n), { q with bytes := r.rest })
  | (.error (.invalidData (.lengthOctets count)), r) =>
    (.error (.frameInvalid (.lengthOctets count)), { q with bytes := r.rest })
  | (.error _, r) =>
    (.error (if closed then .disconnected else .readTimeout r.rest.length), ⟨if closed then r.rest else [], !closed⟩)

theorem Queue.readLength_cons (first : UInt8) (rest : Bytes) (connected closed : Bool) :
    Queue.readLength ⟨first :: rest, connected⟩ closed =
      if first < 0x80 then (.ok ([first], first.toNat), ⟨rest, connected⟩)
      else if first.toNat % 128 = 0 ∨ first.toNat % 128 > Channel.maxLengthOctets then
        (.error (.frameInvalid (.lengthOctets (first.toNat % 128))), ⟨rest, connected⟩)
      else if rest.length < first.toNat % 128 then
        (.error (if closed then .disconnected else .readTimeout rest.length), ⟨if closed then rest else [], !closed⟩)
      else (.ok (first :: rest.take (first.toNat % 128), Bytes.ofBigEndian (rest.take (first.toNat % 128))),
        ⟨rest.drop (first.toNat % 128), connected⟩) := by
  unfold readLength Reader.ofBytes
  dsimp only
  rw [Reader.run_length, Channel.maxLengthOctets]
  by_cases small : first < 0x80
  · rw [if_pos small, if_pos small]
    rfl
  rw [if_neg small, if_neg small]
  by_cases bad : first.toNat % 128 = 0 ∨ first.toNat % 128 > 3
  · rw [if_pos bad, if_pos bad]
  rw [if_neg bad, if_neg bad]
  by_cases few : rest.length < first.toNat % 128
  · rw [if_pos few, if_pos few]
    rfl
  · rw [if_neg few, if_neg few, Nat.zero_add, Nat.add_comm 1]
    rfl

namespace Channel

variable {c c' : Channel} {deadline : Moment} {closing : Option Moment} {q : Queue}

/-- The length of an APDU with its first byte: what is read between the start tag and the elements. -/
def readLength (deadline : Moment) : Step Channel (Bytes × Nat) := do
  let first := (← readExactUntil 1 (← remainderDeadline deadline)).getD 0 0
  let (octets, length) ← readLengthOctets first deadline
  return (first :: octets, length)

theorem readApdu_eq (timeout : Duration) :
    readApdu timeout = (do
      let deadline := (← get).now + timeout
      let _ ← readStart [Acse.apduTag] timeout
      let (field, length) ← readLength deadline
      let elements ←
        if length > 0 then readExactUntil length (← remainderDeadline deadline) else pure []
      return Acse.apduTag :: (field ++ elements)) := by
  simp only [readApdu, readLength, bind_assoc, pure_bind]
  rfl

/-- A part of an APDU is read off the queue. -/
theorem readRemainder_mirrors {count : Nat} (h : c.Mirrors closing q) (open_ : q.connected = true)
    (timely : ∀ x ∈ c.due.take count, x.1 ≤ max c.now (c.limit deadline)) :
    ∃ closed c', (remainderDeadline deadline >>= readExactUntil count).run c = ((q.read closed count).1, c') ∧
      c'.Mirrors closing (q.read closed count).2 ∧ (closing = none → closed = false) ∧
      (count ≤ q.bytes.length → Later c c' count) := by
  have inTime : c.Timely (.whole (grace deadline c.now)) (grace deadline c.now) (c.due.take count) :=
    (timely_whole c _ count).2 fun x hx => le_grace (c.limit_le deadline) (timely x hx)
  rw [Step.run_bind_of_ok (remainderDeadline_run deadline c)]
  by_cases enough : count ≤ q.bytes.length
  · obtain ⟨c', run, later, -⟩ := (readExactly_run (h.unhindered open_) (h.length ▸ enough)).1 inTime
    refine ⟨false, c', ?_, ?_, fun _ => rfl, fun _ => later⟩
    · rw [Queue.read, if_pos enough, ← h.bytes, ← List.map_take]
      exact run
    · rw [Queue.read, if_pos enough]
      exact h.later open_ later
  · obtain ⟨c', run, mirrors⟩ := readExactly_mirrors h open_ inTime
    refine ⟨_, c', run, mirrors, ?_, fun few => absurd few enough⟩
    rintro rfl
    exact h.closesBy_eq_false _ _

/-- The bytes behind the first one are decoded as a reader decodes all of them. -/
theorem readLengthOctets_mirrors (first : UInt8) {rest : Bytes} (h : c.Mirrors closing ⟨rest, true⟩)
    (timely : ∀ x ∈ c.due.take maxLengthOctets, x.1 ≤ max c.now (c.limit deadline)) :
    ∃ closed c', (readLengthOctets first deadline >>= fun x => pure (first :: x.1, x.2)).run c =
        ((Queue.readLength ⟨first :: rest, true⟩ closed).1, c') ∧
      c'.Mirrors closing (Queue.readLength ⟨first :: rest, true⟩ closed).2 ∧ (closing = none → closed = false) := by
  simp only [Queue.readLength_cons]
  unfold readLengthOctets
  by_cases small : first < 0x80
  · simp only [if_pos small]
    exact ⟨false, c, rfl, h, fun _ => rfl⟩
  simp only [if_neg small]
  by_cases bad : first.toNat % 128 = 0 ∨ first.toNat % 128 > maxLengthOctets
  · simp only [if_pos bad]
    exact ⟨false, c, rfl, h, fun _ => rfl⟩
  simp only [if_neg bad]
  have few : first.toNat % 128 ≤ maxLengthOctets := Nat.not_lt.1 (not_or.1 bad).2
  obtain ⟨closed, c', run, mirrors, stays, -⟩ := readRemainder_mirrors h rfl fun x hx =>
    timely x ((List.take_prefix_take_left few).subset hx)
  unfold Queue.read at run mirrors
  rw [← bind_assoc, bind_assoc]
  by_cases enough : first.toNat % 128 ≤ rest.length
  · rw [if_pos enough] at run mirrors
    simp only [if_neg (Nat.not_lt.2 enough)]
    exact ⟨closed, c', Step.run_bind_of_ok run, mirrors, stays⟩
  · rw [if_neg enough] at run mirrors
    simp only [if_pos (Nat.lt_of_not_le enough)]
    exact ⟨closed, c', Step.run_bind_of_error run, mirrors, stays⟩

/-- **A stream is decoded as a reader decodes its bytes**, whatever they are: the same length in the same bytes, the
same count refused, and too few bytes where there are too few. -/
theorem readLength_mirrors (h : c.Mirrors closing q) (open_ : q.connected = true)
    (timely : ∀ x ∈ c.due.take (1 + maxLengthOctets), x.1 ≤ max c.now (c.limit deadline)) :
    ∃ closed c', (readLength deadline).run c = ((q.readLength closed).1, c') ∧
      c'.Mirrors closing (q.readLength closed).2 ∧ (closing = none → closed = false) := by
  obtain ⟨bytes, connected⟩ := q
  obtain rfl : connected = true := open_
  have first : 1 ≤ 1 + maxLengthOctets := by decide
  obtain ⟨closed, c1, run1, mirrors1, stays, later1⟩ := readRemainder_mirrors h rfl fun x hx =>
    timely x ((List.take_prefix_take_left first).subset hx)
  unfold readLength
  rw [← bind_assoc]
  -- the first byte tells how many follow; these are waited for as of the moment when it had come
  cases bytes with
  | nil =>
    rw [Step.run_bind_of_error run1]
    exact ⟨closed, c1, rfl, mirrors1, stays⟩
  | cons first rest =>
    have mirrors1 : c1.Mirrors closing ⟨rest, true⟩ := mirrors1
    have later1 := later1 (Nat.le_add_left 1 rest.length)
    have timely1 : ∀ x ∈ c1.due.take maxLengthOctets, x.1 ≤ max c1.now (c1.limit deadline) := by
      intro x hx
      rw [later1.due_eq, take_since, List.take_drop] at hx
      obtain ⟨y, hy, rfl⟩ := List.mem_map.1 hx
      exact later1.timely (timely y (List.mem_of_mem_drop hy))
    obtain ⟨closed, c2, run2, mirrors2, stays⟩ := readLengthOctets_mirrors first mirrors1 timely1
    refine ⟨closed, c2, ?_, mirrors2, stays⟩
    rw [Step.run_bind_of_ok run1]
    exact run2

/-- Whatever is decoded as a length on a stream, a reader decodes alike. -/
theorem takes_of_readLength {field : Bytes} {n : Nat} (h : (readLength deadline).run c = (.ok (field, n), c')) :
    Reader.Takes Reader.length field n := by
  unfold readLength at h
  rw [← bind_assoc] at h
  obtain ⟨head, c1, -, h⟩ := Step.run_bind_ok.1 h
  dsimp only at h
  obtain ⟨⟨octets, n⟩, c2, read, h⟩ := Step.run_bind_ok.1 h
  obtain ⟨result, -⟩ := Prod.mk.inj h
  obtain ⟨rfl, rfl⟩ := Prod.mk.inj (Except.ok.inj result)
  exact Reader.reads_length.complete ⟨_, octets, rfl, readLengthOctets_lengthOf read⟩

end Channel

/-! ## Agreement -/

namespace Ber

/-- **Lengths agree everywhere** that they are decoded at all.

* A frame gets the same encoding in front that is written with an element, and it is the shortest one.
* With up to three bytes after the first it is read back, whatever follows it, and nothing else is taken.
* With four bytes after the first it is refused.
* An APDU is read off a stream by its start tag, its length and its elements. Its length is decoded as a reader decodes
  the bytes on the stream, and whatever length comes off any stream, a reader takes it from the same bytes. -/
theorem lengths_agree :
    (∀ (b : FrameBuffer) (n : Nat),
      (b.prependLength n).header = lengthBytes n ++ b.header ∧ (b.prependLength n).body = b.body) ∧
    (∀ n < 0x100000000, Shortest (lengthBytes n) n) ∧
    (∀ n < 0x1000000, Reader.Takes Reader.length (lengthBytes n) n) ∧
    (∀ n, 0x1000000 ≤ n → ∀ position suffix, Reader.length.run ⟨position, lengthBytes n ++ suffix⟩ =
      (.error (.invalidData (.lengthOctets 4)), ⟨position + 1, Bytes.bigEndian 4 n ++ suffix⟩)) ∧
    (∀ timeout, Channel.readApdu timeout = (do
      let deadline := (← get).now + timeout
      let _ ← Channel.readStart [Acse.apduTag] timeout
      let (field, length) ← Channel.readLength deadline
      let elements ←
        if length > 0 then Channel.readExactUntil length (← Channel.remainderDeadline deadline) else pure []
      return Acse.apduTag :: (field ++ elements))) ∧
    (∀ (c : Channel) (closing : Option Moment) (q : Queue) (deadline : Moment), c.Mirrors closing q →
      q.connected = true →
      (∀ x ∈ c.due.take (1 + Channel.maxLengthOctets), x.1 ≤ max c.now (c.limit deadline)) →
      ∃ closed c', (Channel.readLength deadline).run c = ((q.readLength closed).1, c') ∧
        c'.Mirrors closing (q.readLength closed).2 ∧ (closing = none → closed = false)) ∧
    ∀ (c c' : Channel) (deadline : Moment) (field : Bytes) (n : Nat),
      (Channel.readLength deadline).run c = (.ok (field, n), c') → Reader.Takes Reader.length field n := by
  refine ⟨fun b n => ⟨b.header_prependLength n, b.body_prependLength n⟩, fun _ => shortest_lengthBytes,
    fun _ => Reader.takes_length, fun _ => Reader.run_length_four, Channel.readApdu_eq, ?_, ?_⟩
  · intro c closing q deadline mirrors open_ timely
    exact Channel.readLength_mirrors mirrors open_ timely
  · intro c c' deadline field n read
    exact Channel.takes_of_readLength read

/-- A channel on which a length comes in two pieces, the first byte of an element behind it. -/
def lengthInPieces : Channel where
  line := { arrivals := [(5, .data [0x82, 0x01]), (7, .data [0x00, 0xA8])] }
  connected := true

theorem lengths_agree_boundaries :
    Shortest [0x84, 0xFF, 0xFF, 0xFF, 0xFF] 0xFFFFFFFF ∧ Reader.Takes Reader.length [0x83, 0xFF, 0xFF, 0xFF] 0xFFFFFF ∧
      Reader.length.run ⟨0, [0x84, 0x01, 0x00, 0x00, 0x00, 0xA8]⟩ =
        (.error (.invalidData (.lengthOctets 4)), ⟨1, [0x01, 0x00, 0x00, 0x00, 0xA8]⟩) ∧
      (∃ c', (Channel.readLength 10).run lengthInPieces = (.ok ([0x82, 0x01, 0x00], 0x100), c') ∧
        c'.Mirrors none ⟨[0xA8], true⟩) ∧
      Reader.Takes Reader.length [0x82, 0x01, 0x00] 0x100 := by
  have arrivals : lengthInPieces.line.arrivals = Line.cut [(5, [0x82, 0x01]), (7, [0x00, 0xA8])] none := rfl
  have mirrors := Channel.mirrors_of_cut (c := lengthInPieces) rfl rfl rfl (by decide) arrivals
  have empty : lengthInPieces.input.toList = [] := by decide +kernel
  rw [empty] at mirrors
  obtain ⟨-, shortest, taken, refused, -, streamed, decoded⟩ := lengths_agree
  obtain ⟨closed, c', read, left, -⟩ := streamed lengthInPieces none _ 10 mirrors rfl (by decide +kernel)
  refine ⟨shortest 0xFFFFFFFF (by decide), taken 0xFFFFFF (by decide), refused 0x1000000 (by decide) 0 [0xA8], ?_, ?_⟩
  · exact ⟨c', read, left⟩
  · exact decoded lengthInPieces c' 10 _ _ read

/-- A length that takes four bytes after the first is encoded and not read back. -/
theorem fourOctets_refused :
    lengthBytes 0x1000000 = [0x84, 0x01, 0x00, 0x00, 0x00] ∧
      Reader.length.run (Reader.ofBytes [0x84, 0x01, 0x00, 0x00, 0x00]) =
        (.error (.invalidData (.lengthOctets 4)), ⟨1, [0x01, 0x00, 0x00, 0x00]⟩) ∧
      ¬ ∀ n < 0x100000000, Reader.Takes Reader.length (lengthBytes n) n := by
  have refused := Reader.run_length_four (n := 0x1000000) (by decide) 0 []
  refine ⟨by decide, refused, fun all => ?_⟩
  have taken := all 0x1000000 (by decide) 0 []
  rw [refused] at taken
  cases (Prod.mk.inj taken).1

end Ber

end Metering
