import Metering.Channel.Apdu
import Metering.Proofs.Binding
import Metering.Proofs.Feed

set_option autoImplicit false

/-! # APDUs told apart on a stream

The bytes of an APDU say how many there are (`Acse.IsFrame`), so the next APDU of a stream is found behind
it. One that can be taken apart is such a frame (`Acse.Incoming.isFrame_of_parse`). A read of an APDU gives
the next frame behind garbage that holds no start tag, if each part of it comes before the deadline, which
is that of the read or, if this has passed when the part is waited for, a little later
(`Channel.readApdu_run`). -/

namespace Metering

open Timed
open Step (Moves)

/-! ## Frames -/

/-- A length as it is encoded: its first byte, and the bytes behind that one. -/
inductive Ber.LengthOf (first : UInt8) : Bytes → Nat → Prop where
  | short (small : first < 0x80) : LengthOf first [] first.toNat
  | long (large : ¬ first < 0x80) (octets : Bytes) (count : octets.length = first.toNat % 128)
      (some : octets ≠ []) (few : octets.length ≤ Channel.maxLengthOctets) :
      LengthOf first octets (Bytes.ofBigEndian octets)

/-- The number of bytes of a length behind its first. -/
def Ber.octetCount (first : UInt8) : Nat := if first < 0x80 then 0 else first.toNat % 128

theorem Ber.LengthOf.octetCount_eq {first : UInt8} {octets : Bytes} {n : Nat} (h : LengthOf first octets n) :
    octetCount first = octets.length := by
  unfold octetCount
  cases h with
  | short small => rw [if_pos small]; rfl
  | long large _ count => rw [if_neg large, count]

theorem Ber.lengthBytes_four {n : Nat} (h : 0x1000000 ≤ n) : lengthBytes n = 0x84 :: Bytes.bigEndian 4 n := by
  unfold lengthBytes
  rw [if_neg (by omega), if_neg (by omega), if_neg (by omega), if_neg (by omega)]

theorem Reader.length_ok {r r' : Reader} {n : Nat} (h : Reader.length.run r = (.ok n, r')) :
    ∃ first octets, r.rest = first :: (octets ++ r'.rest) ∧ Ber.LengthOf first octets n := by
  unfold Reader.length at h
  obtain ⟨first, r1, h1, h⟩ := Step.run_bind_ok.1 h
  have front := Acse.byte_ok h1
  split at h
  next small =>
    obtain ⟨hn, rfl⟩ := Prod.mk.inj h
    obtain rfl := Except.ok.inj hn
    exact ⟨first, [], front, .short small⟩
  next large =>
    dsimp only at h
    split at h
    · exact absurd h Step.run_throw_ne_ok
    next counted =>
      obtain ⟨octets, r2, h2, h⟩ := Step.run_bind_ok.1 h
      obtain ⟨hn, rfl⟩ := Prod.mk.inj h
      obtain rfl := Except.ok.inj hn
      rw [run_take] at h2
      split at h2
      · exact absurd (Prod.mk.inj h2).1 (by simp)
      next enough =>
        obtain ⟨taken, rfl⟩ := Prod.mk.inj h2
        obtain rfl := Except.ok.inj taken
        have count : (r1.rest.take (first.toNat % 128)).length = first.toNat % 128 := by
          rw [List.length_take]
          omega
        refine ⟨first, _, ?_, .long large _ count ?_ ?_⟩
        · rw [front, List.take_append_drop]
        · exact List.ne_nil_of_length_pos (by omega)
        · rw [count, Channel.maxLengthOctets]
          omega

namespace Acse

/-- The bytes are the start tag, a length, and so many bytes. -/
def IsFrame (bytes : Bytes) : Prop :=
  ∃ first octets elements, bytes = apduTag :: first :: (octets ++ elements) ∧
    Ber.LengthOf first octets elements.length

/-- A length in more than four bytes is none. -/
theorem isFrame_apduOf_iff {elements : Bytes} : IsFrame (Outgoing.apduOf elements) ↔ elements.length < 0x1000000 := by
  constructor
  · rintro ⟨first, octets, behind, whole, length⟩
    refine Nat.lt_of_not_le fun long => ?_
    rw [Outgoing.apduOf, Ber.lengthBytes_four long] at whole
    obtain ⟨rfl, -⟩ := List.cons.inj (List.cons.inj whole).2
    generalize behind.length = n at length
    cases length with
    | short small => exact absurd small (by decide)
    | long _ _ count _ few =>
      rw [count] at few
      exact absurd few (by decide)
  · intro short
    have read := Reader.takes_length short 0 []
    obtain ⟨first, octets, front, length⟩ := Reader.length_ok read
    have whole : Ber.lengthBytes elements.length = first :: octets := by simpa using front
    exact ⟨first, octets, elements, by rw [Outgoing.apduOf, whole, List.cons_append], length⟩

namespace Incoming

theorem takeFront_ok {r r' : Reader} {left : Nat} (h : takeFront.run r = (.ok left, r')) :
    left = r'.rest.length ∧ ∃ first octets, r.rest = apduTag :: first :: (octets ++ r'.rest) ∧
      Ber.LengthOf first octets r'.rest.length := by
  obtain ⟨tag, r1, h1, h⟩ := Step.run_bind_ok.1 h
  dsimp only at h
  split at h
  · exact absurd h Step.run_throw_ne_ok
  next start =>
    obtain ⟨n, r2, h2, h⟩ := Step.run_bind_ok.1 h
    obtain ⟨left, r3, h3, h⟩ := Step.run_bind_ok.1 h
    obtain ⟨counted, rfl⟩ := Prod.mk.inj h3
    obtain rfl := Except.ok.inj counted
    split at h
    · exact absurd h Step.run_throw_ne_ok
    next same =>
      obtain ⟨result, rfl⟩ := Prod.mk.inj h
      obtain ⟨first, octets, front, length⟩ := Reader.length_ok h2
      refine ⟨(Except.ok.inj result).symm, first, octets, ?_, Decidable.not_not.1 same ▸ length⟩
      rw [byte_ok h1, front, Decidable.not_not.1 start]

/-- **An APDU that can be taken apart is a frame.** -/
theorem isFrame_of_parse {bytes : Bytes} {max : UInt32} {m : Incoming} (h : parse bytes max = .ok m) :
    IsFrame bytes := by
  have run : (takeApdu max).run (Reader.ofBytes bytes) = (.ok m, _) := Step.run_eq_of_fst h
  rw [takeApdu_eq] at run
  obtain ⟨left, r, front, -⟩ := Step.run_bind_ok.1 run
  obtain ⟨-, first, octets, whole, length⟩ := takeFront_ok front
  exact ⟨first, octets, r.rest, whole, length⟩

end Incoming

end Acse

/-! ## Frames on their way -/

/-- A frame as it comes, each byte at its moment, behind garbage. -/
structure Delivery where
  garbage : List Timed
  frame : List Timed
  clean : ∀ x ∈ garbage, x.2 ≠ Acse.apduTag

namespace Delivery

variable (d : Delivery)

/-- All of it. -/
def all : List Timed := d.garbage ++ d.frame

/-- The bytes of the frame. -/
def bytes : Bytes := d.frame.map (·.2)

/-- The parts in which it is read: up to the start tag, the first byte of the length, the other ones, and the
elements. -/
def parts : List (List Timed) :=
  let count := Ber.octetCount (d.bytes.getD 1 0)
  [d.garbage ++ d.frame.take 1, (d.frame.drop 1).take 1, (d.frame.drop 2).take count, d.frame.drop (count + 2)]

theorem mem_all_of_mem_parts {d : Delivery} {part : List Timed} {x : Timed} (h : part ∈ d.parts) (hx : x ∈ part) :
    x ∈ d.all := by
  simp only [parts, List.mem_cons, List.not_mem_nil, or_false] at h
  rcases h with rfl | rfl | rfl | rfl
  · rcases List.mem_append.1 hx with hx | hx
    · exact List.mem_append_left _ hx
    · exact List.mem_append_right _ (List.mem_of_mem_take hx)
  · exact List.mem_append_right _ (List.mem_of_mem_drop (List.mem_of_mem_take hx))
  · exact List.mem_append_right _ (List.mem_of_mem_drop (List.mem_of_mem_take hx))
  · exact List.mem_append_right _ (List.mem_of_mem_drop hx)

theorem parts_eq {d : Delivery} {start head : Timed} {octets elements : List Timed}
    (h : d.frame = start :: head :: (octets ++ elements))
    (length : Ber.LengthOf head.2 (octets.map (·.2)) elements.length) :
    d.parts = [d.garbage ++ [start], [head], octets, elements] := by
  have count : Ber.octetCount (d.bytes.getD 1 0) = octets.length := by
    rw [bytes, h, List.map_cons, List.map_cons]
    exact length.octetCount_eq.trans (List.length_map _)
  unfold parts
  rw [count, h]
  simp

end Delivery

namespace Channel

/-- The deadline for the next part of an APDU, as of some moment. -/
def grace (deadline now : Moment) : Moment := if deadline ≤ now then now + lateRemainder else deadline

/-- Each part comes before the deadline for it. -/
def InParts (limit : Moment → Moment) (deadline : Moment) : (now : Moment) → List (List Timed) → Prop
  | _, [] => True
  | now, part :: rest =>
    (∀ x ∈ part, x.1 ≤ max now (limit (grace deadline now))) ∧ InParts limit deadline (latest now part) rest

/-- What comes before the deadline comes before the one for the next part. -/
theorem le_grace {limit : Moment → Moment} {deadline now moment : Moment} (below : limit deadline ≤ deadline)
    (h : moment ≤ max now (limit deadline)) : moment ≤ max now (limit (grace deadline now)) := by
  unfold grace
  split
  next past =>
    have due : limit deadline ≤ max now (limit (now + lateRemainder)) :=
      Nat.le_trans below (Nat.le_trans past (Nat.le_max_left _ _))
    exact Nat.le_trans h (Nat.max_le.2 ⟨Nat.le_max_left _ _, due⟩)
  · exact h

/-- What comes before the deadline is in time. -/
theorem inParts_of_le {limit : Moment → Moment} {deadline now : Moment} (below : limit deadline ≤ deadline)
    {parts : List (List Timed)} (h : ∀ part ∈ parts, ∀ x ∈ part, x.1 ≤ max now (limit deadline)) :
    InParts limit deadline now parts := by
  induction parts generalizing now with
  | nil => trivial
  | cons part parts ih =>
    have first := h part List.mem_cons_self
    refine ⟨fun x hx => le_grace below (first x hx), ih fun other hother x hx => ?_⟩
    have timely := h other (List.mem_cons_of_mem part hother) x hx
    have since : now ≤ max (latest now part) (limit deadline) :=
      Nat.le_trans (le_latest now part) (Nat.le_max_left _ _)
    exact Nat.le_trans timely (Nat.max_le.2 ⟨since, Nat.le_max_right _ _⟩)

theorem remainderDeadline_run (deadline : Moment) (c : Channel) :
    (remainderDeadline deadline).run c = (.ok (grace deadline c.now), c) := by
  unfold remainderDeadline grace
  rw [Step.run_get_bind, Step.run_pure]

/-- The part of an APDU behind one that was read. -/
theorem readRemainder_run {c : Channel} {deadline : Moment} {count : Nat} {part more : List Timed} (h : c.Unhindered)
    (due : c.due = since c.now (part ++ more)) (length : part.length = count)
    (timely : ∀ x ∈ part, x.1 ≤ max c.now (c.limit (grace deadline c.now))) :
    ∃ c', (remainderDeadline deadline >>= readExactUntil count).run c = (.ok (part.map (·.2)), c') ∧
      Later c c' count ∧ c'.due = since c'.now more ∧ c'.now = latest c.now part := by
  have known := remainderDeadline_run deadline c
  generalize grace deadline c.now = last at timely known
  have fixed (now : Moment) : c.extend (.whole last) (c.limit last) now = c.limit last := c.limit_limit last
  rw [Step.run_bind_of_ok known]
  exact (readFirst_run h due length rfl).1 ((inTime_const fixed).2 timely)

theorem readLengthOctets_run {c : Channel} {deadline : Moment} {first : UInt8} {n : Nat} {octets more : List Timed}
    (h : c.Unhindered) (due : c.due = since c.now (octets ++ more))
    (length : Ber.LengthOf first (octets.map (·.2)) n)
    (timely : ∀ x ∈ octets, x.1 ≤ max c.now (c.limit (grace deadline c.now))) :
    ∃ c', (readLengthOctets first deadline).run c = (.ok (octets.map (·.2), n), c') ∧
      Later c c' octets.length ∧ c'.due = since c'.now more ∧ c'.now = latest c.now octets := by
  generalize hbytes : octets.map (·.2) = bytes at length
  unfold readLengthOctets
  cases length with
  | short small =>
    obtain rfl := List.map_eq_nil_iff.1 hbytes
    rw [if_pos small]
    exact ⟨c, rfl, refl_later h, due, rfl⟩
  | long large _ count some few =>
    have counted : ¬ (first.toNat % 128 = 0 ∨ first.toNat % 128 > maxLengthOctets) := by
      rw [← count, not_or]
      exact ⟨fun none => some (List.eq_nil_of_length_eq_zero none), Nat.not_lt.2 few⟩
    have size : octets.length = first.toNat % 128 := by rw [← count, ← hbytes, List.length_map]
    obtain ⟨c', read, later, due', now⟩ := readRemainder_run h due size timely
    rw [if_neg large]
    dsimp only
    rw [if_neg counted, ← bind_assoc, Step.run_bind_of_ok read, size, ← hbytes]
    exact ⟨c', rfl, later, due', now⟩

/-- A read of an APDU gives the next frame, if the start tag comes before the deadline and the other parts in time. -/
theorem readApdu_run_started {c : Channel} {timeout : Duration} {d : Delivery} {more : List Timed} (h : c.Unhindered)
    (due : c.due = since c.now (d.all ++ more)) (frame : Acse.IsFrame d.bytes)
    (started : ∀ x ∈ d.garbage ++ d.frame.take 1, x.1 ≤ max c.now (c.limit (c.now + timeout)))
    (timely : InParts c.limit (c.now + timeout) (latest c.now (d.garbage ++ d.frame.take 1)) d.parts.tail) :
    ∃ c', (readApdu timeout).run c = (.ok d.bytes, c') ∧ Later c c' d.all.length ∧ c'.due = since c'.now more ∧
      c'.now = latest c.now d.all := by
  obtain ⟨first, _, _, hbytes, length⟩ := frame
  obtain ⟨start, rest, hframe, hstart, hrest⟩ := List.map_eq_cons_iff.1 hbytes
  obtain ⟨head, rest, rfl, rfl, hrest'⟩ := List.map_eq_cons_iff.1 hrest
  obtain ⟨octets, elements, rfl, rfl, rfl⟩ := List.map_eq_append_iff.1 hrest'
  rw [List.length_map] at length
  have one : d.frame.take 1 = [start] := by rw [hframe, List.take_succ_cons, List.take_zero]
  rw [Delivery.parts_eq hframe length, List.tail_cons, one] at timely
  rw [one] at started
  obtain ⟨headTimely, octetsTimely, elementsTimely, -⟩ := timely
  have due0 : c.due = since c.now (d.garbage ++ start :: ([head] ++ (octets ++ (elements ++ more)))) := by
    rw [due, Delivery.all, hframe]
    simp
  have noise : ∀ x ∈ d.garbage, x.2 ∉ [Acse.apduTag] := fun x hx => by simpa using d.clean x hx
  have found : start.2 ∈ [Acse.apduTag] := by
    rw [hstart]
    exact List.mem_singleton_self _
  obtain ⟨c1, read1, later1, due1, now1⟩ := (readStart_run h due0 noise found).1 started
  -- from here on, each part is read as of the moment the one before had come
  have limit1 := later1.limit_eq
  rw [← now1, ← limit1] at headTimely
  obtain ⟨c2, read2, later2, due2, now2⟩ :=
    readRemainder_run later1.unhindered due1 List.length_singleton headTimely
  have limit2 := later2.limit_eq.trans limit1
  rw [← now1, ← now2, ← limit2] at octetsTimely
  obtain ⟨c3, read3, later3, due3, now3⟩ := readLengthOctets_run later2.unhindered due2 length octetsTimely
  have limit3 := later3.limit_eq.trans limit2
  rw [← now1, ← now2, ← now3, ← limit3] at elementsTimely
  have front := (later1.trans later2).trans later3
  have whole : d.all = (d.garbage ++ [start]) ++ [head] ++ octets ++ elements := by
    rw [Delivery.all, hframe]
    simp
  have size : d.garbage.length + 1 + 1 + octets.length + elements.length = d.all.length := by
    simp only [whole, List.length_append, List.length_singleton]
  have now (n : Moment) (hn : n = latest c3.now elements) : n = latest c.now d.all := by
    simp only [hn, now3, now2, now1, whole, latest_append]
  have first : ([head].map (·.2)).getD 0 0 = head.2 := rfl
  unfold readApdu
  rw [Step.run_get_bind, Step.run_bind_of_ok read1, ← bind_assoc, Step.run_bind_of_ok read2, first]
  dsimp only
  rw [Step.run_bind_of_ok read3]
  dsimp only
  by_cases none : elements.length = 0
  · rw [if_neg (by omega), Step.run_pure_bind]
    obtain rfl := List.eq_nil_of_length_eq_zero none
    refine ⟨c3, ?_, size ▸ front, due3, now _ rfl⟩
    rw [hbytes, Step.run_pure]
    rfl
  · obtain ⟨c4, read4, later4, due4, now4⟩ := readRemainder_run later3.unhindered due3 rfl elementsTimely
    rw [if_pos (Nat.pos_of_ne_zero none), ← bind_assoc, Step.run_bind_of_ok read4]
    refine ⟨c4, ?_, size ▸ front.trans later4, due4, now _ now4⟩
    rw [hbytes, Step.run_pure]
    rfl

/-- **A read of an APDU** gives the next frame, if its parts come in time. -/
theorem readApdu_run {c : Channel} {timeout : Duration} {d : Delivery} {more : List Timed} (h : c.Unhindered)
    (due : c.due = since c.now (d.all ++ more)) (frame : Acse.IsFrame d.bytes) (positive : timeout ≠ 0)
    (timely : InParts c.limit (c.now + timeout) c.now d.parts) :
    ∃ c', (readApdu timeout).run c = (.ok d.bytes, c') ∧ Later c c' d.all.length ∧ c'.due = since c'.now more ∧
      c'.now = latest c.now d.all := by
  have ahead : grace (c.now + timeout) c.now = c.now + timeout :=
    if_neg (Nat.not_le.2 (Nat.lt_add_of_pos_right (Nat.pos_of_ne_zero positive)))
  exact readApdu_run_started h due frame (ahead ▸ timely.1) timely.2

/-! ## What a read of an APDU consumes -/

theorem remainderDeadline_quiet (deadline : Moment) : Moves Quiet (remainderDeadline deadline) :=
  .bind .get fun _ => .pure _

theorem readRemainder_reads (deadline : Moment) (count : Nat) :
    Moves Reads (remainderDeadline deadline >>= readExactUntil count) :=
  .bind ((remainderDeadline_quiet deadline).mono fun _ _ => Quiet.reads) fun _ => readExactly_reads _ _

theorem readRemainder_ok {deadline : Moment} {count : Nat} {c c' : Channel} {bytes : Bytes}
    (h : (remainderDeadline deadline >>= readExactUntil count).run c = (.ok bytes, c')) :
    bytes.length = count ∧ Observed c c' bytes [] := by
  obtain ⟨_, c1, known, h⟩ := Step.run_bind_ok.1 h
  obtain ⟨length, read⟩ := readExactly_ok h
  exact ⟨length, ((remainderDeadline_quiet deadline).of_run known).trans read⟩

theorem readLengthOctets_reads (first : UInt8) (deadline : Moment) :
    Moves Reads (readLengthOctets first deadline) := by
  unfold readLengthOctets
  split
  · exact .pure _
  dsimp only
  split
  · exact .throw_bind _ _
  · rw [← bind_assoc]
    exact .bind (readRemainder_reads deadline _) fun _ => .pure _

theorem readLengthOctets_ok {first : UInt8} {deadline : Moment} {c c' : Channel} {octets : Bytes} {n : Nat}
    (h : (readLengthOctets first deadline).run c = (.ok (octets, n), c')) : Observed c c' octets [] := by
  unfold readLengthOctets at h
  split at h
  · obtain ⟨result, rfl⟩ := Prod.mk.inj h
    obtain ⟨rfl, -⟩ := Prod.mk.inj (Except.ok.inj result)
    exact .of_eq rfl rfl
  dsimp only at h
  split at h
  · exact absurd h Step.run_throw_ne_ok
  · rw [← bind_assoc] at h
    obtain ⟨bytes, c1, read, h⟩ := Step.run_bind_ok.1 h
    obtain ⟨result, rfl⟩ := Prod.mk.inj h
    obtain ⟨rfl, -⟩ := Prod.mk.inj (Except.ok.inj result)
    exact (readRemainder_ok read).2

theorem readApdu_reads (timeout : Duration) : Moves Reads (readApdu timeout) := by
  refine .bind .get fun c => .bind (readStart_reads _ _) fun _ => ?_
  rw [← bind_assoc]
  refine .bind (readRemainder_reads _ _) fun first => .bind (readLengthOctets_reads _ _) fun ⟨octets, length⟩ => ?_
  dsimp only
  split
  · rw [← bind_assoc]
    exact .bind (readRemainder_reads _ _) fun _ => .pure _
  · exact .pure _

/-- **An APDU that is read** is consumed in one piece, with what stands in front of it. -/
theorem readApdu_ok {timeout : Duration} {c c' : Channel} {bytes : Bytes}
    (h : (readApdu timeout).run c = (.ok bytes, c')) : ∃ garbage, Observed c c' (garbage ++ bytes) [] := by
  unfold readApdu at h
  rw [Step.run_get_bind] at h
  obtain ⟨tag, c1, started, h⟩ := Step.run_bind_ok.1 h
  rw [← bind_assoc] at h
  obtain ⟨head, c2, read2, h⟩ := Step.run_bind_ok.1 h
  dsimp only at h
  obtain ⟨⟨octets, length⟩, c3, read3, h⟩ := Step.run_bind_ok.1 h
  obtain ⟨wanted, garbage, consumed1⟩ := readStart_ok started
  obtain rfl := List.mem_singleton.1 wanted
  obtain ⟨one, consumed2⟩ := readRemainder_ok read2
  obtain ⟨first, rfl⟩ := List.length_eq_one_iff.1 one
  have consumed := (consumed1.trans consumed2).trans (readLengthOctets_ok read3)
  refine ⟨garbage, ?_⟩
  dsimp only at h
  split at h
  · rw [← bind_assoc] at h
    obtain ⟨elements, c4, read4, h⟩ := Step.run_bind_ok.1 h
    obtain ⟨result, rfl⟩ := Prod.mk.inj h
    obtain rfl := Except.ok.inj result
    simpa using consumed.trans (readRemainder_ok read4).2
  · obtain ⟨result, rfl⟩ := Prod.mk.inj h
    obtain rfl := Except.ok.inj result
    simpa using consumed

end Channel

end Metering
