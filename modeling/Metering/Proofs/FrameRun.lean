import Metering.Proofs.FrameBuffer
import Metering.Proofs.Ring

set_option autoImplicit false

/-! # Runs of a frame buffer

What a frame buffer holds is a pair of lists: bytes are put in front of the header and behind the body, the body is
changed in its place, and both are dropped together. `FrameBuffer.Call.onBuffer` does it with one storage that has free
room in front, `FrameBuffer.Call.onHalves` with the two lists.

One call leaves of the buffer what it leaves of the lists (`Call.halves_onBuffer`), and so does a run of calls. Where
bytes are added the storage may have to grow in front, which shifts all places. Every byte that was held goes along,
so none of them crosses the border between header and body or becomes another one (`Addition.kept`). -/

namespace Metering.FrameBuffer

/-! ## Calls -/

/-- Bytes that are added to a buffer. -/
inductive Addition where
  | append (data : Bytes)
  | appendByte (byte : UInt8)
  | prepend (data : Bytes)
  | prependByte (byte : UInt8)
  | prependLength (n : Nat)

/-- Something done with a buffer. -/
inductive Call where
  | add (a : Addition)
  | changeBody (f : InPlace)
  | clear

/-- A header and a body. -/
structure Halves where
  header : Bytes
  body : Bytes

/-- What a buffer holds. -/
def halves (b : FrameBuffer) : Halves := ⟨b.header, b.body⟩

/-- Bytes are added to a buffer. -/
def Addition.onBuffer (b : FrameBuffer) : Addition → FrameBuffer
  | .append data => b.append data
  | .appendByte byte => b.appendByte byte
  | .prepend data => b.prepend data
  | .prependByte byte => b.prependByte byte
  | .prependLength n => b.prependLength n

/-- The same bytes are added to the lists. -/
def Addition.onHalves (held : Halves) : Addition → Halves
  | .append data => { held with body := held.body ++ data }
  | .appendByte byte => { held with body := held.body ++ [byte] }
  | .prepend data => { held with header := data ++ held.header }
  | .prependByte byte => { held with header := byte :: held.header }
  | .prependLength n => { held with header := Ber.lengthBytes n ++ held.header }

/-- A call on a buffer. -/
def Call.onBuffer (b : FrameBuffer) : Call → FrameBuffer
  | .add a => a.onBuffer b
  | .changeBody f => b.changeBody f
  | .clear => b.clear

/-- The same call on the lists. -/
def Call.onHalves (held : Halves) : Call → Halves
  | .add a => a.onHalves held
  | .changeBody f => { held with body := f.change held.body }
  | .clear => ⟨[], []⟩

variable {b b' b'' : FrameBuffer} {m n : Nat}

/-! ## What a buffer holds -/

theorem finish_eq (b : FrameBuffer) : b.finish = b.toList := by
  rw [finish, List.splitAt_eq]
  rfl

theorem headerLength_eq (b : FrameBuffer) : b.headerLength = b.header.length := by
  have le := b.bodyStart_le
  rw [headerLength, header, List.length_drop, List.length_take, Nat.min_eq_left le]

theorem isEmpty_iff (b : FrameBuffer) : b.isEmpty = true ↔ b.header ++ b.body = [] := by
  rw [isEmpty, decide_eq_true_iff, length_eq, ← List.length_append, List.length_eq_zero_iff]

@[simp] theorem halves_withReserve (reserve : Nat) : (withReserve reserve).halves = ⟨[], []⟩ := by
  rw [halves, header_withReserve, body_withReserve]

theorem halves_clear (b : FrameBuffer) : b.clear.halves = ⟨[], []⟩ := by
  have body : b.clear.body = [] := List.drop_of_length_le (List.length_take_le _ _)
  have header : b.clear.header = [] := by
    refine List.drop_of_length_le ?_
    rw [List.length_take]
    exact Nat.min_le_left _ _
  rw [halves, header, body]

/-- What is changed in its place is replaced, since it stays as long as it was. -/
theorem changeBody_eq (b : FrameBuffer) (f : InPlace) : b.changeBody f = b.setBody (f.change b.body) := by
  have behind : b.storage.drop (b.bodyStart + (f.change b.body).length) = [] := by
    have le := b.bodyStart_le
    refine List.drop_of_length_le ?_
    rw [f.length_change, body, List.length_drop]
    omega
  simp only [changeBody, setBody, Bytes.overwrite, behind, List.append_nil]

/-- To change every byte of the body by itself is to change the body in its place. -/
theorem mapBody_eq (b : FrameBuffer) (f : UInt8 → UInt8) :
    b.mapBody f = b.changeBody ⟨List.map f, fun _ => List.length_map f⟩ := by
  rw [changeBody_eq]
  rfl

theorem Addition.halves_onBuffer (b : FrameBuffer) (a : Addition) : (a.onBuffer b).halves = a.onHalves b.halves := by
  have behind (data : Bytes) : (b.append data).halves = ⟨b.header, b.body ++ data⟩ := by
    rw [halves, header_append, body_append]
  have before (data : Bytes) : (b.prepend data).halves = ⟨data ++ b.header, b.body⟩ := by
    rw [halves, header_prepend, body_prepend]
  cases a with
  | append data => exact behind data
  | appendByte byte => exact behind [byte]
  | prepend data => exact before data
  | prependByte byte => exact before [byte]
  | prependLength n =>
    show (b.prependLength n).halves = ⟨Ber.lengthBytes n ++ b.header, b.body⟩
    rw [halves, header_prependLength, body_prependLength]

/-- **One call** leaves of the buffer what it leaves of the lists. -/
theorem Call.halves_onBuffer (b : FrameBuffer) (call : Call) : (call.onBuffer b).halves = call.onHalves b.halves := by
  cases call with
  | add a => exact a.halves_onBuffer b
  | changeBody f =>
    show (b.changeBody f).halves = ⟨b.header, f.change b.body⟩
    rw [changeBody_eq, halves, header_setBody, body_setBody]
  | clear => exact b.halves_clear

/-- **A run** leaves of the buffer what it leaves of the lists. -/
theorem Call.halves_run (b : FrameBuffer) (calls : List Call) :
    (calls.foldl onBuffer b).halves = calls.foldl onHalves b.halves := by
  induction calls generalizing b with
  | nil => rfl
  | cons call more ih =>
    rw [List.foldl_cons, List.foldl_cons, ih, call.halves_onBuffer]

/-! ## What growth keeps -/

/-- Every byte that was held is what it was, `shift` places further on, and so is the border. -/
structure Kept (b b' : FrameBuffer) (shift : Nat) : Prop where
  byte : ∀ place, b.start ≤ place → place < b.storage.length → b'.storage[place + shift]? = b.storage[place]?
  start : b'.start ≤ b.start + shift
  border : b'.bodyStart = b.bodyStart + shift

namespace Kept

theorem refl (b : FrameBuffer) : b.Kept b 0 := ⟨fun _ _ _ => rfl, Nat.le_refl _, rfl⟩

theorem trans (h : b.Kept b' m) (h' : b'.Kept b'' n) : b.Kept b'' (m + n) where
  byte := by
    intro place held inside
    have first := h.byte place held inside
    have inside' : place + m < b'.storage.length := by
      rw [List.getElem?_eq_getElem inside] at first
      exact (List.getElem?_eq_some_iff.1 first).1
    have second := h'.byte (place + m) (Nat.le_trans h.start (Nat.add_le_add_right held m)) inside'
    rw [← Nat.add_assoc, second, first]
  start := by
    have := h.start
    have := h'.start
    omega
  border := by
    rw [h'.border, h.border, Nat.add_assoc]

/-- No byte crosses the border. -/
theorem lt_border_iff (h : b.Kept b' m) (place : Nat) : place + m < b'.bodyStart ↔ place < b.bodyStart := by
  rw [h.border]
  exact Nat.add_lt_add_iff_right

end Kept

/-- Where more room is made, the whole storage is shifted. -/
theorem makeRoom_shifts (b : FrameBuffer) (count : Nat) :
    ∃ shift, (b.makeRoom count).start = b.start + shift ∧ (b.makeRoom count).bodyStart = b.bodyStart + shift ∧
      ∀ place, (b.makeRoom count).storage[place + shift]? = b.storage[place]? := by
  unfold makeRoom
  split
  · exact ⟨0, rfl, rfl, fun _ => rfl⟩
  · refine ⟨_, rfl, rfl, fun place => ?_⟩
    dsimp only
    rw [List.getElem?_append_right (by rw [List.length_replicate]; exact Nat.le_add_left _ _), List.length_replicate,
      Nat.add_sub_cancel]

theorem kept_append (b : FrameBuffer) (data : Bytes) : b.Kept (b.append data) 0 where
  byte := fun _ _ inside => List.getElem?_append_left inside
  start := Nat.le_refl _
  border := rfl

/-- The bytes that are put in front lie in the free room. -/
theorem kept_prepend (b : FrameBuffer) (data : Bytes) : ∃ shift, b.Kept (b.prepend data) shift := by
  have room := b.le_start_makeRoom data.length
  have le := (b.makeRoom data.length).start_le
  have le' := (b.makeRoom data.length).bodyStart_le
  obtain ⟨shift, start, border, byte⟩ := b.makeRoom_shifts data.length
  refine ⟨shift, ?_, ?_, border⟩
  · intro place held _
    -- first the storage is shifted, then what is written ends where the header starts
    rw [← byte place]
    simp only [prepend]
    rw [Bytes.getElem?_overwrite _ _ _ (by omega), if_neg (by omega)]
  · rw [← start]
    exact Nat.sub_le _ _

/-- **Bytes that are added** leave those that were held what and where they were. -/
theorem Addition.kept (b : FrameBuffer) (a : Addition) : ∃ shift, b.Kept (a.onBuffer b) shift := by
  cases a with
  | append data => exact ⟨0, b.kept_append data⟩
  | appendByte byte => exact ⟨0, b.kept_append [byte]⟩
  | prepend data => exact b.kept_prepend data
  | prependByte byte => exact b.kept_prepend [byte]
  | prependLength n =>
    show ∃ shift, b.Kept (b.prependLength n) shift
    rw [prependLength_eq]
    exact b.kept_prepend _

theorem Addition.kept_run (b : FrameBuffer) (more : List Addition) :
    ∃ shift, b.Kept (more.foldl onBuffer b) shift := by
  induction more generalizing b with
  | nil => exact ⟨0, .refl b⟩
  | cons a more ih =>
    obtain ⟨m, first⟩ := a.kept b
    obtain ⟨n, rest⟩ := ih (a.onBuffer b)
    exact ⟨m + n, first.trans rest⟩

/-! ## A buffer as two lists -/

/-- **A frame buffer is a pair of lists.** Whatever is done with a new buffer, its header is the list of what was put
in front and its body that of what was put behind, the whole is the one followed by the other, and the lengths are
theirs. However much is added from there on, every byte held then stays what it is and on its side of the border. -/
theorem buffer_as_lists (reserve : Nat) (calls : List Call) :
    ∃ b header body,
      calls.foldl Call.onBuffer (withReserve reserve) = b ∧ calls.foldl Call.onHalves ⟨[], []⟩ = ⟨header, body⟩ ∧
      b.header = header ∧ b.body = body ∧ b.toList = header ++ body ∧ b.finish = header ++ body ∧
      b.length = (header ++ body).length ∧ b.headerLength = header.length ∧ (b.isEmpty = true ↔ header ++ body = []) ∧
      ∀ more : List Addition, ∃ shift, b.Kept (more.foldl Addition.onBuffer b) shift ∧
        ∀ place, place + shift < (more.foldl Addition.onBuffer b).bodyStart ↔ place < b.bodyStart := by
  have both := Call.halves_run (withReserve reserve) calls
  rw [halves_withReserve] at both
  generalize calls.foldl Call.onBuffer (withReserve reserve) = b at both
  refine ⟨b, b.header, b.body, rfl, both.symm, rfl, rfl, b.toList_eq, b.finish_eq.trans b.toList_eq, ?_,
    b.headerLength_eq, b.isEmpty_iff, fun more => ?_⟩
  · rw [length_eq, List.length_append]
  · obtain ⟨shift, kept⟩ := Addition.kept_run b more
    exact ⟨shift, kept, kept.lt_border_iff⟩

end Metering.FrameBuffer
