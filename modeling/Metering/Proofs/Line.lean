import Metering.Line
import Metering.Proofs.Steps

set_option autoImplicit false

/-! # The traffic on a line

Of a line that is used two records grow: what reads took from it (`Line.stream`) and what writes put
on it (`Line.written`). A read adds to the first one what it gives, a write adds to the second one
what it takes, and nothing else adds to either: flushing only turns pending bytes into a message. -/

namespace Metering.Line

open Step (Moves Same)

/-- All bytes that reads took. -/
def stream (l : Line) : Bytes := l.heard.reverse.flatten

/-- All bytes that the line took. -/
def written (l : Line) : Bytes := l.messages.flatten ++ l.pending

def traffic (l : Line) : Bytes × Bytes := (l.stream, l.written)

/-! ## Steps without traffic -/

theorem schedule_traffic (t : Moment) (event : Event) (l : Line) :
    (l.schedule t event).traffic = l.traffic := by
  unfold schedule
  split
  · split <;> rfl
  · rfl
  · rfl

theorem waitFor_traffic (arrival : Option Moment) (deadline : Moment) (honour : Bool) (l : Line) :
    (l.waitFor arrival deadline honour).2.traffic = l.traffic := by
  unfold waitFor
  extract_lets target due
  split
  · rfl
  split
  · rfl
  split
  · rfl
  split <;> rfl

theorem passTime_traffic (delay : Duration) (deadline : Option Moment) :
    Moves (Same traffic) (passTime delay deadline) := by
  intro l
  unfold passTime
  rw [Step.run_get_bind]
  cases deadline with
  | none => rfl
  | some d =>
    dsimp only
    split
    · rfl
    · split <;> rfl

theorem messages_note (l : Line) (bytes : Bytes) :
    (l.note (.message bytes)).messages = l.messages ++ [bytes] := by
  simp [messages, note]

theorem planEcho_traffic (message : Bytes) (l : Line) : (l.planEcho message).traffic = l.traffic := by
  unfold planEcho
  split
  · exact schedule_traffic _ _ l
  · rfl

theorem post_traffic (l : Line) : l.post.traffic = l.traffic := by
  rw [traffic, written, post, messages_note]
  simp [traffic, written, stream, note, messages]

theorem planAnswer_traffic (l : Line) : l.planAnswer.traffic = l.traffic := by
  have planned (events : List (Duration × Event)) (l : Line) :
      (events.foldl (fun l e => l.schedule (l.now + e.1) e.2) l).traffic = l.traffic := by
    induction events generalizing l with
    | nil => rfl
    | cons e rest ih => rw [List.foldl_cons, ih, schedule_traffic]
  unfold planAnswer
  split
  · rfl
  · exact planned _ _

theorem deliver_traffic (l : Line) : l.deliver.traffic = l.traffic := by
  unfold deliver
  split
  · rfl
  · rw [planAnswer_traffic, post_traffic, planEcho_traffic]

theorem note_traffic {entry : LineEntry} (h : ∀ bytes, entry ≠ .message bytes) (l : Line) :
    (l.note entry).traffic = l.traffic := by
  have same : (l.note entry).messages = l.messages := by
    cases entry with
    | message bytes => exact absurd rfl (h bytes)
    | opened | closed | baud => simp [messages, note]
  rw [traffic, written, same]
  rfl

theorem openUp_traffic : Moves (Same traffic) openUp := by
  refine .get_bind fun l => ?_
  rcases nextOutcome l.opens with ⟨outcome, opens⟩
  have noted : ({ l.note .opened with opens } : Line).traffic = l.traffic := note_traffic (by simp) l
  cases outcome <;> exact noted

theorem close_traffic : Moves (Same traffic) close := by
  refine .get_bind fun l => ?_
  rcases nextOutcome l.closes with ⟨outcome, closes⟩
  have noted : ({ l.note .closed with isClosed := true, closes } : Line).traffic = l.traffic := note_traffic (by simp) l
  cases outcome <;> exact noted

theorem setBaud_traffic (speed : Nat) : Moves (Same traffic) (setBaud speed) :=
  .bind (.modify fun l => note_traffic (by simp) l) fun _ => .bind .get fun _ =>
    .ite (.throw_bind _ _) (.modify fun _ => rfl)

/-! ## Reading and writing -/

/-- The bytes that a read gives. -/
def Heard.bytes : Except Fault Heard → Bytes
  | .ok (.data bytes) => bytes
  | _ => []

theorem takeArrival_traffic (max : Nat) (l : Line) :
    ((takeArrival max).run l).2.traffic =
      (l.stream ++ Heard.bytes ((takeArrival max).run l).1, l.written) := by
  unfold takeArrival
  rw [Step.run_get_bind]
  split
  · exact Prod.ext (List.append_nil _).symm rfl
  · rw [Step.run_set_bind, Step.run_pure]
    exact Prod.ext (by simp [traffic, stream, Heard.bytes]) rfl
  · exact Prod.ext (List.append_nil _).symm rfl
  · exact Prod.ext (List.append_nil _).symm rfl

/-- What a read gives is what it took from the line. -/
theorem read_traffic (deadline : Moment) (honour : Bool) (max : Nat) (l : Line) :
    ((read deadline honour max).run l).2.traffic =
      (l.stream ++ Heard.bytes ((read deadline honour max).run l).1, l.written) := by
  have waited := waitFor_traffic l.nextArrival? deadline honour l
  unfold read
  -- waiting moves the clock only; what arrived is taken afterwards
  rw [Step.run_get_bind, await]
  rcases hw : l.waitFor l.nextArrival? deadline honour with ⟨wake, t⟩
  rw [hw] at waited
  obtain ⟨stream, written⟩ : t.stream = l.stream ∧ t.written = l.written := Prod.mk.inj waited
  have quiet : t.traffic = (l.stream ++ [], l.written) := by rw [List.append_nil]; exact waited
  cases wake with
  | cancelled => exact quiet
  | elapsed => exact quiet
  | arrived =>
    have taken := takeArrival_traffic max t
    rw [stream, written] at taken
    exact taken

/-- A write takes bytes from the front of what it is given, and says how many. -/
theorem write_traffic (deadline : Option Moment) (bytes : Bytes) (l : Line) :
    ∃ n, ((write deadline bytes).run l).2.traffic = (l.stream, l.written ++ bytes.take n) ∧
      ∀ k, ((write deadline bytes).run l).1 = .ok (some k) → k = n := by
  unfold write
  rw [Step.run_get_bind]
  rcases nextOutcome l.writes with ⟨outcome, writes⟩
  dsimp only
  rw [Step.run_set_bind]
  cases outcome with
  | failure words => exact ⟨0, by simp [traffic, written, stream, messages], fun k h => by cases h⟩
  | nothing =>
    refine ⟨0, by simp [traffic, written, stream, messages], fun k h => ?_⟩
    exact (Option.some.inj (Except.ok.inj h)).symm
  | success =>
    dsimp only
    rw [Step.run_modify_bind]
    generalize hn : (if l.writeChunk = 0 then bytes.length else min bytes.length l.writeChunk) = n
    -- the bytes are taken before time can run out
    have passed := passTime_traffic l.writeDelay deadline
      { l with writes, pending := l.pending ++ bytes.take n }
    have taken : ({ l with writes, pending := l.pending ++ bytes.take n } : Line).traffic =
        (l.stream, l.written ++ bytes.take n) := by
      simp [traffic, written, stream, messages]
    rw [Step.run_bind]
    rcases hp : (passTime l.writeDelay deadline).run
      { l with writes, pending := l.pending ++ bytes.take n } with ⟨r, t⟩
    rw [hp] at passed
    replace passed : t.traffic = (l.stream, l.written ++ bytes.take n) := Eq.trans passed taken
    refine ⟨n, ?_, ?_⟩
    · cases r with
      | error e => exact passed
      | ok timely => cases timely <;> exact passed
    · intro k h
      cases r with
      | error e => cases h
      | ok timely =>
        cases timely with
        | false => cases h
        | true => exact (Option.some.inj (Except.ok.inj h)).symm

theorem flush_traffic (deadline : Option Moment) : Moves (Same traffic) (flush deadline) := by
  intro l
  unfold flush
  rw [Step.run_get_bind, Step.run_bind]
  have passed := passTime_traffic l.flushDelay deadline l
  rcases hp : (passTime l.flushDelay deadline).run l with ⟨r, t⟩
  rw [hp] at passed
  cases r with
  | error e => exact passed
  | ok timely =>
    cases timely with
    | false => exact passed
    | true =>
      dsimp only
      rw [if_pos rfl, Step.run_get_bind]
      rcases nextOutcome t.flushes with ⟨outcome, flushes⟩
      dsimp only
      rw [Step.run_set_bind]
      cases outcome with
      | failure words => exact passed
      | success => exact (deliver_traffic _).trans passed
      | nothing => exact (deliver_traffic _).trans passed

end Metering.Line
