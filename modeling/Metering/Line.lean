import Metering.Cancellation
import Metering.Medium
set_option autoImplicit false

/-! # A line with its clock

A `Line` is one medium with everything that will happen on it. Items arrive at given moments; the
far end answers each flushed message with the next of its `answers`, which may depend on all
messages up to then. Time stands still while the client computes. When the client waits, the clock
jumps to the next moment at which something is due (`await`, `pause`).

Two rules order what falls together. A wait that is over at its deadline is over in time, and one
that need not wait is in time even after the deadline. A request to stop is seen before data. -/

namespace Metering

/-! ## What happens on a line -/

/-- How one call on the medium ends. -/
inductive Outcome where
  | success
  | failure (words : String)
  /-- A write takes no bytes. -/
  | nothing
  deriving DecidableEq, Repr

/-- What can be heard on a line. -/
inductive Arrival where
  | data (bytes : Bytes)
  /-- The far end has closed; nothing follows. -/
  | ended
  /-- The medium fails once. -/
  | failure (words : String)
  deriving DecidableEq, Repr

/-- The number of bytes in what is heard. -/
def Arrival.size : Arrival → Nat
  | data bytes => bytes.length
  | _ => 0

/-- What happens at some moment. -/
inductive Event where
  | arrival (item : Arrival)
  /-- The caller asks the running operation to stop. -/
  | cancel
  deriving DecidableEq, Repr

/-- One answer of the far end: events, each some time after the message, given all messages so
far, oldest first. -/
abbrev FarAnswer := List Bytes → List (Duration × Event)

/-- What was done to the medium. -/
inductive LineEntry where
  | message (bytes : Bytes)
  | opened
  | closed
  | baud (speed : Nat)
  deriving DecidableEq, Repr

/-- A medium, its clock and its far end. -/
structure Line where
  kind : MediumKind := .memory
  /-- The medium says that every written byte is heard again. -/
  echoes : Bool := false
  /-- Every flushed message is heard at once. -/
  autoEcho : Bool := false
  baud : Option Nat := none
  baudRefused : Bool := false
  /-- The most bytes one write takes; zero for all. -/
  writeChunk : Nat := 0
  writeDelay : Duration := 0
  flushDelay : Duration := 0
  /-- How the next calls end; success once the list is empty. -/
  opens : List Outcome := []
  writes : List Outcome := []
  flushes : List Outcome := []
  closes : List Outcome := []
  answers : List FarAnswer := []
  now : Moment := 0
  /-- What arrives, in order of time; no item is empty. -/
  arrivals : List (Moment × Arrival) := []
  /-- When the caller will ask to stop. -/
  cancels : List Moment := []
  handle : CancelHandle := {}
  /-- Written and not yet flushed. -/
  pending : Bytes := []
  isClosed : Bool := true
  /-- What was done, newest first. -/
  history : List (Moment × LineEntry) := []
  /-- The data that reads took, newest first. -/
  heard : List Bytes := []
  /-- When requests to stop were reported, each with the messages sent until then, newest first. -/
  stops : List (Moment × List Bytes) := []

namespace Line

/-! ## Time -/

/-- The number of bytes still to be heard. -/
def waiting (l : Line) : Nat := l.arrivals.foldr (fun a n => a.2.size + n) 0

/-- The moment of the first arrival. -/
def nextArrival? (l : Line) : Option Moment := l.arrivals.head?.map (·.1)

/-- The clock moved forward to `t`. Requests to stop that fall due take effect. -/
def advanceTo (t : Moment) (l : Line) : Line :=
  { l with
    now := max l.now t
    handle := if l.cancels.any (· ≤ t) then l.handle.cancel else l.handle
    cancels := l.cancels.filter (t < ·) }

/-- Puts an item behind all that arrive no later. -/
def insertArrival (moment : Moment) (item : Arrival) : List (Moment × Arrival) → List (Moment × Arrival)
  | [] => [(moment, item)]
  | first :: rest =>
    if first.1 ≤ moment then first :: insertArrival moment item rest
    else (moment, item) :: first :: rest

/-- Plans an event. Empty data are never heard, and a request to stop that is due takes effect. -/
def schedule (moment : Moment) (event : Event) (l : Line) : Line :=
  match event with
  | .cancel =>
    if moment ≤ l.now then { l with handle := l.handle.cancel }
    else { l with cancels := l.cancels ++ [moment] }
  | .arrival (.data []) => l
  | .arrival item => { l with arrivals := insertArrival moment item l.arrivals }

/-- Why a wait is over. -/
inductive Wake where
  | cancelled
  | arrived
  | elapsed
  deriving DecidableEq, Repr

/-- The earlier of two moments, the second of which may never come. -/
def earlier (a : Moment) : Option Moment → Moment
  | none => a
  | some b => min a b

/-- Waits for a request to stop, if it is to be honoured, for an arrival if any is wanted, and for
the deadline, and says which came first. -/
def waitFor (arrival : Option Moment) (deadline : Moment) (honour : Bool) (l : Line) : Wake × Line :=
  let target := earlier deadline arrival
  let due := fun t => match arrival with
    | none => false
    | some a => decide (a ≤ t)
  if honour && l.handle.cancelled then (.cancelled, l)
  else if due l.now then (.arrived, l)
  else if deadline ≤ l.now then (.elapsed, l)
  else match (if honour then (l.cancels.filter (· ≤ target)).min? else none) with
    | some c => (.cancelled, l.advanceTo c)
    | none => (if due target then .arrived else .elapsed, l.advanceTo target)

/-- Waits until something arrives, at most until the deadline. -/
def await (deadline : Moment) (honour : Bool) (l : Line) : Wake × Line :=
  l.waitFor l.nextArrival? deadline honour

/-- Waits until a moment. -/
def pause (moment : Moment) (honour : Bool) (l : Line) : Wake × Line :=
  l.waitFor none moment honour

/-! ## Reading -/

/-- What a read heard. -/
inductive Heard where
  | data (bytes : Bytes)
  | ended
  | elapsed
  | cancelled
  deriving DecidableEq, Repr

/-- Takes up to `max` bytes of the first item. The end of the stream stays, a failure is heard
once. -/
def takeArrival (max : Nat) : Step Line Heard := do
  let l ← get
  match l.arrivals with
  | [] => return .elapsed
  | (moment, .data bytes) :: rest =>
    let left := bytes.drop max
    set { l with
      arrivals := if left.isEmpty then rest else (moment, .data left) :: rest
      heard := bytes.take max :: l.heard }
    return .data (bytes.take max)
  | (_, .ended) :: _ =>
    set { l with isClosed := true }
    return .ended
  | (_, .failure words) :: rest =>
    set { l with arrivals := rest }
    throw (.connection (.reported words))

/-- Waits for an item and takes up to `max` bytes of it. -/
def read (deadline : Moment) (honour : Bool) (max : Nat) : Step Line Heard := do
  let (wake, l) := (← get).await deadline honour
  set l
  match wake with
  | .cancelled => return .cancelled
  | .elapsed => return .elapsed
  | .arrived => takeArrival max

/-! ## Writing -/

/-- The next outcome of a list and what is left of it. -/
def nextOutcome : List Outcome → Outcome × List Outcome
  | [] => (.success, [])
  | first :: rest => (first, rest)

/-- Lets a delay pass within a deadline: whether there was time for it. -/
def passTime (delay : Duration) (deadline : Option Moment) : Step Line Bool := do
  let l ← get
  let done := l.now + delay
  match deadline with
  | some d =>
    if delay = 0 ∨ done ≤ d then
      set (l.advanceTo done)
      return true
    else
      if l.now < d then set (l.advanceTo d)
      return false
  | none =>
    set (l.advanceTo done)
    return true

/-- Hands bytes to the medium: how many it took, or none if time ran out. The bytes it took stay
taken. -/
def write (deadline : Option Moment) (bytes : Bytes) : Step Line (Option Nat) := do
  let l ← get
  let (outcome, writes) := nextOutcome l.writes
  set { l with writes }
  match outcome with
  | .failure words => throw (.connection (.reported words))
  | .nothing => return some 0
  | .success =>
    let count := if l.writeChunk = 0 then bytes.length else min bytes.length l.writeChunk
    modify fun l => { l with pending := l.pending ++ bytes.take count }
    if ← passTime l.writeDelay deadline then return some count else return none

/-- The messages sent so far, oldest first. -/
def messages (l : Line) : List Bytes :=
  l.history.reverse.filterMap fun e => match e.2 with
    | .message bytes => some bytes
    | _ => none

/-- A request to stop is reported; it is then over. -/
def stop (l : Line) : Line :=
  { l with handle := l.handle.reset, stops := (l.now, l.messages) :: l.stops }

/-- Notes what was done. -/
def note (entry : LineEntry) (l : Line) : Line := { l with history := (l.now, entry) :: l.history }

/-- Plans the echo of a message, where everything is heard at once. -/
def planEcho (message : Bytes) (l : Line) : Line :=
  if l.autoEcho then l.schedule l.now (.arrival (.data message)) else l

/-- The pending bytes become a message. -/
def post (l : Line) : Line := { l with pending := [] }.note (.message l.pending)

/-- Plans the next answer of the far end. -/
def planAnswer (l : Line) : Line :=
  match l.answers with
  | [] => l
  | answer :: answers =>
    (answer l.messages).foldl (fun l e => l.schedule (l.now + e.1) e.2) { l with answers }

/-- The pending bytes leave as one message, and the far end answers. -/
def deliver (l : Line) : Line :=
  if l.pending.isEmpty then l else (l.planEcho l.pending).post.planAnswer

/-- Flushes: whether there was time for it. -/
def flush (deadline : Option Moment) : Step Line Bool := do
  let l ← get
  if ← passTime l.flushDelay deadline then
    let l ← get
    let (outcome, flushes) := nextOutcome l.flushes
    set { l with flushes }
    match outcome with
    | .failure words => throw (.connection (.reported words))
    | _ =>
      modify deliver
      return true
  else return false

/-- Hands all bytes to the medium, however many calls that takes. -/
def writeAll (bytes : Bytes) : Step Line Unit :=
  Step.repeatUpTo (fun (left : Bytes) => do
      if left.isEmpty then return .inr ()
      match ← write none left with
      | some 0 | none => throw .disconnected
      | some n => return .inl (left.drop n))
    (bytes.length + 1) bytes

/-! ## Opening, closing, line speed -/

/-- Opens the medium. -/
def openUp : Step Line Unit := do
  let l ← get
  let (outcome, opens) := nextOutcome l.opens
  set { l.note .opened with opens }
  match outcome with
  | .failure words => throw (.connection (.reported words))
  | _ => modify ({ · with isClosed := false })

/-- Closes the medium. It is closed whether or not that fails. -/
def close : Step Line Unit := do
  let l ← get
  let (outcome, closes) := nextOutcome l.closes
  set { l.note .closed with isClosed := true, closes }
  match outcome with
  | .failure words => throw (.connection (.reported words))
  | _ => return ()

/-- Changes the line speed. -/
def setBaud (speed : Nat) : Step Line Unit := do
  modify (note (.baud speed))
  if (← get).baudRefused then throw (.connection .baudRefused)
  modify ({ · with baud := some speed })

end Line

end Metering
