import Metering.Buffer.Ring
import Metering.Line
set_option autoImplicit false

/-! # Channels

A channel reads and writes bytes over a line in limited time. Bytes that arrive ahead of what a
read asks for wait in its ring. A caller may set a deadline for everything that waits: it cuts
reads and sleeps short, and never a write or the reading of its echo.

A request to stop is honoured before a transmission starts and while the channel waits, unless a
window is open. Writes open one, so a write that has started is finished. -/

namespace Metering

/-- What a channel has counted. -/
structure ChannelStatistics where
  sent : Nat := 0
  received : Nat := 0
  readTimeouts : Nat := 0
  collisions : Nat := 0
  deriving DecidableEq, Repr

/-- The counters in their order. -/
def ChannelStatistics.toList (s : ChannelStatistics) : List Nat :=
  [s.sent, s.received, s.readTimeouts, s.collisions]

/-- A byte channel to a meter. -/
structure Channel where
  line : Line
  connected : Bool := false
  /-- Received and not yet read. -/
  input : Ring := Ring.empty
  /-- The longest silence within one read; zero lets the timeout hold for all of it. -/
  intercharacter : Duration := 0
  window : Window := {}
  statistics : ChannelStatistics := {}
  /-- The moment that cuts short everything that waits. -/
  deadline : Option Moment := none
  /-- Something was cut short by the deadline. -/
  deadlineHit : Bool := false

namespace Channel

/-- A channel over a line, not opened. -/
def ofLine (line : Line) : Channel := { line }

/-- The most bytes taken from the line at once. -/
def readChunk : Nat := 1024

/-- The present moment. -/
def now (c : Channel) : Moment := c.line.now

/-- The kind of the medium. -/
def kind (c : Channel) : MediumKind := c.line.kind

/-- The state in words. -/
def stateName (c : Channel) : String := if c.connected then "Connected" else "Disconnected"

/-- The text for diagnostics. -/
def text (c : Channel) : String :=
  "Channel \x7b kind: " ++ c.kind.identifier ++ ", state: " ++ c.stateName ++ ", buffered: " ++
    toString c.input.length ++ ", intercharacter_timeout: " ++ Duration.text c.intercharacter ++ " \x7d"

/-! ## Parts -/

variable {α : Type}

/-- Runs a step of the line. -/
def onLine (x : Step Line α) : Step Channel α :=
  Step.within Channel.line (fun c line => { c with line }) x

/-- Changes the counters. -/
def count (f : ChannelStatistics → ChannelStatistics) : Step Channel Unit :=
  modify fun c => { c with statistics := f c.statistics }

/-- Drops what was received and not read. -/
def clearRing : Step Channel Unit := modify fun c => { c with input := c.input.clear }

/-- Notes that the line is gone. -/
def drop : Step Channel Unit := modify ({ · with connected := false })

/-- Runs a step of the line; the channel is lost if it fails. -/
def orDrop (x : Step Line α) : Step Channel α := do
  match ← (onLine x).outcome with
  | .ok a => return a
  | .error e =>
    drop
    throw e

/-- Runs a step within a window. -/
def inWindow (x : Step Channel α) : Step Channel α := do
  modify fun c => { c with window := c.window.enter }
  let r ← x.outcome
  modify fun c => { c with window := c.window.leave }
  Step.ofExcept r

/-- Fails unless the channel is connected. -/
def ensureConnected : Step Channel Unit := do
  if !(← get).connected then throw (.connection (.notOpen "Channel"))

/-! ## Requests to stop -/

/-- Asks the running operation to stop. -/
def cancel (c : Channel) : Channel := { c with line.handle := c.line.handle.cancel }

/-- Reports a request to stop; it is then over. -/
def honourCancel : Step Channel α := do
  modify fun c => { c with line := c.line.stop }
  throw .cancelled

/-- Fails if there is a request to stop and no window is open. -/
def checkCancelled : Step Channel Unit := do
  let c ← get
  if !c.window.isActive && c.line.handle.cancelled then honourCancel

/-! ## Deadlines -/

/-- Sets or clears the moment that cuts short everything that waits. -/
def setDeadline (deadline : Option Moment) (c : Channel) : Channel :=
  { c with deadline, deadlineHit := false }

/-- The deadline of a wait, lowered to that of the channel, and whether it was. The echo of a
write is read within a window and keeps its own. -/
def capped (deadline : Moment) (c : Channel) : Moment × Bool :=
  match c.deadline with
  | none => (deadline, false)
  | some limit =>
    if limit < deadline && !c.window.isActive then (limit, true) else (deadline, false)

/-- Notes that the deadline cut something short. -/
def noteDeadline (byOperation : Bool) : Step Channel Unit := do
  if byOperation then modify ({ · with deadlineHit := true })

/-! ## Opening and closing -/

/-- Opens the line, unless it is open. -/
def openUp : Step Channel Unit := do
  if (← get).connected then return
  checkCancelled
  onLine Line.openUp
  clearRing
  modify ({ · with connected := true })

/-- Releases the line. A failure to close it changes nothing, and neither does a second time. -/
def close : Step Channel Unit := do
  let c ← get
  if !c.connected && c.line.isClosed then return
  let _ ← (onLine Line.close).outcome
  clearRing
  drop

/-- Changes the line speed. -/
def setBaud (speed : Nat) : Step Channel Unit := do
  ensureConnected
  onLine (Line.setBaud speed)

/-- Waits. A wait that would outlast the channel's deadline ends there with a timeout. -/
def sleep (d : Duration) : Step Channel Unit := do
  let c ← get
  let (target, byOperation) := c.capped (c.now + d)
  let (wake, line) := c.line.pause target (!c.window.isActive)
  set { c with line }
  if wake = .cancelled then honourCancel
  if byOperation then
    noteDeadline true
    throw (.readTimeout 0)

end Channel

end Metering
