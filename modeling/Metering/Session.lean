import Metering.Client.Start
import Metering.Client.Tables
set_option autoImplicit false

/-! # Sessions

What a caller holds after `Session.connect`: a client whose session was started. Every operation runs
under a deadline of its own, which the channel applies to what waits; when it has passed, the exchange
is given up with a timeout and the session stays usable. Operations run one at a time, in the order in
which they were started. -/

namespace Metering

/-- A client whose session was started. -/
structure Session where
  client : Client

namespace Session

variable {α : Type}

/-- Starts the session of a client: how that went, and the client after it. -/
def connect (c : Client) : Except Fault Session × Client :=
  let (r, c) := Client.startSession.run c
  (r.map fun () => ⟨c⟩, c)

/-- Runs a step of the client. -/
def onClient (x : Step Client α) : Step Session α :=
  Step.within Session.client (fun s client => { s with client }) x

/-- Runs an operation under a deadline. -/
def within (timeout : Duration) (x : Step Client α) : Step Session α := onClient (Client.within timeout x)

/-- Reads a table. -/
def readTable (d : Descriptor) (timeout : Duration) : Step Session TableData :=
  within timeout (Client.readTable d)

/-- Writes a table. -/
def writeTable (d : Descriptor) (data : Bytes) (timeout : Duration) : Step Session Unit :=
  within timeout (Client.writeTable d data)

/-- Runs a procedure and returns what it gave. -/
def runProcedure (number : UInt16) (parameters : Bytes) (timeout : Duration) : Step Session Bytes :=
  within timeout (Client.runProcedure number parameters)

/-- Asks the meter to keep the session for a number of seconds. -/
def wait (seconds : Nat) (timeout : Duration) : Step Session Unit := within timeout (Client.wait seconds)

/-- Ends the session and closes the channel. -/
def disconnect : Step Session Unit := onClient Client.endSession

/-- The text for diagnostics. -/
def text (s : Session) : String := "Session \x7b dialect: " ++ s.client.dialect.identifier ++ " \x7d"

end Session

end Metering
