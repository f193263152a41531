import Metering.Line
set_option autoImplicit false

/-! # Modems

A modem is a line that has to dial before the meter can be heard. Opening it opens the line, sends
the init string, dials, and waits for `CONNECT`; a busy number is dialled again a few times. Modems
answer in words (`ModemReply.recognize?`), and what they print is recognised as soon as enough of it
has arrived. -/

namespace Metering

/-! ## What modems say -/

/-- An answer of a modem. -/
inductive ModemReply where
  | connect
  | noCarrier
  | error
  | noDialTone
  | busy
  | noAnswer
  | ok
  | ring
  deriving DecidableEq, Repr

namespace ModemReply

/-- The answers in the order in which they are looked for. -/
def all : List ModemReply := [connect, noCarrier, error, noDialTone, busy, noAnswer, ok, ring]

/-- The words an answer is known by. -/
def keyword : ModemReply → String
  | connect => "CONNECT"
  | noCarrier => "NO CARRIER"
  | error => "ERROR"
  | noDialTone => "NO DIAL"
  | busy => "BUSY"
  | noAnswer => "NO ANSWER"
  | ok => "OK"
  | ring => "RING"

/-- The answer in program text. -/
def identifier : ModemReply → String
  | connect => "Connect"
  | noCarrier => "NoCarrier"
  | error => "Error"
  | noDialTone => "NoDialTone"
  | busy => "Busy"
  | noAnswer => "NoAnswer"
  | ok => "Ok"
  | ring => "Ring"

/-- A blank of ASCII: space, tab, line feed, form feed or carriage return. -/
def isBlank (c : Char) : Bool := c = ' ' || c = '\t' || c = '\n' || c = '\x0c' || c = '\r'

/-- A word is found in a text at its start or behind a blank; `atStart` says that the text is
at such a place. -/
def standsIn (word : List Char) : (atStart : Bool) → List Char → Bool
  | atStart, [] => atStart && word.isEmpty
  | atStart, c :: rest => (atStart && word.isPrefixOf (c :: rest)) || standsIn word (isBlank c) rest

/-- The first answer whose words stand in a text. -/
def recognize? (said : List Char) : Option ModemReply :=
  all.find? fun r => standsIn r.keyword.toList true said

end ModemReply

/-! ## Modems -/

/-- A modem on a line. -/
structure Modem where
  line : Line
  settings : ModemSettings
  /-- What the modem said last. -/
  lastReply : String := ""

namespace Modem

variable {α : Type}

/-- Runs a step of the line. -/
def onLine (x : Step Line α) : Step Modem α := Step.within Modem.line (fun m line => { m with line }) x

/-- The most bytes taken from the modem at once. -/
def readChunk : Nat := 128

/-- How long a connected modem is left alone. -/
def settleTime : Duration := Duration.ofMillis 200

/-- The silence after which input counts as drained. -/
def drainTime : Duration := Duration.ofMillis 20

/-- Repeats a round of reading until it gives a result. -/
def rounds {β : Type} (round : α → Step Modem (α ⊕ β)) (a : α) : Step Modem β := do
  Step.repeatUpTo round ((← get).line.waiting + 1) a

/-- Waits. -/
def sleep (d : Duration) : Step Modem Unit :=
  modify fun m => { m with line := (m.line.pause (m.line.now + d) false).2 }

/-- Drops what the modem says until it is silent. -/
def drain : Step Modem Unit :=
  rounds (fun _ => do
    match ← onLine (Line.read ((← get).line.now + drainTime) false readChunk) with
    | .data _ => return .inl ()
    | .ended => throw .disconnected
    | _ => return .inr ()) ()

/-- Sends a command and the end of its line. -/
def send (command : String) : Step Modem Unit := do
  drain
  onLine (Line.writeAll (command.toUTF8.toList ++ [0x0D]))
  let _ ← onLine (Line.flush none)

/-- A byte as a character of a modem's answer; what cannot be printed counts as blank. -/
def heardChar (b : UInt8) : Char :=
  if (0x20 ≤ b && b ≤ 0x7E) || b = 0x0D || b = 0x0A then Char.ofNat b.toNat else ' '

/-- A text without blanks at its ends. -/
def trim (said : List Char) : List Char :=
  ((said.dropWhile ModemReply.isBlank).reverse.dropWhile ModemReply.isBlank).reverse

/-- The end of a line of a modem's answer. -/
def endsLine (c : Char) : Bool := c = '\r' || c = '\n'

/-- What follows the last complete line, with the end of that line in front. -/
def lastLine (said : List Char) : List Char :=
  if said.any endsLine then
    let tail := (said.reverse.takeWhile fun c => !endsLine c).reverse
    said.drop (said.length - tail.length - 1)
  else said

/-- An answer on one line. -/
def onOneLine (said : List Char) : String :=
  String.ofList ((trim said).map fun c => if endsLine c then ' ' else c)

/-- One round of listening, when `said` was heard and not understood. -/
def replyRound (deadline : Moment) (said : List Char) : Step Modem (List Char ⊕ ModemReply) := do
  match ← onLine (Line.read deadline false readChunk) with
  | .ended => throw .disconnected
  | .data bytes =>
    let said := said ++ bytes.map heardChar
    match ModemReply.recognize? (trim said) with
    | some reply =>
      modify ({ · with lastReply := onOneLine said })
      return .inr reply
    | none => return .inl (lastLine said)
  | _ =>
    let said := trim said
    throw (.modem (if said.isEmpty then .noResponse else .unknownResponse (String.ofList said)))

/-- Waits for an answer. -/
def receive (timeout : Duration) : Step Modem ModemReply := do
  rounds (replyRound ((← get).line.now + timeout)) []

/-- The fault that an unwanted answer stands for. A ring is another station that calls. -/
def unwanted (reply : ModemReply) (said : String) : Fault :=
  match reply with
  | .ring => .collision
  | .busy => .modem .lineBusy
  | .noDialTone => .modem .noDialTone
  | .noAnswer => .modem .noAnswer
  | .noCarrier => .modem .noCarrier
  | .error => .modem (.reportedError said)
  | .connect | .ok => .modem (.unexpected said)

/-! ## Dialling -/

/-- What follows the first place where a word stands in a text. -/
def after? (word : List Char) : List Char → Option (List Char)
  | [] => if word.isEmpty then some [] else none
  | c :: rest =>
    if word.isPrefixOf (c :: rest) then some ((c :: rest).drop word.length) else after? word rest

/-- The line speed that a modem prints behind `CONNECT`. -/
def connectBaud? (said : String) : Option Nat := do
  let tail ← after? ModemReply.connect.keyword.toList said.toList
  let digits := (tail.dropWhile ModemReply.isBlank).takeWhile Char.isDigit
  if digits.isEmpty then none
  else
    let n := digits.foldl (fun n c => n * 10 + (c.toNat - 48)) 0
    if n < 0x100000000 then some n else none

/-- Takes on the reported line speed, if that is wanted, and waits for the connection to settle.
A speed the port refuses is left alone. -/
def settle : Step Modem Unit := do
  let m ← get
  if m.settings.matchConnectBaud then
    if let some baud := connectBaud? m.lastReply then
      let _ ← (onLine (Line.setBaud baud)).outcome
  sleep settleTime
  drain

/-- Sends the init string and the number: what the modem says to the number. -/
def attempt : Step Modem ModemReply := do
  let s := (← get).settings
  send s.initString
  match ← receive s.commandTimeout with
  | .ok => pure ()
  | reply => throw (unwanted reply (← get).lastReply)
  send (s.dialPrefix ++ s.phoneNumber)
  receive s.dialTimeout

/-- Fails with an answer that is not wanted. -/
def refuse (reply : ModemReply) : Step Modem Unit := do throw (unwanted reply (← get).lastReply)

/-- Dials until the modem is connected; a busy number is dialled again at most `retries` times. -/
def connect : (retries : Nat) → Step Modem Unit
  | 0 => do
    match ← attempt with
    | .connect => settle
    | reply => refuse reply
  | retries + 1 => do
    match ← attempt with
    | .connect => settle
    | .busy => do
      sleep (← get).settings.busyRetryDelay
      connect retries
    | reply => refuse reply

/-- Dials the number of the settings. -/
def dial : Step Modem Unit := do
  let s := (← get).settings
  if s.phoneNumber.isEmpty then throw (.invalidData .noPhoneNumber)
  connect s.busyRetries.toNat

/-- Opens the line and dials. If that fails the line is closed again, which hangs up. -/
def openUp : Step Modem Unit := do
  modify ({ · with lastReply := "" })
  onLine Line.openUp
  match ← dial.outcome with
  | .ok () => return ()
  | .error e =>
    let _ ← (onLine Line.close).outcome
    throw e

end Modem

end Metering
