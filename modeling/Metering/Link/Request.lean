import Metering.Link.Receive
set_option autoImplicit false

/-! # Requests over a link

A request is sent and its response received. A spoiled response makes the whole request repeat. At
the start of a session the toggle bit of the meter is unknown, so a short response that reports
success is taken for a leftover of an earlier session (`requestWithMinimum`). -/

namespace Metering.Linked

/-- How long the line is left alone before a request is repeated, at most. -/
def maxRepeatPause : Duration := Duration.ofMillis 1500

/-- Sends a request and receives what comes of it. -/
def exchange (message : Bytes) : Step Linked Received := do
  sendMessage message
  receiveMessage

/-- Prepares the repetition of a request. -/
def prepareRepeat : Step Linked Unit := do
  changeLink Link.forget
  onChannel (Channel.sleep (min (← parameters).acknowledgement maxRepeatPause))

/-- Sends a request and receives its response; repeats the request up to `retries` times. -/
def requestRepeatedly (message : Bytes) : (retries : Nat) → Step Linked Bytes
  | 0 => do
    match ← exchange message with
    | .message response => return response
    | .repeatRequest => throw (.protocol .retriesExpired)
  | retries + 1 => do
    match ← exchange message with
    | .message response => return response
    | .repeatRequest => do
      prepareRepeat
      requestRepeatedly message retries

/-- Sends a request and receives its response. -/
def request (message : Bytes) : Step Linked Bytes := do
  requestRepeatedly message (← parameters).retries.toNat

/-- A response that reports success and is too short. -/
def isLeftover (minimum : Nat) (response : Bytes) : Bool :=
  response.length < minimum && response.head? = some 0

/-- Waits for a further response while the one at hand is a leftover, up to `retries` times. -/
def skipLeftovers (minimum : Nat) : (retries : Nat) → Bytes → Step Linked Bytes
  | 0, response =>
    if isLeftover minimum response then throw (.protocol .previousSession) else return response
  | retries + 1, response =>
    if isLeftover minimum response then do
      changeLink Link.forget
      match ← receiveMessage with
      | .message response => skipLeftovers minimum retries response
      | .repeatRequest => skipLeftovers minimum retries []
    else return response

/-- Sends a request whose response has a least length; its progress is not reported. -/
def requestWithMinimum (message : Bytes) (minimum : Nat) : Step Linked Bytes := do
  let reports := (← get).link.reports
  let r ← (do
    let response ← request message
    skipLeftovers minimum (← parameters).retries.toNat response).outcome
  changeLink fun l => { l with reports }
  Step.ofExcept r

end Metering.Linked
