import Metering.Ber.Reader
import Metering.Time
set_option autoImplicit false

/-! # Timing setup

Two ends of a telephone line agree on their timeouts in whole seconds, rounded up and at most
255. -/

namespace Metering

/-- The timing values that are exchanged. -/
structure Timing where
  traffic : UInt8
  intercharacter : UInt8
  acknowledgement : UInt8
  retries : UInt8
  deriving DecidableEq, Repr

namespace Timing

/-- The whole seconds that hold the whole milliseconds of a duration. -/
def wholeSeconds (d : Duration) : UInt8 :=
  if d.toMillis ≥ 255000 then 255 else UInt8.ofNat ((d.toMillis + 999) / 1000)

/-- The values for three timeouts and a number of retries. -/
def ofDurations (traffic intercharacter acknowledgement : Duration) (retries : UInt8) : Timing where
  traffic := wholeSeconds traffic
  intercharacter := wholeSeconds intercharacter
  acknowledgement := wholeSeconds acknowledgement
  retries := retries

/-- The values as they are sent. -/
def bytes (t : Timing) : Bytes := [t.traffic, t.intercharacter, t.acknowledgement, t.retries]

/-- Reads the values back. -/
def take : Step Reader Timing := do
  return { traffic := ← Reader.byte, intercharacter := ← Reader.byte,
           acknowledgement := ← Reader.byte, retries := ← Reader.byte }

/-- The traffic timeout as a duration. -/
def trafficTimeout (t : Timing) : Duration := Duration.ofSeconds t.traffic.toNat

/-- The timeout between characters as a duration. -/
def intercharacterTimeout (t : Timing) : Duration := Duration.ofSeconds t.intercharacter.toNat

/-- The acknowledgement timeout as a duration. -/
def acknowledgementTimeout (t : Timing) : Duration := Duration.ofSeconds t.acknowledgement.toNat

end Timing

end Metering
