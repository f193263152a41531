set_option autoImplicit false

/-! # Time

A duration, and a moment counted from the start of the clock, are whole numbers of
nanoseconds. Diagnostics show a duration in the largest unit that leaves a whole part, with
the shortest fraction that is exact. -/

namespace Metering

/-- A length of time in nanoseconds. -/
abbrev Duration := Nat

/-- A point on the clock, in nanoseconds since it was started. -/
abbrev Moment := Nat

namespace Duration

/-- A duration of `n` milliseconds. -/
def ofMillis (n : Nat) : Duration := n * 1000000

/-- A duration of `n` seconds. -/
def ofSeconds (n : Nat) : Duration := n * 1000000000

/-- The whole milliseconds in a duration. -/
def toMillis (d : Duration) : Nat := d / 1000000

/-- The digits after the point of `part`, written with `width` places; trailing zeros are dropped. -/
def fraction (width part : Nat) : String :=
  let digits := Nat.toDigits 10 part
  let padded := List.replicate (width - digits.length) '0' ++ digits
  String.ofList ((padded.reverse.dropWhile (· == '0')).reverse)

/-- A count of units of `size` nanoseconds each, a one with `width` zeros, with the unit's name. -/
def inUnits (width size : Nat) (unit : String) (d : Duration) : String :=
  let part := d % size
  let tail := if part = 0 then "" else "." ++ fraction width part
  toString (d / size) ++ tail ++ unit

/-- The text of a duration: seconds, milliseconds, microseconds or nanoseconds. -/
def text (d : Duration) : String :=
  if d ≥ 1000000000 then inUnits 9 1000000000 "s" d
  else if d ≥ 1000000 then inUnits 6 1000000 "ms" d
  else if d ≥ 1000 then inUnits 3 1000 "µs" d
  else inUnits 0 1 "ns" d

end Duration

end Metering
