set_option autoImplicit false

/-! # Progress of transfers

A transfer of known length reports how much of it is done, in percent, each time that number
changes. A finished transfer has reported 100. -/

namespace Metering

/-- How far a transfer is. -/
structure Progress where
  /-- Someone wants to know. -/
  watched : Bool := false
  /-- The length of the transfer; zero if it is not known. -/
  total : Nat := 0
  /-- The length of its finished pieces. -/
  finished : Nat := 0
  /-- The percentage that was reported last. -/
  last : Option Nat := none
  deriving DecidableEq, Repr

namespace Progress

/-- The percentage when `received` bytes of the present piece are there. -/
def percent (p : Progress) (received : Nat) : Nat := min (p.finished + received) p.total * 100 / p.total

/-- Reports a percentage unless it was the last one: the percentages to report. -/
def tell (percent : Nat) (p : Progress) : List Nat × Progress :=
  if p.last = some percent then ([], p) else ([percent], { p with last := some percent })

/-- Reports that `received` bytes of the present piece are there. -/
def report (received : Nat) (p : Progress) : List Nat × Progress :=
  if p.watched && p.total ≠ 0 then p.tell (p.percent received) else ([], p)

/-- Adds a finished piece. -/
def finishPiece (length : Nat) (p : Progress) : Progress := { p with finished := p.finished + length }

/-- Reports the end. -/
def complete (p : Progress) : List Nat × Progress := if p.watched then p.tell 100 else ([], p)

end Progress

end Metering
