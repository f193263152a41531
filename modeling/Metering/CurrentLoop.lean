import Metering.Line
set_option autoImplicit false

/-! # Current loops

A current loop converter sits on a half-duplex line that several stations share. Every byte written
comes back on the receiving wire, so a channel that reads its echo back finds out when another
station was transmitting. All else is left to the line behind the converter. -/

namespace Metering

/-- A current loop converter on a line. -/
structure CurrentLoop where
  line : Line

namespace CurrentLoop

/-- The kind of the medium, whatever the line behind it is. -/
def kind : MediumKind := .currentLoop

/-- Every byte written is heard again. -/
def echoes : Bool := true

/-- Runs a step of the line. -/
def onLine {α : Type} (x : Step Line α) : Step CurrentLoop α :=
  Step.within CurrentLoop.line (fun _ line => ⟨line⟩) x

/-- Opens the line. -/
def openUp : Step CurrentLoop Unit := onLine Line.openUp

end CurrentLoop

end Metering
