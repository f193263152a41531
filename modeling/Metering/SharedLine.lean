import Metering.Medium
set_option autoImplicit false

/-! # Shared lines

On a shared line every station hears every write, its own included, in the order of the writes.
Stations that write before either reads find each other's bytes in their echo. -/

namespace Metering

/-- One station of a shared line. -/
structure Station where
  /-- The writes not yet looked at, oldest first. -/
  inbox : List Bytes := []
  /-- What is left of the write that is being read. -/
  pending : Bytes := []
  /-- No further write is heard. -/
  deaf : Bool := false
  isClosed : Bool := false
  deriving DecidableEq, Repr

namespace Station

/-- Hears a write. -/
def hear (bytes : Bytes) (s : Station) : Station :=
  if s.deaf then s else { s with inbox := s.inbox ++ [bytes] }

/-- Takes up to `max` bytes of one write: none while nothing was heard, and no bytes at the end of
the stream. -/
def read (max : Nat) (s : Station) : Option Bytes × Station :=
  let serve := fun (s : Station) =>
    (some (s.pending.take max), { s with pending := s.pending.drop max })
  if !s.pending.isEmpty then serve s
  else match s.inbox with
    | first :: rest => serve { s with inbox := rest, pending := first }
    | [] => if s.deaf then (some [], { s with isClosed := true }) else (none, s)

/-- Stops hearing; what was heard can still be read. -/
def close (s : Station) : Station := { s with deaf := true, isClosed := true }

/-- Counts as open again, and stays deaf if it was closed. -/
def openUp (s : Station) : Station := { s with isClosed := false }

end Station

/-- A shared line with its stations. -/
structure SharedLine where
  stations : List Station := []
  deriving DecidableEq, Repr

namespace SharedLine

/-- The kind of the medium. -/
def kind : MediumKind := .currentLoop

/-- Attaches one more station. -/
def attach (l : SharedLine) : SharedLine := ⟨l.stations ++ [Station.mk [] [] false false]⟩

/-- A write is heard by all stations. -/
def write (bytes : Bytes) (l : SharedLine) : SharedLine := ⟨l.stations.map (Station.hear bytes)⟩

/-- Writes all of `bytes`; no bytes are no write. -/
def writeAll (bytes : Bytes) (l : SharedLine) : SharedLine :=
  if bytes.isEmpty then l else l.write bytes

/-- The station with a number. -/
def station? (l : SharedLine) (n : Nat) : Option Station := l.stations[n]?

/-- Replaces the station with a number. -/
def put (l : SharedLine) (n : Nat) (s : Station) : SharedLine := ⟨l.stations.set n s⟩

end SharedLine

end Metering
