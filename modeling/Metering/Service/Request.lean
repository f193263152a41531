import Metering.Service.Code
import Metering.Service.Timing
import Metering.Table
set_option autoImplicit false

/-! # Requests

A request is a service code and the service's parameters. Table contents travel as a count, the
bytes and their checksum; the count has two bytes and an offset three. -/

namespace Metering

/-- One request. -/
structure Request where
  service : Service
  parameters : Bytes
  deriving DecidableEq, Repr

namespace Request

/-- The bytes of a request. -/
def bytes (r : Request) : Bytes := r.service.byte :: r.parameters

/-! ## Opening and closing a session -/

/-- Asks the meter who it is. -/
def identify : Request := ⟨.identify, []⟩

/-- Ends the session at once. -/
def terminate : Request := ⟨.terminate, []⟩

/-- Logs the user off. -/
def logoff : Request := ⟨.logoff, []⟩

/-- Logs a user on; `user` fills its field. -/
def logon (userId : UInt16) (user : Bytes) : Request :=
  ⟨.logon, Bytes.bigEndian 2 userId.toNat ++ user⟩

/-- Logs a user on and asks for an idle timeout in seconds. -/
def logonWithIdle (userId : UInt16) (user : Bytes) (idle : UInt16) : Request :=
  ⟨.logon, Bytes.bigEndian 2 userId.toNat ++ user ++ Bytes.bigEndian 2 idle.toNat⟩

/-- Sends the password; it fills its field. -/
def security (password : Bytes) : Request := ⟨.security, password⟩

/-- Sends the password with the user id, where there is no logon. -/
def securityWithUser (password : Bytes) (userId : UInt16) : Request :=
  ⟨.security, password ++ Bytes.bigEndian 2 userId.toNat⟩

/-- Sends an encrypted ticket; the length counts the key id and the ticket. -/
def authenticate (keyId : UInt8) (ticket : Bytes) : Request :=
  ⟨.authenticate, [UInt8.ofNat (ticket.length + 1), keyId] ++ ticket⟩

/-- Proposes packet size and count, and the index of a line speed if there is one. -/
def negotiate (packetSize : UInt16) (maxPackets : UInt8) (baudIndex : Option UInt8) : Request :=
  let sizes := Bytes.bigEndian 2 packetSize.toNat ++ [maxPackets]
  match baudIndex with
  | none => ⟨.negotiate, sizes⟩
  | some index => ⟨.negotiateWithBaud, sizes ++ [index]⟩

/-- Proposes timing values. -/
def timingSetup (t : Timing) : Request := ⟨.timingSetup, t.bytes⟩

/-- The longest wait, in seconds. -/
def maxWait : Nat := 255

/-- Asks the meter to keep the session for a number of seconds. -/
def wait (seconds : Nat) : Except Fault Request :=
  if seconds > maxWait then .error (.numberOutOfRange .waitPeriod seconds 0 maxWait)
  else .ok ⟨.wait, [UInt8.ofNat seconds]⟩

/-! ## Tables -/

/-- Table contents: count, bytes, checksum. -/
def tableContents (data : Bytes) : Except Fault Bytes :=
  if data.length > 0xFFFF then .error (.numberOutOfRange .tableDataLength data.length 0 0xFFFF)
  else .ok (Bytes.bigEndian 2 data.length ++ data ++ [tableChecksum data])

/-- The offset field. -/
def offsetBytes (offset : Nat) : Except Fault Bytes :=
  if offset > maxTableOffset then .error (.numberOutOfRange .tableOffset offset 0 maxTableOffset)
  else .ok (Bytes.bigEndian 3 offset)

/-- Reads a whole table. -/
def readFull (table : UInt16) : Request := ⟨.readFull, Bytes.bigEndian 2 table.toNat⟩

/-- Reads `count` bytes of a table; the count keeps its low two bytes. -/
def readPartial (table : UInt16) (offset count : Nat) : Except Fault Request := do
  let place ← offsetBytes offset
  return ⟨.readPartial, Bytes.bigEndian 2 table.toNat ++ place ++ Bytes.bigEndian 2 count⟩

/-- Writes a whole table. -/
def writeFull (table : UInt16) (data : Bytes) : Except Fault Request := do
  let contents ← tableContents data
  return ⟨.writeFull, Bytes.bigEndian 2 table.toNat ++ contents⟩

/-- Writes a range of a table. -/
def writePartial (table : UInt16) (offset : Nat) (data : Bytes) : Except Fault Request := do
  let place ← offsetBytes offset
  let contents ← tableContents data
  return ⟨.writePartial, Bytes.bigEndian 2 table.toNat ++ place ++ contents⟩

end Request

end Metering
