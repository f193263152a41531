import Metering.Fault
set_option autoImplicit false

/-! # Services and line speeds

Every request starts with the code of a service. A line speed is agreed on by its index in a
fixed table. -/

namespace Metering

/-- A service a meter offers. -/
inductive Service where
  | identify
  | terminate
  | readFull
  | readPartial
  | writeFull
  | writePartial
  | logon
  | security
  | logoff
  | authenticate
  | negotiate
  | negotiateWithBaud
  | wait
  | timingSetup
  deriving DecidableEq, Repr

namespace Service

/-- All services. -/
def all : List Service :=
  [identify, terminate, readFull, readPartial, writeFull, writePartial, logon, security, logoff,
    authenticate, negotiate, negotiateWithBaud, wait, timingSetup]

/-- The code byte. -/
def byte : Service → UInt8
  | identify => 0x20
  | terminate => 0x21
  | readFull => 0x30
  | readPartial => 0x3F
  | writeFull => 0x40
  | writePartial => 0x4F
  | logon => 0x50
  | security => 0x51
  | logoff => 0x52
  | authenticate => 0x53
  | negotiate => 0x60
  | negotiateWithBaud => 0x61
  | wait => 0x70
  | timingSetup => 0x71

/-- The name of the service. -/
def name : Service → String
  | identify => "Identify"
  | terminate => "Terminate"
  | readFull => "Read"
  | readPartial => "ReadPartial"
  | writeFull => "Write"
  | writePartial => "WritePartial"
  | logon => "Logon"
  | security => "Security"
  | logoff => "Logoff"
  | authenticate => "Authenticate"
  | negotiate | negotiateWithBaud => "Negotiate"
  | wait => "Wait"
  | timingSetup => "TimingSetup"

end Service

namespace Baud

/-- The line speeds that can be agreed on, with their indexes. -/
def indexes : List (Nat × UInt8) :=
  [(300, 0x01), (600, 0x02), (1200, 0x03), (2400, 0x04), (4800, 0x05), (9600, 0x06), (14400, 0x07),
    (19200, 0x08), (28800, 0x09), (57600, 0x0A), (38400, 0x0B), (115200, 0x0C), (128000, 0x0D),
    (256000, 0x0E)]

/-- The index of a line speed. -/
def index (baud : Nat) : Except Fault UInt8 :=
  match indexes.find? fun entry => entry.1 == baud with
  | some entry => .ok entry.2
  | none => .error (.invalidData (.baudNotNegotiable baud))

/-- The line speed of an index. -/
def ofIndex (index : UInt8) : Except Fault Nat :=
  match indexes.find? fun entry => entry.2 == index with
  | some entry => .ok entry.1
  | none => .error (.protocol (.unknownBaudIndex index))

end Baud

end Metering
