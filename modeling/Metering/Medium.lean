import Metering.Step
import Metering.Time
set_option autoImplicit false

/-! # Media

A meter is reached over one of five media. `ChannelSettings` says over which, with the
settings of that medium. A medium that was never opened has a line speed and a kind, and refuses
everything else in its own words (`Unopened`). -/

namespace Metering

/-! ## Kinds -/

/-- What a channel runs over. -/
inductive MediumKind where
  | serial
  | modem
  | currentLoop
  | tcp
  | udp
  /-- Two ends within one program. -/
  | memory
  deriving DecidableEq, Repr

namespace MediumKind

/-- The kind in words. -/
def name : MediumKind → String
  | serial => "serial"
  | modem => "modem"
  | currentLoop => "current loop"
  | tcp => "tcp"
  | udp => "udp"
  | memory => "memory"

/-- The kind in program text. -/
def identifier : MediumKind → String
  | serial => "Serial"
  | modem => "Modem"
  | currentLoop => "CurrentLoop"
  | tcp => "Tcp"
  | udp => "Udp"
  | memory => "Memory"

/-- All kinds. -/
def all : List MediumKind := [serial, modem, currentLoop, tcp, udp, memory]

/-- The line speed can be agreed on with the meter. -/
def hasLineSpeed : MediumKind → Bool
  | serial | currentLoop => true
  | _ => false

end MediumKind

/-! ## Settings -/

/-- The data bits of a character. -/
inductive DataBits where
  | seven
  | eight
  deriving DecidableEq, Repr

/-- The stop bits of a character. -/
inductive StopBits where
  | one
  | two
  deriving DecidableEq, Repr

/-- The parity bit of a character. -/
inductive Parity where
  | none
  | odd
  | even
  deriving DecidableEq, Repr

/-- How a serial port holds the other side back. -/
inductive FlowControl where
  | none
  | software
  | hardware
  deriving DecidableEq, Repr

/-- Settings of a serial port: eight data bits, one stop bit, no parity and no flow control unless
chosen otherwise. -/
structure SerialSettings where
  portName : String
  baud : UInt32
  dataBits : DataBits := .eight
  stopBits : StopBits := .one
  parity : Parity := .none
  flowControl : FlowControl := .none
  deriving DecidableEq, Repr

/-- Settings of a modem and of the port it is on. -/
structure ModemSettings where
  serial : SerialSettings
  initString : String := "ATZE0Q0V1&C1&D2"
  dialPrefix : String := "ATD"
  phoneNumber : String
  dialTimeout : Duration := Duration.ofSeconds 60
  commandTimeout : Duration := Duration.ofSeconds 10
  /-- How often a busy line is dialled again. -/
  busyRetries : UInt32 := 0
  busyRetryDelay : Duration := Duration.ofSeconds 5
  /-- Switch the port to the speed the modem reports. -/
  matchConnectBaud : Bool := false
  deriving DecidableEq, Repr

/-- Usual settings for a phone number; a modem holds back through hardware. -/
def ModemSettings.ofNumber (serial : SerialSettings) (phoneNumber : String) : ModemSettings :=
  { serial := { serial with flowControl := .hardware }, phoneNumber }

/-- Settings of a connection over TCP. -/
structure TcpSettings where
  /-- Host and port. -/
  address : String
  connectTimeout : Option Duration := some (Duration.ofSeconds 30)
  deriving DecidableEq, Repr

/-- Settings of datagrams over UDP. -/
structure UdpSettings where
  /-- Host and port of the meter. -/
  remote : String
  /-- The address to send from; any where none is given. -/
  localAddress : Option String := none
  deriving DecidableEq, Repr

/-- Over which medium a meter is reached. -/
inductive ChannelSettings where
  | serial (settings : SerialSettings)
  | modem (settings : ModemSettings)
  | currentLoop (settings : SerialSettings)
  | tcp (settings : TcpSettings)
  | udp (settings : UdpSettings)
  deriving DecidableEq, Repr

namespace ChannelSettings

/-- The kind of the medium. -/
def kind : ChannelSettings → MediumKind
  | serial _ => .serial
  | modem _ => .modem
  | currentLoop _ => .currentLoop
  | tcp _ => .tcp
  | udp _ => .udp

/-- The line speed of a medium that has one. -/
def baud : ChannelSettings → Option UInt32
  | serial s | currentLoop s => some s.baud
  | modem s => some s.serial.baud
  | tcp _ | udp _ => none

/-- Every written byte is heard again. -/
def echoes : ChannelSettings → Bool
  | currentLoop _ => true
  | _ => false

/-! ## A medium that was never opened -/

/-- What is missing as long as the medium was not opened. -/
def missing : ChannelSettings → String
  | serial _ | modem _ | currentLoop _ => "Serial stream"
  | tcp _ => "TCP stream"
  | udp _ => "UDP socket"

/-- The fault of reading or writing before opening. -/
def notOpen (s : ChannelSettings) : Fault := .connection (.notOpen s.missing)

/-- Flushing before opening. Datagrams leave at once, so there is nothing to flush. -/
def flushUnopened (s : ChannelSettings) : Except Fault Unit :=
  match s with
  | udp _ => .ok ()
  | s => .error s.notOpen

/-- Changing the line speed before opening. A medium without one takes no notice. -/
def setBaudUnopened (s : ChannelSettings) : Except Fault Unit :=
  match s with
  | tcp _ | udp _ => .ok ()
  | s => .error s.notOpen

end ChannelSettings

end Metering
