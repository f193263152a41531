import Metering.Form.Basic
import Metering.Medium
set_option autoImplicit false

/-! # Stored media

The settings of a medium are given whole, under the name of the medium. -/

namespace Metering

open FieldCodec (of optional)

/-- Data bits by name. -/
def DataBits.codec : Codec DataBits :=
  .named [.seven, .eight] fun
    | .seven => "Seven"
    | .eight => "Eight"

/-- Stop bits by name. -/
def StopBits.codec : Codec StopBits :=
  .named [.one, .two] fun
    | .one => "One"
    | .two => "Two"

/-- Parities by name. -/
def Parity.codec : Codec Parity :=
  .named [.none, .odd, .even] fun
    | .none => "None"
    | .odd => "Odd"
    | .even => "Even"

/-- Ways of holding back by name. -/
def FlowControl.codec : Codec FlowControl :=
  .named [.none, .software, .hardware] fun
    | .none => "None"
    | .software => "Software"
    | .hardware => "Hardware"

/-- Settings of a serial port. -/
def SerialSettings.codec : Codec SerialSettings :=
  RecordCodec.codec {
    blank := { portName := "", baud := 0 }
    fields := [
      of "port_name" .text (·.portName) fun a s => { s with portName := a },
      of "baud_rate" .longWord (·.baud) fun a s => { s with baud := a },
      of "data_bits" DataBits.codec (·.dataBits) fun a s => { s with dataBits := a },
      of "stop_bits" StopBits.codec (·.stopBits) fun a s => { s with stopBits := a },
      of "parity" Parity.codec (·.parity) fun a s => { s with parity := a },
      of "flow_control" FlowControl.codec (·.flowControl) fun a s => { s with flowControl := a }] }

/-- Settings of a modem. -/
def ModemSettings.codec : Codec ModemSettings :=
  RecordCodec.codec {
    blank := { serial := { portName := "", baud := 0 }, phoneNumber := "" }
    fields := [
      of "serial" SerialSettings.codec (·.serial) fun a s => { s with serial := a },
      of "init_string" .text (·.initString) fun a s => { s with initString := a },
      of "dial_prefix" .text (·.dialPrefix) fun a s => { s with dialPrefix := a },
      of "phone_number" .text (·.phoneNumber) fun a s => { s with phoneNumber := a },
      of "dial_timeout" .duration (·.dialTimeout) fun a s => { s with dialTimeout := a },
      of "command_timeout" .duration (·.commandTimeout) fun a s => { s with commandTimeout := a },
      of "busy_retries" .longWord (·.busyRetries) fun a s => { s with busyRetries := a },
      of "busy_retry_delay" .duration (·.busyRetryDelay) fun a s => { s with busyRetryDelay := a },
      of "match_connect_baud" .boolean (·.matchConnectBaud) fun a s => { s with matchConnectBaud := a }] }

/-- Settings of a connection over TCP. -/
def TcpSettings.codec : Codec TcpSettings :=
  RecordCodec.codec {
    blank := { address := "", connectTimeout := none }
    fields := [
      of "address" .text (·.address) fun a s => { s with address := a },
      optional "connect_timeout" .duration (·.connectTimeout) fun a s => { s with connectTimeout := a }] }

/-- Settings of datagrams over UDP. -/
def UdpSettings.codec : Codec UdpSettings :=
  RecordCodec.codec {
    blank := { remote := "" }
    fields := [
      of "remote_address" .text (·.remote) fun a s => { s with remote := a },
      optional "local_address" .text (·.localAddress) fun a s => { s with localAddress := a }] }

/-- Settings of a channel: one field, named for the medium. -/
def ChannelSettings.codec : Codec ChannelSettings where
  toForm
    | .serial s => .record [("Serial", SerialSettings.codec.toForm s)]
    | .modem s => .record [("Modem", ModemSettings.codec.toForm s)]
    | .currentLoop s => .record [("CurrentLoop", SerialSettings.codec.toForm s)]
    | .tcp s => .record [("Tcp", TcpSettings.codec.toForm s)]
    | .udp s => .record [("Udp", UdpSettings.codec.toForm s)]
  ofForm?
    | .record [("Serial", form)] => (SerialSettings.codec.ofForm? form).map .serial
    | .record [("Modem", form)] => (ModemSettings.codec.ofForm? form).map .modem
    | .record [("CurrentLoop", form)] => (SerialSettings.codec.ofForm? form).map .currentLoop
    | .record [("Tcp", form)] => (TcpSettings.codec.ofForm? form).map .tcp
    | .record [("Udp", form)] => (UdpSettings.codec.ofForm? form).map .udp
    | _ => none

end Metering
