import Metering.Bytes
set_option autoImplicit false

/-! # Negative answers

A meter that does not carry out a service answers with one code byte. The standard names
nineteen of them; any other byte is kept as it came. Only "busy" and "data not ready" are
passing conditions after which the same request may be sent again. -/

namespace Metering

/-- The reason a meter gives for not carrying out a service. -/
inductive NokCode where
  /-- The request was rejected. -/
  | rejected
  /-- The service is not supported. -/
  | serviceNotSupported
  /-- The security clearance is insufficient. -/
  | insufficientClearance
  /-- The operation is not possible. -/
  | operationNotPossible
  /-- The action is inappropriate. -/
  | inappropriateAction
  /-- The device is busy. -/
  | busy
  /-- The data are not ready yet. -/
  | dataNotReady
  /-- The data are locked. -/
  | dataLocked
  /-- The parameters have to be negotiated again. -/
  | renegotiate
  /-- The service does not fit the state of the session. -/
  | invalidSequenceState
  /-- The security mechanism failed. -/
  | securityMechanism
  /-- The called title is unknown or invalid. -/
  | unknownTitle
  /-- The network timed out. -/
  | networkTimeout
  /-- The node cannot be reached. -/
  | nodeUnreachable
  /-- The request is too large. -/
  | requestTooLarge
  /-- The response is too large. -/
  | responseTooLarge
  /-- Segmentation is not possible. -/
  | segmentationNotPossible
  /-- Segmentation failed. -/
  | segmentationError
  /-- A relay is still waiting for the answer. -/
  | notReady
  /-- A code without a name. -/
  | unnamed (code : UInt8)
  deriving DecidableEq, Repr

namespace NokCode

/-- The reason that a code byte stands for. -/
def ofByte (b : UInt8) : NokCode :=
  match b.toNat with
  | 0x01 => rejected
  | 0x02 => serviceNotSupported
  | 0x03 => insufficientClearance
  | 0x04 => operationNotPossible
  | 0x05 => inappropriateAction
  | 0x06 => busy
  | 0x07 => dataNotReady
  | 0x08 => dataLocked
  | 0x09 => renegotiate
  | 0x0A => invalidSequenceState
  | 0x0B => securityMechanism
  | 0x0C => unknownTitle
  | 0x0D => networkTimeout
  | 0x0E => nodeUnreachable
  | 0x0F => requestTooLarge
  | 0x10 => responseTooLarge
  | 0x11 => segmentationNotPossible
  | 0x12 => segmentationError
  | 0x1E => notReady
  | _ => unnamed b

/-- The code byte on the wire. -/
def byte : NokCode → UInt8
  | rejected => 0x01
  | serviceNotSupported => 0x02
  | insufficientClearance => 0x03
  | operationNotPossible => 0x04
  | inappropriateAction => 0x05
  | busy => 0x06
  | dataNotReady => 0x07
  | dataLocked => 0x08
  | renegotiate => 0x09
  | invalidSequenceState => 0x0A
  | securityMechanism => 0x0B
  | unknownTitle => 0x0C
  | networkTimeout => 0x0D
  | nodeUnreachable => 0x0E
  | requestTooLarge => 0x0F
  | responseTooLarge => 0x10
  | segmentationNotPossible => 0x11
  | segmentationError => 0x12
  | notReady => 0x1E
  | unnamed code => code

/-- The condition passes, so the same request may be sent again. -/
def isRetryable : NokCode → Bool
  | busy | dataNotReady => true
  | _ => false

/-- The short name the standard gives the code. -/
def mnemonic : NokCode → String
  | rejected => "ERR"
  | serviceNotSupported => "SNS"
  | insufficientClearance => "ISC"
  | operationNotPossible => "ONP"
  | inappropriateAction => "IAR"
  | busy => "BSY"
  | dataNotReady => "DNR"
  | dataLocked => "DLK"
  | renegotiate => "RNO"
  | invalidSequenceState => "ISSS"
  | securityMechanism => "SME"
  | unknownTitle => "UAT"
  | networkTimeout => "NETT"
  | nodeUnreachable => "NETR"
  | requestTooLarge => "RQTL"
  | responseTooLarge => "RSTL"
  | segmentationNotPossible => "SGNP"
  | segmentationError => "SGERR"
  | notReady => "NRY"
  | unnamed _ => "UNKNOWN"

/-- The short name with the code in hexadecimal. -/
def text (c : NokCode) : String :=
  c.mnemonic ++ " (0x" ++ Bytes.hexByte c.byte ++ ")"

/-- Every byte is the code of the reason it stands for. -/
@[simp] theorem byte_ofByte (b : UInt8) : (ofByte b).byte = b := by
  unfold ofByte
  split <;> first | rfl | (apply UInt8.toNat_inj.mp; simp_all [byte])

end NokCode

end Metering
