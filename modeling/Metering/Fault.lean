import Metering.NokCode
import Metering.Phase
import Metering.ProcedureResult
set_option autoImplicit false

/-! # Faults

Everything that can go wrong, by cause. A fault fixes what becomes of the session: some leave
it usable (`Disposition.keepSession`), the others end it. The texts for people are in the
`message` functions and nowhere else. -/

namespace Metering

/-! ## Causes -/

/-- A number that has to fit its field. -/
inductive Quantity where
  | packetSize
  | packetCount
  | userNameLength
  | passwordLength
  | dataFormat
  | edClassLength
  | tableNumber
  | tableOffset
  | tableCount
  | tableEndOffset
  | expectedTableSize
  | tableDataLength
  | packetDataLength
  | packetsOfMessage
  | negotiatedPacketSize
  | negotiatedPacketCount
  | waitPeriod
  deriving DecidableEq, Repr

/-- The quantity in words. -/
def Quantity.phrase : Quantity → String
  | packetSize => "packet size"
  | packetCount => "maximum number of packets"
  | userNameLength => "user name length"
  | passwordLength => "password length"
  | dataFormat => "data format"
  | edClassLength => "ED class length"
  | tableNumber => "table number"
  | tableOffset => "table offset"
  | tableCount => "table count"
  | tableEndOffset => "table end offset"
  | expectedTableSize => "expected table size"
  | tableDataLength => "table data length"
  | packetDataLength => "packet data length"
  | packetsOfMessage => "number of packets"
  | negotiatedPacketSize => "negotiated packet size"
  | negotiatedPacketCount => "negotiated number of packets"
  | waitPeriod => "wait period"

/-- Why the medium cannot be used. -/
inductive ConnectionCause where
  /-- The named thing was never opened. -/
  | notOpen (what : String)
  | alreadyOpen
  | brokenPipe
  | baudRefused
  /-- The medium's own words. -/
  | reported (words : String)
  deriving DecidableEq, Repr

/-- The cause in words. -/
def ConnectionCause.message : ConnectionCause → String
  | notOpen what => what ++ " not connected"
  | alreadyOpen => "Connection has already been opened"
  | brokenPipe => "broken pipe"
  | baudRefused => "baud rate refused"
  | reported words => words

/-- Why a modem did not reach the meter. -/
inductive ModemCause where
  | noResponse
  | unknownResponse (said : String)
  | lineBusy
  | noDialTone
  | noAnswer
  | noCarrier
  | reportedError (said : String)
  | unexpected (said : String)
  deriving DecidableEq, Repr

/-- The cause in words. -/
def ModemCause.message : ModemCause → String
  | noResponse => "Modem did not respond"
  | unknownResponse said => "Unknown modem response '" ++ said ++ "'"
  | lineBusy => "Line is busy"
  | noDialTone => "No dial tone"
  | noAnswer => "No answer"
  | noCarrier => "No carrier"
  | reportedError said => "Modem responded with error: " ++ said
  | unexpected said => "Unexpected modem response: " ++ said

/-- Why the other side did not prove who it is. -/
inductive AuthenticationCause where
  | shorterThanTag
  | tagMismatch
  | epsemShorterThanTag
  | noKeyForResponse
  | calledIdMissing
  | callingIdMissing
  | invocationIdMismatch
  | titleMismatch
  | cleartextAnswer
  | emptyResponse
  | notSupported
  | ticketLength (ticket block : Nat)
  | ticketRejected
  | responseMismatch (length keyId : Nat)
  | desBlock (length : Nat)
  | keyNotProven
  | securityRejected (code : NokCode)
  deriving DecidableEq, Repr

/-- The cause in words. -/
def AuthenticationCause.message : AuthenticationCause → String
  | shorterThanTag => "Data block is shorter than its MAC"
  | tagMismatch => "Data not validated, tampering or wrong key"
  | epsemShorterThanTag => "Secured EPSEM is shorter than its MAC"
  | noKeyForResponse => "Secured response, but no key is defined"
  | calledIdMissing => "Incoming called invocation ID is not present, tampering is suspected"
  | callingIdMissing => "Incoming calling invocation ID is not present, tampering is suspected"
  | invocationIdMismatch => "Invocation ID mismatch, tampering is suspected"
  | titleMismatch => "Ap title mismatch, tampering is suspected"
  | cleartextAnswer => "Secured request was answered in cleartext"
  | emptyResponse => "Authenticate response is empty"
  | notSupported => "Meter does not support authentication"
  | ticketLength ticket block =>
    "Ticket of " ++ toString ticket ++ " bytes does not fit a " ++ toString block ++ " byte key"
  | ticketRejected => "Meter rejected the authentication ticket"
  | responseMismatch length keyId =>
    "Authenticate response length " ++ toString length ++ " key id " ++ toString keyId ++
      " does not match"
  | desBlock length => "DES block of " ++ toString length ++ " bytes"
  | keyNotProven => "Meter did not prove knowledge of the key"
  | securityRejected code => "Security service rejected with " ++ code.mnemonic

/-- How the other side broke the protocol. -/
inductive ProtocolCause where
  | badElement (tag : UInt8)
  | badSecurityMode (control : UInt8)
  | badResponseControl (control : UInt8)
  | serviceTooLong (length left : Nat)
  | procedureTableShort (length least : Nat)
  | unknownBaudIndex (index : UInt8)
  | unknownFeature (code : UInt8)
  | keyIdMismatch
  | noSecurityResponse
  | noServiceResponse
  | procedureMismatch (high low sequence : UInt8) (number wanted : Nat)
  | unexpectedCharacter (wanted received : UInt8)
  | toggleFailure
  | retriesExpired
  | previousSession
  deriving DecidableEq, Repr

/-- The cause in words. -/
def ProtocolCause.message : ProtocolCause → String
  | badElement tag => "Bad ACSE response, element 0x" ++ Bytes.hexByte tag
  | badSecurityMode control =>
    "EPSEM control 0x" ++ Bytes.hexByte control ++ " has a bad security mode"
  | badResponseControl control =>
    "EPSEM control 0x" ++ Bytes.hexByte control ++ " has a bad response control"
  | serviceTooLong length left =>
    "EPSEM service of " ++ toString length ++ " bytes exceeds the " ++ toString left ++ " bytes left"
  | procedureTableShort length least =>
    "Procedure response table has " ++ toString length ++ " bytes, at least " ++ toString least ++
      " expected"
  | unknownBaudIndex index =>
    "Meter requested invalid or unsupported baud rate with code 0x" ++
      Bytes.hexNumber 1 index.toNat
  | unknownFeature code =>
    "Identify protocol request failed, got unrecognized feature code 0x" ++ Bytes.hexByte code
  | keyIdMismatch => "Key ID returned by device is different from current key ID"
  | noSecurityResponse => "Security service got no response"
  | noServiceResponse => "Meter returned no service response"
  | procedureMismatch high low sequence number wanted =>
    "Procedure response " ++ Bytes.hexByte high ++ Bytes.hexByte low ++ " sequence " ++
      toString sequence.toNat ++ " does not answer procedure " ++ toString number ++
      " sequence " ++ toString wanted
  | unexpectedCharacter wanted received =>
    "Expected character 0x" ++ Bytes.hexByte wanted ++ ", received 0x" ++ Bytes.hexByte received
  | toggleFailure => "Received packet toggle bit failure"
  | retriesExpired => "Link layer retries expired with received packet toggle bit failure"
  | previousSession => "Packet was likely produced by a previous session"

/-- What is wrong with a frame. -/
inductive FrameCause where
  | noApduStart
  | apduLength
  | lengthOctets (octets : Nat)
  | checksumRegister (register good : Nat)
  | checksum
  | packetShort (length : Nat)
  | packetStart (byte start : UInt8)
  | packetLength (declared received : Nat)
  | inboundLength (length : Nat)
  deriving DecidableEq, Repr

/-- The cause in words. -/
def FrameCause.message : FrameCause → String
  | noApduStart => "Did not see C12.22 APDU start"
  | apduLength => "The APDU length is inconsistent with APDU size"
  | lengthOctets octets => "Unsupported ISO length with " ++ toString octets ++ " octets"
  | checksumRegister register good =>
    "CRC has wrong value: 0x" ++ Bytes.hexNumber 4 register ++ ", expected 0x" ++
      Bytes.hexNumber 4 good
  | checksum => "CRC check failed"
  | packetShort length => "Packet too short: " ++ toString length ++ " bytes"
  | packetStart byte start =>
    "Packet starts with 0x" ++ Bytes.hexByte byte ++ " instead of 0x" ++ Bytes.hexByte start
  | packetLength declared received =>
    "Packet length " ++ toString declared ++ " does not match " ++ toString received ++
      " received bytes"
  | inboundLength length => "Inbound packet data length " ++ toString length ++ " is bad"

/-- What is wrong with a value that was handed over. -/
inductive DataCause where
  | badIdentifier (text : String)
  | emptyIdentifier
  | lengthOctets (octets : Nat)
  | identifierTag (tag : UInt8)
  | badInteger (tag : UInt8) (length : Nat)
  | baudNotNegotiable (baud : Nat)
  | authenticationKeyLength (length : Nat)
  | securityKeyLength (length : Nat)
  | noPhoneNumber
  deriving DecidableEq, Repr

/-- The cause in words. -/
def DataCause.message : DataCause → String
  | badIdentifier text => "ISO 8825 universal identifier '" ++ text ++ "' is bad"
  | emptyIdentifier => "ISO 8825 universal identifier is empty"
  | lengthOctets octets => "ISO 8825 length with " ++ toString octets ++ " octets is bad"
  | identifierTag tag => "Universal identifier tag 0x" ++ Bytes.hexByte tag ++ " is bad"
  | badInteger tag length =>
    "Integer element 0x" ++ Bytes.hexByte tag ++ " of " ++ toString length ++ " bytes is bad"
  | baudNotNegotiable baud => "Baud rate " ++ toString baud ++ " cannot be negotiated"
  | authenticationKeyLength length =>
    "Authentication key must be 8 (DES) or 16 (AES) bytes, got " ++ toString length
  | securityKeyLength length => "Security key must be 16 bytes, got " ++ toString length
  | noPhoneNumber => "No phone number specified"

/-- Why an operation does not fit the state. -/
inductive StateCause where
  | badTransition (old new : Phase)
  | notActive (phase : Phase)
  | cannotStart (phase : Phase)
  | noRoomForData
  | noPacketLink (dialect : String)
  | noApduLink (dialect : String)
  | identifyNeedsPackets
  deriving DecidableEq, Repr

/-- The cause in words. -/
def StateCause.message : StateCause → String
  | badTransition old new => "Invalid state transition: " ++ old.name ++ " -> " ++ new.name
  | notActive phase => "Session is " ++ phase.name ++ ", not active"
  | cannotStart phase => "Session is " ++ phase.name ++ ", cannot start"
  | noRoomForData => "Link cannot carry table data"
  | noPacketLink dialect => dialect ++ " has no packet link"
  | noApduLink dialect => dialect ++ " has no APDU link"
  | identifyNeedsPackets => "Identify needs the packet link"

/-- Why something cannot be secured. -/
inductive SecurityCause where
  | keyLength (allowed : List Nat) (length : Nat)
  | aesKeyLength (length : Nat)
  | desKeyLength (length : Nat)
  | notWholeBlocks (length : Nat)
  | vectorsExhausted
  | noKeyDefined
  | contextCleared
  | authenticationKeyMissing
  | authenticationKeyLength (length : Nat)
  deriving DecidableEq, Repr

/-- The cause in words. -/
def SecurityCause.message : SecurityCause → String
  | keyLength allowed length =>
    "Invalid key length: expected one of [" ++ String.intercalate ", " (allowed.map toString) ++
      "] bytes, got " ++ toString length
  | aesKeyLength length => "Invalid AES-128 key length: " ++ toString length
  | desKeyLength length => "Invalid DES key length: " ++ toString length
  | notWholeBlocks length =>
    "AES data of " ++ toString length ++ " bytes is not a whole number of blocks"
  | vectorsExhausted => "Initialization vectors exhausted for this key"
  | noKeyDefined => "Security mode requires a key, but none is defined"
  | contextCleared => "Security context was cleared"
  | authenticationKeyMissing => "Authentication key is not available"
  | authenticationKeyLength length =>
    "Authentication key of " ++ toString length ++ " bytes, 8 or 16 expected"

/-! ## Faults -/

/-- A failed operation. -/
inductive Fault where
  /-- The medium failed. -/
  | connection (cause : ConnectionCause)
  /-- Too little arrived in time. -/
  | readTimeout (bytesRead : Nat)
  /-- Too little left in time. -/
  | writeTimeout (bytesWritten : Nat)
  /-- The other side closed the line. -/
  | disconnected
  /-- Another station transmitted at the same time. -/
  | collision
  /-- The modem did not reach the meter. -/
  | modem (cause : ModemCause)
  /-- The procedure ended with this result. -/
  | badProcedure (result : ProcedureResult)
  /-- The meter did not carry out the service; `extra` followed the code. -/
  | nok (code : NokCode) (extra : Bytes)
  /-- The other side did not prove who it is. -/
  | authentication (cause : AuthenticationCause)
  /-- The caller asked to stop. -/
  | cancelled
  /-- An index outside its range. -/
  | indexOutOfRange (what : Quantity) (index max : Nat)
  /-- A number outside its range. -/
  | numberOutOfRange (what : Quantity) (value min max : Nat)
  /-- Less arrived than was announced. -/
  | partialData (declared actual : Nat)
  /-- The other side broke the protocol. -/
  | protocol (cause : ProtocolCause)
  /-- A frame was damaged. -/
  | frameInvalid (cause : FrameCause)
  /-- A value is malformed. -/
  | invalidData (cause : DataCause)
  /-- The operation does not fit the state. -/
  | invalidState (cause : StateCause)
  /-- Something cannot be secured. -/
  | security (cause : SecurityCause)
  deriving DecidableEq, Repr

/-- What a failed transaction leaves behind. -/
inductive Disposition where
  /-- The session stays active. -/
  | keepSession
  /-- The session is over. -/
  | disconnect
  deriving DecidableEq, Repr

/-- The disposition in program text. -/
def Disposition.identifier : Disposition → String
  | keepSession => "KeepSession"
  | disconnect => "Disconnect"

namespace Fault

/-- The kind of fault in program text. -/
def kind : Fault → String
  | connection _ => "Connection"
  | readTimeout _ => "ChannelReadTimeout"
  | writeTimeout _ => "ChannelWriteTimeout"
  | disconnected => "ChannelDisconnectedUnexpectedly"
  | collision => "CollisionDetected"
  | modem _ => "ModemResponse"
  | badProcedure _ => "BadProcedureResult"
  | nok _ _ => "NokResponse"
  | authentication _ => "AuthenticationFailed"
  | cancelled => "OperationCancelled"
  | indexOutOfRange _ _ _ => "IndexOutOfRange"
  | numberOutOfRange _ _ _ _ => "NumberOutOfRange"
  | partialData _ _ => "PartialData"
  | protocol _ => "Protocol"
  | frameInvalid _ => "FrameInvalid"
  | invalidData _ => "InvalidData"
  | invalidState _ => "InvalidState"
  | security _ => "Security"

/-- The text for people. -/
def message : Fault → String
  | connection cause => "Connection error: " ++ cause.message
  | readTimeout n => "Channel read timeout, " ++ toString n ++ " bytes read"
  | writeTimeout n => "Channel write timeout, " ++ toString n ++ " bytes written"
  | disconnected => "Channel disconnected unexpectedly"
  | collision => "Collision detected on a shared line"
  | modem cause => "Modem: " ++ cause.message
  | badProcedure result => "Bad procedure result: " ++ result.text
  | nok code _ => "NOK response " ++ code.text
  | authentication cause => "Authentication failed: " ++ cause.message
  | cancelled => "Operation cancelled"
  | indexOutOfRange what index max =>
    what.phrase ++ " index " ++ toString index ++ " is out of range 0 .. " ++ toString max
  | numberOutOfRange what value min max =>
    what.phrase ++ " value " ++ toString value ++ " is out of range " ++ toString min ++ " .. " ++
      toString max
  | partialData declared actual =>
    "Partial data: declared " ++ toString declared ++ " bytes, received " ++ toString actual
  | protocol cause => "Protocol error: " ++ cause.message
  | frameInvalid cause => "Frame invalid: " ++ cause.message
  | invalidData cause => "Invalid data: " ++ cause.message
  | invalidState cause => "Invalid state: " ++ cause.message
  | security cause => "Security error: " ++ cause.message

/-- What the fault leaves behind. Every fault either keeps the session or ends it. -/
def disposition : Fault → Disposition
  | readTimeout _ | writeTimeout _ | collision | badProcedure _ | nok _ _ | indexOutOfRange _ _ _
  | numberOutOfRange _ _ _ _ | partialData _ _ | invalidData _ | invalidState _ => .keepSession
  | connection _ | disconnected | modem _ | authentication _ | cancelled | protocol _
  | frameInvalid _ | security _ => .disconnect

/-- Sending the same request again may succeed. -/
def isRetryable : Fault → Bool
  | nok code _ => code.isRetryable
  | badProcedure result => result.isRetryable
  | _ => false

/-- The fault is a lapse of time. -/
def isTimeout : Fault → Bool
  | readTimeout _ | writeTimeout _ => true
  | _ => false

end Fault

end Metering
