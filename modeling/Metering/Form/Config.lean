import Metering.Config
import Metering.Dialect
import Metering.Form.Basic
import Metering.Table
set_option autoImplicit false

/-! # Stored configurations

Options and configurations are read leniently: what is not given has its usual value. A table
descriptor has to be given whole. -/

namespace Metering

open FieldCodec (of optional)

/-- Modes of protection by name. -/
def SecurityMode.codec : Codec SecurityMode :=
  .named [.clear, .authenticated, .encrypted] fun
    | .clear => "ClearText"
    | .authenticated => "ClearTextWithAuthentication"
    | .encrypted => "CipherTextWithAuthentication"

/-- Ways of answering by name. -/
def ResponseControl.codec : Codec ResponseControl :=
  .named [.always, .onException, .never] fun
    | .always => "Always"
    | .onException => "OnException"
    | .never => "Never"

/-- Dialects by name. -/
def Dialect.codec : Codec Dialect := .named Dialect.all Dialect.identifier

/-- Options of sessions over a telephone line. -/
def TelephoneOptions.codec : Codec TelephoneOptions :=
  RecordCodec.codec {
    blank := {}
    lenient := true
    fields := [
      of "issue_timing_setup" .boolean (·.issueTimingSetup) fun a o => { o with issueTimingSetup := a },
      of "enable_authentication" .boolean (·.enableAuthentication)
        fun a o => { o with enableAuthentication := a },
      of "authentication_key" .bytes (·.authenticationKey) fun a o => { o with authenticationKey := a },
      of "authentication_key_id" .byte (·.authenticationKeyId)
        fun a o => { o with authenticationKeyId := a }] }

/-- Options of sessions over a network. -/
def NetworkOptions.codec : Codec NetworkOptions :=
  RecordCodec.codec {
    blank := {}
    lenient := true
    fields := [
      of "application_context" .text (·.applicationContext) fun a o => { o with applicationContext := a },
      of "called_ap_title" .text (·.calledTitle) fun a o => { o with calledTitle := a },
      of "calling_ap_title" .text (·.callingTitle) fun a o => { o with callingTitle := a },
      optional "calling_ae_qualifier" .longWord (·.callingQualifier)
        fun a o => { o with callingQualifier := a },
      of "security_mode" SecurityMode.codec (·.securityMode) fun a o => { o with securityMode := a },
      of "response_control" ResponseControl.codec (·.responseControl)
        fun a o => { o with responseControl := a },
      of "security_key" .bytes (·.securityKey) fun a o => { o with securityKey := a },
      of "security_key_id" .byte (·.securityKeyId) fun a o => { o with securityKeyId := a },
      of "sessionless" .boolean (·.sessionless) fun a o => { o with sessionless := a },
      of "issue_terminate" .boolean (·.issueTerminate) fun a o => { o with issueTerminate := a },
      of "session_idle_timeout" .word (·.sessionIdleTimeout) fun a o => { o with sessionIdleTimeout := a },
      of "response_timeout" .duration (·.responseTimeout) fun a o => { o with responseTimeout := a },
      of "max_apdu_size_outgoing" .longWord (·.maxOutgoing) fun a o => { o with maxOutgoing := a },
      of "max_apdu_size_incoming" .longWord (·.maxIncoming) fun a o => { o with maxIncoming := a },
      of "ed_class" .bytes (·.edClass) fun a o => { o with edClass := a },
      optional "initialization_vector" .longWord (·.initializationVector)
        fun a o => { o with initializationVector := a }] }

/-- Configurations. -/
def Config.codec : Codec Config :=
  RecordCodec.codec {
    blank := {}
    lenient := true
    fields := [
      of "user" .text (·.user) fun a c => { c with user := a },
      of "user_id" .word (·.userId) fun a c => { c with userId := a },
      of "password" .bytes (·.password) fun a c => { c with password := a },
      of "identity" .byte (·.identity) fun a c => { c with identity := a },
      of "data_format" .byte (·.dataFormat) fun a c => { c with dataFormat := a },
      of "packet_size" .word (·.packetSize) fun a c => { c with packetSize := a },
      of "max_packets" .byte (·.maxPackets) fun a c => { c with maxPackets := a },
      of "session_baud" .longWord (·.sessionBaud) fun a c => { c with sessionBaud := a },
      of "acknowledgement_timeout" .duration (·.acknowledgementTimeout)
        fun a c => { c with acknowledgementTimeout := a },
      of "intercharacter_timeout" .duration (·.intercharacterTimeout)
        fun a c => { c with intercharacterTimeout := a },
      of "channel_traffic_timeout" .duration (·.channelTrafficTimeout)
        fun a c => { c with channelTrafficTimeout := a },
      of "turnaround_delay" .duration (·.turnaroundDelay) fun a c => { c with turnaroundDelay := a },
      of "link_layer_retries" .byte (·.linkRetries) fun a c => { c with linkRetries := a },
      of "application_layer_retries" .byte (·.applicationRetries)
        fun a c => { c with applicationRetries := a },
      of "application_layer_retry_delay" .duration (·.applicationRetryDelay)
        fun a c => { c with applicationRetryDelay := a },
      of "procedure_retries" .byte (·.procedureRetries) fun a c => { c with procedureRetries := a },
      of "procedure_retry_delay" .duration (·.procedureRetryDelay)
        fun a c => { c with procedureRetryDelay := a },
      of "procedure_number_little_endian" .boolean (·.procedureNumberLittleEndian)
        fun a c => { c with procedureNumberLittleEndian := a },
      of "issue_negotiate" .boolean (·.issueNegotiate) fun a c => { c with issueNegotiate := a },
      of "issue_security" .boolean (·.issueSecurity) fun a c => { c with issueSecurity := a },
      of "issue_logoff" .boolean (·.issueLogoff) fun a c => { c with issueLogoff := a },
      of "c1221" TelephoneOptions.codec (·.telephone) fun a c => { c with telephone := a },
      of "c1222" NetworkOptions.codec (·.network) fun a c => { c with network := a }] }

/-! ## Tables -/

/-- Ranges: offset and count. -/
def rangeFields : RecordCodec (UInt32 × UInt32) where
  blank := (0, 0)
  fields := [
    of "offset" .longWord (·.1) fun a r => (a, r.2),
    of "count" .longWord (·.2) fun a r => (r.1, a)]

/-- Whole tables and ranges. A range is given by the names of its fields. -/
def TableAccess.codec : Codec TableAccess where
  toForm
    | .full => .text "Full"
    | .range offset count => .record [("Partial", rangeFields.codec.toForm (offset, count))]
  ofForm?
    | .record [("Partial", .record entries)] =>
      (rangeFields.ofEntries? entries).map fun r => .range r.1 r.2
    | form => if Codec.name? form = some "Full" then some .full else none

/-- Table descriptors. -/
def Descriptor.codec : Codec Descriptor :=
  RecordCodec.codec {
    blank := .full 0
    fields := [
      of "number" .longWord (·.number) fun a d => { d with number := a },
      of "access" TableAccess.codec (·.access) fun a d => { d with access := a },
      of "indexed" .boolean (·.indexed) fun a d => { d with indexed := a },
      optional "expected_size" .longWord (·.expectedSize) fun a d => { d with expectedSize := a }] }

end Metering
