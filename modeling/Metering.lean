import Metering.Acse.Responder
import Metering.Association.Exchange
import Metering.Buffer.Frame
import Metering.Channel.Apdu
import Metering.Client.Start
import Metering.Client.Tables
import Metering.CurrentLoop
import Metering.Form.Config
import Metering.Form.Medium
import Metering.Link.Request
import Metering.MemoryPair
import Metering.Modem
import Metering.Packet
import Metering.Procedure
import Metering.Proofs.Binding
import Metering.Proofs.Disposition
import Metering.Proofs.Deadline
import Metering.Proofs.Matching
import Metering.Proofs.Nonces
import Metering.Proofs.Reassembly
import Metering.Proofs.Tempo
import Metering.SecurityContext
import Metering.Service.Response
import Metering.Session
import Metering.SharedLine
import Metering.Proofs.Framing
import Metering.Proofs.Verified
import Metering.Proofs.Frames
import Metering.Proofs.Repetition
import Metering.Proofs.Completeness
import Metering.Proofs.Asking
import Metering.Proofs.Stops
import Metering.Proofs.LostChannel
import Metering.Proofs.Handshake
import Metering.Proofs.Writes
import Metering.Proofs.Queue
import Metering.Proofs.Sending
import Metering.Proofs.Calls
import Metering.Proofs.Order
import Metering.Proofs.Contents
import Metering.Proofs.Outcomes
import Metering.Proofs.Reading
import Metering.Proofs.Exact
import Metering.Proofs.Progress
import Metering.Proofs.Faithful
import Metering.Proofs.Written
import Metering.Proofs.Damage
import Metering.Proofs.Sealing
import Metering.Proofs.Chaining
import Metering.Proofs.Vectors
import Metering.Proofs.Announced
import Metering.Proofs.Suspicion
import Metering.Proofs.Reception
import Metering.Proofs.Spelling
import Metering.Proofs.Peer
import Metering.Proofs.Grammar
import Metering.Proofs.Stream
import Metering.Proofs.RingRun
import Metering.Proofs.Closing
import Metering.Proofs.Procedures
import Metering.Proofs.Dialling
import Metering.Proofs.Echo
import Metering.Proofs.TableCodec
import Metering.Proofs.Leftovers
import Metering.Proofs.Sees
import Metering.Proofs.Bare
import Metering.Proofs.Lonely
import Metering.Proofs.Reset
import Metering.Proofs.Features
import Metering.Proofs.DataFormat
import Metering.Proofs.Percentages
import Metering.Proofs.CheckedReception
import Metering.Proofs.FrameRun
import Metering.Proofs.Lengths
