import UpAndDownESP.Lib.Runs
import UpAndDownESP.Lib.Slots
import UpAndDownESP.Lib.HighWater
import UpAndDownESP.Lib.Mealy
import UpAndDownESP.Lib.ShiftRegister
import UpAndDownESP.Lib.Reader
import UpAndDownESP.Lib.BigEndian
import UpAndDownESP.Lib.RecMutex
import UpAndDownESP.Lib.Pacing
import UpAndDownESP.TinyFrame.State
import UpAndDownESP.TinyFrame.Checksum
import UpAndDownESP.TinyFrame.Listeners
import UpAndDownESP.TinyFrame.Parser
import UpAndDownESP.TinyFrame.Compose
import UpAndDownESP.TinyFrame.Multipart
import UpAndDownESP.TinyFrame.Removal
import UpAndDownESP.TinyFrame.Peer
import UpAndDownESP.Comm.CString
import UpAndDownESP.Comm.Messages
import UpAndDownESP.Comm.Mqtt
import UpAndDownESP.Comm.Protocol
import UpAndDownESP.Comm.Wifi
import UpAndDownESP.App.MaxComm
import UpAndDownESP.App.Endpoint
import UpAndDownESP.Spec.Session
import UpAndDownESP.Spec.Decoder
import UpAndDownESP.Spec.Conversation
import UpAndDownESP.Spec.Tables
import UpAndDownESP.Spec.Reports
import UpAndDownESP.System.Link
import UpAndDownESP.System.Tasks
import UpAndDownESP.System.Delivery
import UpAndDownESP.System.Duplex
import UpAndDownESP.System.Pacing
import UpAndDownESP.System.Transport
import UpAndDownESP.Proofs.Table
import UpAndDownESP.Proofs.Sending
import UpAndDownESP.Proofs.Transport
import UpAndDownESP.Proofs.Receiving
import UpAndDownESP.Proofs.Application
import UpAndDownESP.Proofs.Refinement
import UpAndDownESP.Proofs.Capacity
import UpAndDownESP.Proofs.Commands
import UpAndDownESP.Proofs.Grammar
import UpAndDownESP.Proofs.Floor
import UpAndDownESP.Proofs.Delivery
import UpAndDownESP.Proofs.Heartbeat
import UpAndDownESP.Proofs.HeartbeatPacing
import UpAndDownESP.Proofs.History
import UpAndDownESP.Proofs.Accounting
import UpAndDownESP.Proofs.FrameFormat
import UpAndDownESP.Proofs.Stream
import UpAndDownESP.Proofs.Events
import UpAndDownESP.Proofs.LinkState
import UpAndDownESP.Proofs.WifiStatus
import UpAndDownESP.Proofs.WifiAttempts
import UpAndDownESP.Proofs.Attribution
import UpAndDownESP.Proofs.Deadlock
import UpAndDownESP.Proofs.Interleaving
import UpAndDownESP.Proofs.StaleBytes
import UpAndDownESP.Proofs.Checksum
import UpAndDownESP.Proofs.Decoding
import UpAndDownESP.Proofs.ReceiveBuffer
import UpAndDownESP.Proofs.Conversation
import UpAndDownESP.Proofs.Integrity
import UpAndDownESP.Proofs.Recovery
import UpAndDownESP.Proofs.Multipart
import UpAndDownESP.Proofs.ListenerCounts
import UpAndDownESP.Proofs.Expiry
import UpAndDownESP.Proofs.Exchange
import UpAndDownESP.Proofs.Duplex
import UpAndDownESP.Proofs.Dashboard
