import RespStore.Request.Decoder
import RespStore.Outbound
import RespStore.Lcs
import RespStore.Text.Upper
import RespStore.Backend
import RespStore.ListMap
import RespStore.Exchange
import RespStore.Simulation
import RespStore.CommandLine
import RespStore.Main
import RespStore.Proofs.Linearization
import RespStore.Proofs.Wire.Reading
import RespStore.Proofs.Wire.Replies
import RespStore.Proofs.Decimal.Length
import RespStore.Proofs.Decimal.Canonical
import RespStore.Proofs.Task
import RespStore.Proofs.Command
import RespStore.Proofs.Fits
import RespStore.Proofs.Handler
import RespStore.Proofs.Framing
import RespStore.Proofs.Connection.Steps
import RespStore.Proofs.Server
import RespStore.Proofs.Connection.Stream
import RespStore.Proofs.Connection.Reader
import RespStore.Proofs.Conversation
import RespStore.Proofs.Acknowledgement
import RespStore.Proofs.Connection.Ahead
import RespStore.Proofs.Connection.Progress
import RespStore.Proofs.Transparency
import RespStore.Proofs.Registry
import RespStore.Proofs.Registration
import RespStore.Proofs.Flushing
import RespStore.Proofs.Precedence
import RespStore.Proofs.Backlog
import RespStore.Proofs.Departure
import RespStore.Proofs.Accounting
import RespStore.Proofs.Fanout
import RespStore.Proofs.Capacity
import RespStore.Proofs.Wire.Consumption
import RespStore.Proofs.Chunking
import RespStore.Proofs.SizeLimit
import RespStore.Proofs.Decoding
import RespStore.Proofs.Apply
import RespStore.Proofs.Deque
import RespStore.Proofs.ListCommands
import RespStore.Proofs.Deed
import RespStore.Proofs.Dealings
import RespStore.Proofs.Conservation
import RespStore.Proofs.Wire.RoundTrip
import RespStore.Proofs.Outbound
import RespStore.Proofs.EventLog
import RespStore.Proofs.Retrying
import RespStore.Proofs.Calls
import RespStore.Proofs.NoEmptyLists
import RespStore.Proofs.MainLoop
import RespStore.Proofs.Faults
import RespStore.Proofs.Subscribing
import RespStore.Proofs.Harmlessness
import RespStore.Proofs.Locality
import RespStore.Proofs.Offsets
import RespStore.Proofs.Lcs.Walk
import RespStore.Proofs.Lcs.Runs
import RespStore.Proofs.Lcs.Report
import RespStore.Proofs.Backpressure
import RespStore.Proofs.Removal
import RespStore.Proofs.Arguments
import RespStore.Proofs.Lcs.Checked
import RespStore.Proofs.Wire.Checked
import RespStore.Proofs.Packing
