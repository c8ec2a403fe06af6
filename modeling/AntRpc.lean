import AntRpc.Lib.Word
import AntRpc.Lib.Framing
import AntRpc.Lib.Machine
import AntRpc.Lib.Chain
import AntRpc.Lib.Deque
import AntRpc.Lib.Custody
import AntRpc.Protocol.Basic
import AntRpc.Protocol.Proofs.Parse
import AntRpc.Protocol.Proofs.RoundTrip
import AntRpc.Protocol.Receive
import AntRpc.Protocol.Format
import AntRpc.Protocol.Proofs.Format
import AntRpc.Controller
import AntRpc.Slot.Basic
import AntRpc.Slot.Cell
import AntRpc.Slot.Table
import AntRpc.Slot.Publication
import AntRpc.Slot.Proofs.Ownership
import AntRpc.Slot.Proofs.Isolation
import AntRpc.Slot.Proofs.Failure
import AntRpc.Slot.Proofs.Client
import AntRpc.Slot.Proofs.Stakes
import AntRpc.Slot.Proofs.Winning
import AntRpc.Slot.Proofs.Passing
import AntRpc.Slot.Proofs.Accounts
import AntRpc.Slot.Proofs.Arming
import AntRpc.Slot.Proofs.Reuse
import AntRpc.Slot.Proofs.Overload
import AntRpc.Channel.State
import AntRpc.Channel.Call
import AntRpc.Channel.Driver
import AntRpc.Channel.Machine
import AntRpc.Channel.Proofs.Table
import AntRpc.Channel.Proofs.Callers
import AntRpc.Channel.Proofs.Calls
import AntRpc.Scheduler.Spmc
import AntRpc.Scheduler.Proofs.Spmc
import AntRpc.Scheduler.Executor
import AntRpc.Scheduler.Proofs.Executor
import AntRpc.Timer.Heap
import AntRpc.Lib.Heap
import AntRpc.Timer.Proofs.Heap
import AntRpc.Timer.Proofs.Order
import AntRpc.Timer.Keeper
import AntRpc.Timer.Proofs.Custody
import AntRpc.Timer.Proofs.Wakeup
import AntRpc.Timer.Proofs.Expiry
import AntRpc.Lib.Signed
import AntRpc.Timer.Deadline
import AntRpc.Timer.Proofs.Deadline
import AntRpc.Coroutine.WhenAny
import AntRpc.Coroutine.Proofs.WhenAny
import AntRpc.Context.Control
import AntRpc.Context.Proofs.Control
import AntRpc.Context.TimerAwaiter
import AntRpc.Context.Proofs.TimerAwaiter
import AntRpc.Context.Epoll
import AntRpc.Context.Proofs.Epoll
import AntRpc.Server.Runtime
import AntRpc.Server.Connection
import AntRpc.Server.IoThread
import AntRpc.Server.Worker
import AntRpc.Server.Machine
import AntRpc.Lib.Ledger
import AntRpc.Server.Proofs.Steps
import AntRpc.Server.Proofs.Running
import AntRpc.Server.Proofs.Lifecycle
import AntRpc.Server.Proofs.Socket
import AntRpc.Server.Proofs.Calls
import AntRpc.Server.Proofs.Answers
import AntRpc.Server.Proofs.Incoming
import AntRpc.Server.Proofs.Outbound
import AntRpc.Exchange
import AntRpc.Server.Proofs.Admission
import AntRpc.Channel.Proofs.Rejected
import AntRpc.Notify.Machine
import AntRpc.Notify.Proofs.Custody
import AntRpc.Notify.Proofs.Once
import AntRpc.Lib.PrefixCode
import AntRpc.Lib.Comparator
import AntRpc.Text.Escape
import AntRpc.Metrics.Registry
import AntRpc.Text.Proofs.Escape
import AntRpc.Metrics.Proofs.Registry
import AntRpc.Metrics.Proofs.Export
import AntRpc.Lib.Retry
import AntRpc.Logging.RateLimiter
import AntRpc.Logging.Proofs.RateLimiter
import AntRpc.Metrics.LatencyRecorder
import AntRpc.Metrics.Proofs.LatencyRecorder
import AntRpc.Http.Parser
import AntRpc.Http.Proofs.Headers
import AntRpc.Http.Proofs.Blocks
import AntRpc.Http.Proofs.Pipeline
import AntRpc.Scheduler.Placement
import AntRpc.Scheduler.Proofs.Placement
import AntRpc.Coroutine.Timeout
import AntRpc.Coroutine.Proofs.Timeout
import AntRpc.Coroutine.Proofs.Cancel
import AntRpc.Coroutine.Task
import AntRpc.Coroutine.Proofs.Task
