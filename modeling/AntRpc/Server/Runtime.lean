/-
`ServerRuntime` (rpc/server/server_connection.hpp), its options and its
metrics (rpc/server/server_options.hpp, rpc/server/server_metrics.hpp),
and the registry of services (rpc/service_registry.hpp): what all
connections of a server share.

# Counters

`active_connections_`, `in_flight_`, `pending_worker_tasks_` and every
metric are one map from a name to an integer. The source's counters are
unsigned; the integer is the counter's value as long as it is not
negative, and what is proved here bounds those that are read. Each update
is a step of its own where the source has it between two other accesses
to shared state; the metrics that are only ever counted up ride along
with the step before them.

# Left out

Latencies, logging, the shutdown of a socket (a later read or write
decides what it did) and the clock: a timer that was armed may fire at
any moment.
-/
import AntRpc.Controller
import AntRpc.Protocol.Receive

namespace AntRpc.Server

open Protocol

/-- `ConnectionCloseReason`. -/
inductive ConnectionCloseReason where
  | none
  | localRequest
  | serverStop
  | peerEof
  | readError
  | writeError
  | protocolError
  | idleTimeout
  | resourceLimit
  | internalError
  | unknown
deriving DecidableEq

/-- The indices of `connection_closes_by_reason_`. -/
def ConnectionCloseReason.all : List ConnectionCloseReason :=
  [.none, .localRequest, .serverStop, .peerEof, .readError, .writeError,
    .protocolError, .idleTimeout, .resourceLimit, .internalError, .unknown]

/-- The reason a closed connection is counted under. -/
def ConnectionCloseReason.counted : ConnectionCloseReason →
    ConnectionCloseReason
  | .none => .unknown
  | reason => reason

-- == services

/-- What `FindMethod` answers. A method is its number, which its metrics
are filed under. -/
inductive MethodLookup where
  | noService
  | noMethod
  | found (method : Nat)
deriving DecidableEq

/-- The registered services: their methods by name, and whether a request
body parses as the method's request message. -/
structure ServiceRegistry where
  services : String → Option (String → Option Nat)
  parses : Nat → Bytes → Bool

/-- `FindMethod`. -/
def ServiceRegistry.findMethod (registry : ServiceRegistry)
    (serviceName methodName : String) : MethodLookup :=
  match registry.services serviceName with
  | .none => .noService
  | some methods =>
      match methods methodName with
      | .none => .noMethod
      | some m => .found m

/-- `RpcServerOptions`, the generated code and the services. `executor` is
whether the context has one. -/
structure ServerConfig where
  maxConnections : Nat
  maxInFlight : Nat
  maxInFlightPerConnection : Nat
  maxPendingWorkerTasks : Nat
  maxFrameBytes : UInt64
  maxOutboundBytesPerConnection : Nat
  gracefulStopTimeout : Nat
  executor : Bool := true
  codec : MetaCodec
  registry : ServiceRegistry

-- == counters

/-- The counters and gauges. -/
inductive Counter where
  -- ServerRuntime
  | activeConnections
  | inFlight
  | pendingWorkerTasks
  -- ServerMetrics
  | acceptedConnections
  | rejectedConnections
  | closedConnections
  | closesByReason (reason : ConnectionCloseReason)
  | requestsReceived
  | callsStarted
  | callsCompleted
  | callErrors
  | requestsRejectedOverload
  | responsesEnqueued
  | writeErrors
  | partialWriteCompletions
  | protocolErrors
  | activeConnectionsGauge
  | activeInFlightGauge
  | pendingWorkerTasksGauge
  | outboundBytesGauge
  | ioCommandBacklog
  -- ServerMethodMetrics
  | methodStarted (method : Nat)
  | methodCompleted (method : Nat)
  | methodErrors (method : Nat)
  | methodActive (method : Nat)
deriving DecidableEq

/-- The force-close timer of a graceful stop. -/
inductive StopTimer where
  | none
  | armed
  | canceled
  | firing
  | fired
deriving DecidableEq

/-- `ServerRuntime`. Connections are numbered in the order their sockets
were accepted. `timerId` is whether `graceful_stop_timer_id_` holds an
id. -/
structure Runtime where
  accepting : Bool := true
  count : Counter → Int := fun _ => 0
  connections : List Nat := []
  timer : StopTimer := .none
  timerId : Bool := false

/-- `fetch_add`, `fetch_sub` and `Add`. -/
def Runtime.add (rt : Runtime) (k : Counter) (n : Int) : Runtime :=
  { rt with count := Function.update rt.count k (rt.count k + n) }

-- == cas

/-- How one `compare_exchange_weak` of an acquire loop ends. -/
inductive Cas where
  | refused
  | won
  | retry (current : Int)
deriving DecidableEq

/-- One round of the loop `while (fits(current)) compare_exchange_weak`. -/
def tryCas (fits : Bool) (value current : Int) (spurious : Bool) : Cas :=
  if !fits then .refused
  else if value = current ∧ !spurious then .won
  else .retry value

end AntRpc.Server
