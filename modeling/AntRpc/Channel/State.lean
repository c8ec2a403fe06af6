/-
One connection of an `RpcChannel` (rpc/core/channel_core.hpp,
rpc/core/channel_state.hpp, rpc/io_driver/): what its threads share and
where each of them stands.

# Threads

Callers run `StartUnaryCall`, closers run `Close`, one thread runs
`Init`, and one IO thread runs everything of the driver that ends in
`OnIoThread` together with the coroutines. Resolvers are all other
threads that call into the slot table: timers, cancellations.

# The IO thread

Its program is a list of operations still to do. A function call puts
the operations of the body in front; a coroutine that suspends leaves its
locals in the driver and drops out of the list; whoever resumes it puts
the rest of it in front of its own. So the inline resumption of a
cancelled read inside `HandleTerminalFailureOnIoThread` is a list prefix
like any call, and a later completion from the kernel is one that starts
from an empty list.

# What is left out

Logging, deadlines as clock values, socket options and the address. A
file descriptor is only whether it is open. The reason codes of a failed
`connect` are kept as the integers they are.
-/
import AntRpc.Slot.Table

namespace AntRpc.Channel

open Protocol Slot

-- == threads

/-- The threads that call into the slot table. -/
inductive Tid where
  | caller (k : Nat)
  | io
  | resolver (n : Nat)
deriving DecidableEq, Repr

/-- The channel's options and the generated code it uses. -/
structure ChannelConfig where
  table : TableConfig
  codec : MetaCodec
  maxFrameBytes : UInt64
  maxOutboundBytes : Nat
  maxInFlight : Nat
  defaultRpcTimeout : Int64

-- == callers

/-- The arguments of `StartUnaryCall`. The continuation `TaskNode` of
call `k` is `k` itself. `body` is the serialized request message, the raw
request body or the empty body; `none` is a message that does not
serialize. -/
structure CallInput where
  serviceName : String := ""
  methodName : String := ""
  controller : Option Nat := none
  body : Option Bytes := some []
  responseMsg : Option Nat := none
  rawRespBody : Option Nat := none
  executor : Option Nat := none
deriving DecidableEq

/-- `StartOutcome`. -/
inductive StartOutcome where
  | inFlight
  | failedInline
  | resolvedBySlot
deriving DecidableEq, Repr

/-- What follows `ReleaseReservedOutboundBytes` in `StartUnaryCall`. -/
inductive AfterRelease where
  | discard
  | resolved
deriving DecidableEq, Repr

/-- Where `StartUnaryCall` stands. An `await` point waits for the slot
table's operation to return. -/
inductive CallPc where
  | copyDriver
  | recordStart
  | checkCanceled
  | checkRunning
  | allocateSlot
  | awaitAllocate
  | setCorrelationId
  | bindActiveSlot
  | cancelBound
  | awaitCancelBound
  | readTimeout
  | addTimer
  | attachTimer
  | awaitAttach
  | cancelTimer
  | packFrame
  | loadOutbound
  | casOutbound (current : Nat)
  | addGauge
  | publishSlot
  | awaitPublish
  | releaseBytes (next : AfterRelease)
  | subGauge (next : AfterRelease)
  | enqueueReserved
  | resolvePublish (code : Int32) (message : String)
  | awaitResolvePublish (code : Int32) (message : String)
  | resolveFail (code : Int32) (message : String)
  | awaitResolveFail
  | discardSlot (code : Int32) (message : String)
  | awaitDiscard (code : Int32) (message : String)
  | setFailed (code : Int32) (message : String)
  | takeNotify (code : Int32)
  | recordCompletion (code : Int32)
  | leave (outcome : StartOutcome)
  | returned (outcome : StartOutcome)
  | ranInline
deriving DecidableEq, Repr

/-- One call of `StartUnaryCall`: its arguments, program point and
locals. `completions` and `inlineRuns` (history) count the completions it
recorded and the runs of the continuation by its caller. -/
structure Caller where
  input : CallInput := {}
  pc : CallPc := .copyDriver
  driver : Bool := false
  correlationId : UInt64 := 0
  timeoutMs : Int64 := 0
  deadlineTimerId : UInt64 := 0
  frame : Bytes := []
  completions : Nat := 0
  inlineRuns : Nat := 0
deriving DecidableEq

-- == init and closers

/-- Where `Init` stands after it published the new driver. -/
inductive InitPc where
  | postStart
  | waitConnect
  | closing
  | done
deriving DecidableEq, Repr

/-- Where `Close` stands. -/
inductive ClosePc where
  | idle
  | copyDriver
  | exchangeRunning
  | storePosted
  | postClose
  | waitClosed
  | resetDriver
  | leave
  | done
deriving DecidableEq, Repr

/-- One call of `Close`: its program point and whether its local
`shared_ptr` holds the driver. -/
structure Closer where
  pc : ClosePc := .idle
  driver : Bool := false
deriving DecidableEq, Repr

-- == driver

/-- `OutboundFrame`. -/
structure OutboundFrame where
  correlationId : UInt64
  buffer : Bytes
deriving DecidableEq, Repr

/-- The `IoCommand`s that carry this driver's pointer. -/
inductive IoCommand where
  | channelStart
  | channelSendFrame (correlationId : UInt64) (payload : Bytes)
  | channelClose
deriving DecidableEq, Repr

/-- What a `recv` gave. -/
inductive ReadResult where
  | data (chunk : Bytes)
  | eof
  | error
deriving DecidableEq, Repr

/-- A coroutine frame: not there yet, there, or gone. -/
inductive Coro where
  | unborn
  | alive
  | gone
deriving DecidableEq, Repr

/-- channel_connect.hpp and the `when_any` race it runs. -/
inductive ConnectOp where
  | start
  | finishConnect (result : Int)
  | openConnect
  | connectCompleted (result : Int)
  | completeFirst (result : Int)
  | armTimeout
  | timeoutCompleted
  | joinConnect
  | connected (result : Int)
  | startReceiver
  | endConnect
deriving DecidableEq

/-- `ReceiveLoop`. -/
inductive ReceiveOp where
  | receiveLoop (recvBuffer : Bytes)
  | readResumed (recvBuffer : Bytes) (result : ReadResult)
  | parseFrames (recvBuffer : Bytes)
  | completeResponse (correlationId : UInt64) (response : Response)
  | receiveExit
  | endReceive
deriving DecidableEq

/-- `SendFrameOnIoThread`, `StartNextWriteOnIoThread`, `WriteFrame`. -/
inductive WriteOp where
  | sendFrame (correlationId : UInt64) (buffer : Bytes)
  | startNextWrite
  | writeLoop (frame : OutboundFrame)
  | writeResumed (frame : OutboundFrame) (written : Int)
  | writeExit
  | endWrite
deriving DecidableEq

/-- `ReleaseReservedOutboundBytes`, `HandleTerminalFailureOnIoThread`,
`FailAndClearOutboundOnIoThread`, and waiting for the slot table. -/
inductive FailureOp where
  | releaseBytes (n : Nat)
  | subGauge (n : Nat)
  | exchangeRunning
  | cancelConnect
  | cancelRead
  | cancelWrite
  | shutdownSocket
  | failAll (code : Int32) (message : String)
  | awaitFailAll
  | clearOutbound (code : Int32) (message : String)
  | failSlot (correlationId : UInt64) (code : Int32) (message : String)
  | awaitSlots
deriving DecidableEq

/-- The flags of the close path, and `TryFinishCloseOnIoThread`. -/
inductive CloseOp where
  | setReceiverExited
  | setCloseHandled
  | tryFinishClose
  | checkCloseCommand
  | closeFd
  | setClosed
deriving DecidableEq

/-- One operation of the IO thread, with the locals it needs. -/
inductive IoOp where
  | connect (op : ConnectOp)
  | receive (op : ReceiveOp)
  | write (op : WriteOp)
  | failure (op : FailureOp)
  | close (op : CloseOp)
deriving DecidableEq

/-- A connection: `ChannelState`, `RpcChannelIoDriver`, its commands in
the context's mailbox, and the threads.

History: `received` and `sent` are the bytes read from and written to the
socket, `enqueued` the bytes of the frames queued in `outbound_`, in
order; `failedAll` says that a `FailAllActiveSlots` of the driver has
returned, `finished` that `TryFinishCloseOnIoThread` set `closed`. -/
structure State where
  -- ChannelState
  slots : Slot.State Tid
  running : Bool := true
  connectFinished : Bool := false
  connectResult : Int := -1
  closed : Bool := false
  -- RpcChannelIoDriver
  fdOpen : Bool := true
  outboundBytes : Nat := 0
  outbound : List OutboundFrame := []
  receiverStarted : Bool := false
  receiverExited : Bool := false
  writing : Bool := false
  connectStarted : Bool := false
  connectOperationExited : Bool := false
  activeConnect : Bool := false
  activeRead : Option Bytes := none
  activeWrite : Option OutboundFrame := none
  closeCommandPosted : Bool := false
  closeCommandHandled : Bool := false
  -- coroutine frames; `when_any`'s winner and its starting flag
  connectTask : Coro := .unborn
  connectOp : Coro := .unborn
  connectTimer : Coro := .unborn
  connectWinner : Option Int := none
  connectStarting : Bool := false
  receiver : Coro := .unborn
  writers : Nat := 0
  -- the context, the socket
  mailbox : List IoCommand := []
  io : List IoOp := []
  received : Bytes := []
  sent : Bytes := []
  enqueued : Bytes := []
  failedAll : Bool := false
  finished : Bool := false
  -- the channel and the other threads
  driverRef : Bool := true
  init : InitPc := .postStart
  started : Nat := 0
  callers : Nat → Caller := fun _ => {}
  closers : Nat → Closer := fun _ => {}

end AntRpc.Channel
