/-
One connection of a server (`ServerConnection`,
rpc/server/server_connection.hpp): its fields, its calls, and where each
thread that works on it stands.

# Threads

The context's IO thread runs the accept path, `ReceiveLoop`,
`WriteFrame` and everything that ends in `OnIoThread`. As for a channel
its program is a list of operations still to do: a call puts the
operations of the body in front, a coroutine that suspends drops out. Two
connections of one context share that thread and its mailbox; here each
has its own, which allows more interleavings. Workers run dispatch tasks
and finalizations, service code runs `done->Run()` on any thread, and any
thread may call `RequestClose` (the idle timer, a stopping server).

# Calls

Every request frame handed to `HandleRequest` has a number and a `Call`;
the part of it that is `InboundCallState` is there once the request is
admitted. `finalizers` are the finalization tasks made for it.

# History

`closeRequested` (`RequestClose` was called), `closedAs` (the reason the
close was counted under), `pushed` (the frames that entered `outbound_`,
with the request they answer), `received` and `sent` (the bytes read from
and written to the socket), `log` and `executions` are read by no step;
`acquired` only says whether the connection exists.
-/
import AntRpc.Server.Runtime

namespace AntRpc.Server

open Protocol

-- == calls

/-- `CompletionState`. -/
inductive CompletionState where
  | pending
  | finalizationScheduled
  | finalized
deriving DecidableEq

/-- Where `TryReserveOutboundBytes` stands. -/
inductive ReservePc where
  | checkRunning
  | load
  | cas (current : Int)
deriving DecidableEq

/-- What `FinalizeInboundCall` has at hand once it may post: whether the
connection was there, the response and `close_after`. -/
structure Payload where
  connection : Bool
  response : Bytes
  closeAfter : Bool
deriving DecidableEq

/-- Where a finalization stands: about to be scheduled, in the executor,
in `FinalizeInboundCall`, or over. A response that does not pack is
`none`. -/
inductive FinalizePc where
  | scheduling
  | queued
  | lock (packed : Option Bytes)
  | loadRunning (response : Bytes)
  | reserve (response : Bytes) (pc : ReservePc)
  | account (payload : Payload)
  | accountMethod (payload : Payload)
  | subMethodGauge (payload : Payload)
  | storeFinalized (payload : Payload)
  | post (payload : Payload)
  | releaseInFlight
  | subInFlightGauge
  | finished
deriving DecidableEq

/-- Where the dispatch task of a call stands. -/
inductive DispatchPc where
  | unscheduled
  | queued
  | subTaskGauge
  | lookup
  | startMethod (method : Nat)
  | addMethodGauge (method : Nat)
  | parseRequest (method : Nat)
  | invoke
  | storeScheduled
  | schedule
  | returned
deriving DecidableEq

/-- What `HandleRequest` made of a request. -/
inductive Admission where
  | handling
  | rejected
  | admitted
deriving DecidableEq

/-- A request and its `InboundCallState`. -/
structure Call where
  frame : FrameParseResult := {}
  admission : Admission := .handling
  dispatch : DispatchPc := .unscheduled
  responseMeta : RpcMeta := {}
  method : Option Nat := none
  done : Bool := false
  completion : CompletionState := .pending
  finalizers : List FinalizePc := []
  -- history
  executions : Nat := 0

-- == operations

/-- The `IoCommand`s that carry this connection's pointer. -/
inductive Command where
  | start
  | completeInbound (r : Nat) (response : Bytes) (closeAfter : Bool)
  | close
deriving DecidableEq

/-- What a `recv` gave. -/
inductive ReadResult where
  | data (chunk : Bytes)
  | eof
  | error
deriving DecidableEq

/-- Where `RequestClose` stands. -/
inductive ClosePc where
  | record (reason : ConnectionCloseReason)
  | exchangeRunning
  | storePosted
  | post
  | done
deriving DecidableEq

/-- The accept path: `TryAcquireConnection`, `Start`, `TrackConnection`. -/
inductive AcceptOp where
  | loadAccepting
  | loadActive
  | casActive (current : Int)
  | addAccepted
  | addActiveGauge
  | start
  | trackLoad
  | trackPush (stopping : Bool)
  | trackClose (stopping : Bool)
deriving DecidableEq

/-- What follows `ReleaseInFlight` in `HandleRequest`. -/
inductive AfterRelease where
  | reject (text : String)
  | close
deriving DecidableEq

/-- Where `HandleRequest` stands. -/
inductive HandlePc where
  | received
  | checkAccepting
  | checkConnection
  | loadInFlight
  | casInFlight (current : Int)
  | addInFlightGauge
  | loadTasks
  | casTasks (current : Int)
  | addTaskGauge
  | checkExecutor
  | addCall
  | schedule
  | releaseTask
  | subTaskGauge
  | releaseInFlight (next : AfterRelease)
  | subInFlightGauge (next : AfterRelease)
  | reject (text : String)
deriving DecidableEq

/-- `SendErrorResponseOnIoThread`, `EnqueueResponseOnIoThread`, which
only `HandleRequest` calls. -/
inductive RespondOp where
  | sendError (text : String)
  | reserve (response : Bytes) (pc : ReservePc)
  | enqueue (response : Bytes)
deriving DecidableEq

/-- `ReceiveLoop`. -/
inductive ReceiveOp where
  | receiveLoop
  | parse
  | handle (r : Nat) (pc : HandlePc)
  | respond (r : Nat) (op : RespondOp)
  | checkRunning
  | read
  | readResumed (result : ReadResult)
  | receiveExit
deriving DecidableEq

/-- `StartNextWriteOnIoThread`, `WriteFrame`. -/
inductive WriteOp where
  | startNextWrite
  | writeLoop (buffer : Bytes)
  | write (buffer : Bytes)
  | writeResumed (buffer : Bytes) (written : Int)
  | writeRelease (buffer : Bytes) (written : Nat)
  | writeExit (buffer : Bytes)
deriving DecidableEq

/-- Commands, the close path, `ReleaseConnection`. -/
inductive CloseOp where
  | requestClose (pc : ClosePc)
  | recordReason (reason : ConnectionCloseReason)
  | stopRunning
  | release (n : Nat)
  | start
  | complete (r : Nat) (response : Bytes) (closeAfter : Bool)
  | stopForCompletion
  | beginClose
  | discard
  | exitUnstarted
  | tryFinish
  | checkPosted
  | closeFd
  | exchangeReleased
  | eraseConnection
  | subActive
  | subActiveGauge
  | recordClose
  | addClosed
  | checkTimer
  | cancelTimer
deriving DecidableEq

/-- One operation of the IO thread, with the locals it needs. -/
inductive IoOp where
  | accept (op : AcceptOp)
  | receive (op : ReceiveOp)
  | write (op : WriteOp)
  | close (op : CloseOp)
deriving DecidableEq

/-- What the IO thread did to the socket and to the connection:
`receiving` and `writing` say whether a coroutine was at work. -/
inductive IoEvent where
  | read
  | write
  | socketClosed (receiving writing : Bool)
  | released (running startHandled : Bool) (inboundCalls : Nat)
deriving DecidableEq

-- == connection

/-- `ServerConnection`, its commands in the context's mailbox and its
threads. -/
structure Conn where
  fdOpen : Bool := true
  recvBuffer : Bytes := []
  inboundCalls : List Nat := []
  outbound : List Bytes := []
  inFlightCalls : Int := 0
  reservedOutboundBytes : Int := 0
  running : Bool := true
  released : Bool := false
  closeCommandPosted : Bool := false
  closeReason : ConnectionCloseReason := .none
  receiverStarted : Bool := false
  receiverExited : Bool := false
  writing : Bool := false
  startCommandHandled : Bool := false
  closeCommandHandled : Bool := false
  -- suspended coroutines, the mailbox, the IO thread
  activeRead : Bool := false
  activeWrite : Option Bytes := none
  mailbox : List Command := []
  io : List IoOp := []
  -- calls and closers
  requests : Nat := 0
  calls : Nat → Call := fun _ => {}
  closers : List ClosePc := []
  -- history
  acquired : Bool := false
  closeRequested : Bool := false
  closedAs : Option ConnectionCloseReason := none
  pushed : List (Nat × Bytes) := []
  received : Bytes := []
  sent : Bytes := []
  log : List IoEvent := []

/-- Operations of `ReceiveLoop`. -/
def IoOp.isReceive : IoOp → Bool
  | .receive _ => true
  | _ => false

/-- Operations of a `WriteFrame`. -/
def IoOp.isWrite : IoOp → Bool
  | .write .startNextWrite => false
  | .write _ => true
  | _ => false

/-- `ReceiveLoop` is at work: suspended in a read or on the list. -/
def Conn.receiving (c : Conn) : Bool :=
  c.activeRead || c.io.any IoOp.isReceive

/-- A `WriteFrame` is at work: suspended in a write or on the list. -/
def Conn.writingFrame (c : Conn) : Bool :=
  c.activeWrite.isSome || c.io.any IoOp.isWrite

def Conn.setCall (c : Conn) (r : Nat) (call : Call) : Conn :=
  { c with calls := Function.update c.calls r call }

/-- Something happened on the IO thread. -/
def Conn.logs (c : Conn) (e : IoEvent) : Conn :=
  { c with log := c.log ++ [e] }

-- == RequestClose

/-- `RecordCloseReason`. -/
def Conn.recordCloseReason (c : Conn) (reason : ConnectionCloseReason) :
    Conn :=
  { c with
    closeReason := if c.closeReason = .none then reason else c.closeReason }

/-- One step of `RequestClose`. -/
def execRequestClose (rt : Runtime) (c : Conn) : ClosePc →
    Option (Runtime × Conn × ClosePc)
  | .record reason =>
      some (rt, c.recordCloseReason reason, .exchangeRunning)
  | .exchangeRunning =>
      some (rt, { c with running := false },
        if c.running then .storePosted else .done)
  | .storePosted =>
      some (rt, { c with closeCommandPosted := true }, .post)
  | .post =>
      some (rt.add .ioCommandBacklog 1,
        { c with mailbox := c.mailbox ++ [.close] }, .done)
  | .done => none

-- == TryReserveOutboundBytes

/-- How a step of `TryReserveOutboundBytes` ends. -/
inductive Reserve where
  | goto (pc : ReservePc)
  | returned (ok : Bool)
deriving DecidableEq

/-- One step of `TryReserveOutboundBytes`. -/
def execReserve (limit bytes : Nat) (spurious : Bool) (c : Conn) :
    ReservePc → Reserve
  | .checkRunning =>
      if bytes = 0 ∨ !c.running then .returned (bytes = 0)
      else if bytes > limit then .returned false
      else .goto .load
  | .load => .goto (.cas c.reservedOutboundBytes)
  | .cas current =>
      match tryCas (current ≤ (limit - bytes : Nat)) c.reservedOutboundBytes
          current spurious with
      | .refused => .returned false
      | .won => .returned true
      | .retry current => .goto (.cas current)

/-- The bytes are reserved. -/
def Conn.reserve (c : Conn) (bytes : Nat) : Conn :=
  { c with reservedOutboundBytes := c.reservedOutboundBytes + bytes }

/-- `ReleaseOutboundBytes`. -/
def Conn.release (c : Conn) (bytes : Nat) : Conn :=
  { c with reservedOutboundBytes := c.reservedOutboundBytes - bytes }

end AntRpc.Server
