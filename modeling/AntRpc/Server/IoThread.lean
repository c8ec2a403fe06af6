/-
The IO thread of a server connection (rpc/server/server_connection.hpp,
rpc/server/rpc_server.hpp): the accept path, `ReceiveLoop` with
`HandleRequest`, the replies made on this thread, `WriteFrame`, the
commands and the close path.

# Operations

Each function below gives, for one operation, the runtime and the
connection after it and the operations it puts in front. It reads and
writes the IO thread's own fields freely and makes at most one access to
what other threads use (counters that only metrics have apart).

# Choices

The kernel decides whether a read or a write is done at once or suspends
its coroutine; a `compare_exchange_weak` may fail for no reason.
-/
import AntRpc.Server.Connection

namespace AntRpc.Server

open Protocol Lib

/-- What the environment decides about a step. -/
inductive Choice where
  | go
  | spurious
  | readNow (result : ReadResult)
  | writeNow (written : Int)
deriving DecidableEq

/-- A `recv` returns at least one byte or says why not. -/
def ReadResult.Possible : ReadResult → Prop
  | .data chunk => chunk ≠ []
  | .eof | .error => True

instance : DecidablePred ReadResult.Possible := fun r =>
  match r with
  | .data _ => inferInstanceAs (Decidable (_ ≠ _))
  | .eof | .error => inferInstanceAs (Decidable True)

/-- The bytes a completed `recv` took from the socket. -/
def Conn.receive (c : Conn) : ReadResult → Conn
  | .data chunk => { c with received := c.received ++ chunk }
  | .eof | .error => c

/-- The bytes a completed `writev` gave to the socket. -/
def Conn.transmit (c : Conn) (buffer : Bytes) (written : Int) : Conn :=
  { c with sent := c.sent ++ buffer.take written.toNat }

/-- What one operation leaves. -/
abbrev Outcome := Runtime × Conn × List IoOp

-- == accept

/-- `TryAcquireConnection`, `Start` and `TrackConnection` for connection
`n`. A refused socket is closed and never becomes a connection. -/
def execAccept (cfg : ServerConfig) (n : Nat) (ch : Choice) (rt : Runtime)
    (c : Conn) : AcceptOp → Outcome
  | .loadAccepting =>
      if rt.accepting then (rt, c, [.accept .loadActive])
      else (rt.add .rejectedConnections 1, c, [])
  | .loadActive =>
      (rt, c, [.accept (.casActive (rt.count .activeConnections))])
  | .casActive current =>
      match tryCas (current < cfg.maxConnections)
          (rt.count .activeConnections) current (ch = .spurious) with
      | .refused => (rt.add .rejectedConnections 1, c, [])
      | .won =>
          (rt.add .activeConnections 1, { c with acquired := true },
            [.accept .addAccepted, .accept .addActiveGauge, .accept .start,
              .accept .trackLoad])
      | .retry current => (rt, c, [.accept (.casActive current)])
  | .addAccepted => (rt.add .acceptedConnections 1, c, [])
  | .addActiveGauge => (rt.add .activeConnectionsGauge 1, c, [])
  | .start =>
      (rt.add .ioCommandBacklog 1,
        { c with mailbox := c.mailbox ++ [.start] }, [])
  | .trackLoad => (rt, c, [.accept (.trackPush (!rt.accepting))])
  | .trackPush stopping =>
      ({ rt with connections := rt.connections ++ [n] }, c,
        [.accept (.trackClose stopping)])
  | .trackClose stopping =>
      if stopping ∧ cfg.gracefulStopTimeout = 0 then
        (rt, { c with closeRequested := true },
          [.close (.requestClose (.record .serverStop))])
      else (rt, c, [])

-- == requests

def kServerStopping : String := "RPC server is stopping"
def kConnectionLimit : String :=
  "RPC connection max_in_flight limit reached"
def kInFlightLimit : String := "RPC server max_in_flight limit reached"
def kWorkerLimit : String := "RPC worker queue limit reached"

/-- `HandleRequest` of request `r`; then the loop goes on parsing. -/
def execHandle (cfg : ServerConfig) (ch : Choice) (rt : Runtime) (c : Conn)
    (r : Nat) : HandlePc → Outcome
  | .received =>
      (rt.add .requestsReceived 1, c, [.receive (.handle r .checkAccepting)])
  | .checkAccepting =>
      if rt.accepting then (rt, c, [.receive (.handle r .checkConnection)])
      else (rt, c, [.receive (.handle r (.reject kServerStopping))])
  | .checkConnection =>
      if c.inFlightCalls ≥ cfg.maxInFlightPerConnection then
        (rt, c, [.receive (.handle r (.reject kConnectionLimit))])
      else (rt, c, [.receive (.handle r .loadInFlight)])
  | .loadInFlight =>
      (rt, c, [.receive (.handle r (.casInFlight (rt.count .inFlight)))])
  | .casInFlight current =>
      match tryCas (current < cfg.maxInFlight) (rt.count .inFlight) current
          (ch = .spurious) with
      | .refused => (rt, c, [.receive (.handle r (.reject kInFlightLimit))])
      | .won =>
          (rt.add .inFlight 1, c, [.receive (.handle r .addInFlightGauge)])
      | .retry current => (rt, c, [.receive (.handle r (.casInFlight current))])
  | .addInFlightGauge =>
      (rt.add .activeInFlightGauge 1, c, [.receive (.handle r .loadTasks)])
  | .loadTasks =>
      (rt, c,
        [.receive (.handle r (.casTasks (rt.count .pendingWorkerTasks)))])
  | .casTasks current =>
      match tryCas (current < cfg.maxPendingWorkerTasks)
          (rt.count .pendingWorkerTasks) current (ch = .spurious) with
      | .refused =>
          (rt, c,
            [.receive (.handle r (.releaseInFlight (.reject kWorkerLimit)))])
      | .won =>
          (rt.add .pendingWorkerTasks 1, c,
            [.receive (.handle r .addTaskGauge)])
      | .retry current => (rt, c, [.receive (.handle r (.casTasks current))])
  | .addTaskGauge =>
      (rt.add .pendingWorkerTasksGauge 1, c,
        [.receive (.handle r .checkExecutor)])
  | .checkExecutor =>
      if cfg.executor then (rt, c, [.receive (.handle r .addCall)])
      else (rt, c, [.receive (.handle r .releaseTask)])
  | .addCall =>
      let c : Conn :=
        { c with
          inboundCalls := c.inboundCalls ++ [r]
          inFlightCalls := c.inFlightCalls + 1 }
      (rt.add .callsStarted 1,
        c.setCall r { c.calls r with admission := .admitted },
        [.receive (.handle r .schedule)])
  | .schedule =>
      (rt, c.setCall r { c.calls r with dispatch := .queued },
        [.receive .parse])
  | .releaseTask =>
      (rt.add .pendingWorkerTasks (-1), c,
        [.receive (.handle r .subTaskGauge)])
  | .subTaskGauge =>
      (rt.add .pendingWorkerTasksGauge (-1), c,
        [.receive (.handle r (.releaseInFlight .close))])
  | .releaseInFlight next =>
      (rt.add .inFlight (-1), c,
        [.receive (.handle r (.subInFlightGauge next))])
  | .subInFlightGauge (.reject text) =>
      (rt.add .activeInFlightGauge (-1), c,
        [.receive (.handle r (.reject text))])
  | .subInFlightGauge .close =>
      (rt.add .activeInFlightGauge (-1), { c with closeRequested := true },
        [.close (.requestClose (.record .internalError)), .receive .parse])
  | .reject text =>
      (rt.add .requestsRejectedOverload 1,
        c.setCall r { c.calls r with admission := .rejected },
        [.receive (.respond r (.sendError text))])

-- == replies

/-- `PackServerErrorResponse`. -/
def packServerErrorResponse (cfg : ServerConfig)
    (request : FrameParseResult) (errorCode : Int32) (errorText : String) :
    PackResult :=
  packRpcFrame cfg.codec
    { msgType := .response
      correlationId := request.rpcMeta.correlationId
      serviceName := request.rpcMeta.serviceName
      methodName := request.rpcMeta.methodName
      errorCode := errorCode
      errorText := errorText }
    [] none [] cfg.maxFrameBytes

/-- A connection that cannot reply asks for its close. -/
def giveUp (rt : Runtime) (c : Conn) : Outcome :=
  (rt, { c with closeRequested := true },
    [.close (.requestClose (.record .resourceLimit)), .receive .parse])

/-- `SendErrorResponseOnIoThread` and `EnqueueResponseOnIoThread` for
request `r`; then the loop goes on parsing. -/
def execRespond (cfg : ServerConfig) (ch : Choice) (rt : Runtime) (c : Conn)
    (r : Nat) : RespondOp → Outcome
  | .sendError text =>
      let packed :=
        packServerErrorResponse cfg (c.calls r).frame RPC_EOVERLOAD text
      if !packed.ok then giveUp rt c
      else if packed.out = [] then (rt, c, [.receive .parse])
      else
        (rt, c, [.receive (.respond r (.reserve packed.out .checkRunning))])
  | .reserve response pc =>
      match execReserve cfg.maxOutboundBytesPerConnection response.length
          (ch = .spurious) c pc with
      | .goto pc => (rt, c, [.receive (.respond r (.reserve response pc))])
      | .returned true =>
          (rt.add .outboundBytesGauge response.length,
            c.reserve response.length,
            [.receive (.respond r (.enqueue response))])
      | .returned false => giveUp rt c
  | .enqueue response =>
      if c.running then
        (rt.add .responsesEnqueued 1,
          { c with
            outbound := c.outbound ++ [response]
            pushed := c.pushed ++ [(r, response)] },
          [.write .startNextWrite, .receive .parse])
      else
        (rt, c, [.close (.release response.length), .receive .parse])

-- == receive

/-- `ReceiveLoop`. A read that could not have happened is not a step. -/
def execReceive (cfg : ServerConfig) (ch : Choice) (rt : Runtime)
    (c : Conn) : ReceiveOp → Option Outcome
  | .receiveLoop =>
      if c.running then some (rt, c, [.receive .parse])
      else some (rt, c, [.receive .receiveExit])
  | .parse =>
      match parseOnce cfg.codec cfg.maxFrameBytes .request c.recvBuffer with
      | .more => some (rt, c, [.receive .checkRunning])
      | .reject _ =>
          some (rt.add .protocolErrors 1, c,
            [.close (.recordReason .protocolError), .close .stopRunning,
              .receive .checkRunning])
      | .frame f n =>
          let c : Conn :=
            { c with
              recvBuffer := c.recvBuffer.drop n
              requests := c.requests + 1
              calls := Function.update c.calls c.requests { frame := f } }
          some (rt, c, [.receive (.handle (c.requests - 1) .received)])
  | .handle r pc => some (execHandle cfg ch rt c r pc)
  | .respond r op => some (execRespond cfg ch rt c r op)
  | .checkRunning =>
      if c.running then some (rt, c, [.receive .read])
      else some (rt, c, [.receive .receiveExit])
  | .read =>
      match ch with
      | .readNow result =>
          if result.Possible then
            some (rt, (c.receive result).logs .read,
              [.receive (.readResumed result)])
          else none
      | _ => some (rt, { c.logs .read with activeRead := true }, [])
  | .readResumed (.data chunk) =>
      some (rt, { c with recvBuffer := c.recvBuffer ++ chunk },
        [.receive .receiveLoop])
  | .readResumed .eof =>
      some (rt, c, [.close (.recordReason .peerEof), .receive .receiveExit])
  | .readResumed .error =>
      some (rt, c, [.close (.recordReason .readError), .receive .receiveExit])
  | .receiveExit =>
      some (rt, { c with running := false, receiverExited := true },
        [.close .discard, .close .tryFinish])

-- == writes

/-- `kMaxBatchBytes`. -/
def kMaxBatchBytes : Nat := 64 * 1024

/-- The batch loop of `StartNextWriteOnIoThread`: the buffer to write and
the queue that is left. -/
def mergeBatch : Bytes → List Bytes → Bytes × List Bytes
  | buffer, [] => (buffer, [])
  | buffer, next :: rest =>
      if buffer.length < kMaxBatchBytes then mergeBatch (buffer ++ next) rest
      else (buffer, next :: rest)

/-- `StartNextWriteOnIoThread` and `WriteFrame`. -/
def execWrite (ch : Choice) (rt : Runtime) (c : Conn) :
    WriteOp → Option Outcome
  | .startNextWrite =>
      if c.writing then some (rt, c, [])
      else
        match c.outbound with
        | [] => some (rt, c, [])
        | front :: rest =>
            if !c.running then some (rt, c, [])
            else
              let batch := mergeBatch front rest
              some (rt, { c with writing := true, outbound := batch.2 },
                [.write (.writeLoop batch.1)])
  | .writeLoop buffer =>
      if buffer ≠ [] ∧ c.running then
        some (rt, c, [.write (.write buffer)])
      else some (rt, c, [.write (.writeExit buffer)])
  | .write buffer =>
      match ch with
      | .writeNow written =>
          if written ≤ buffer.length then
            some (rt, (c.transmit buffer written).logs .write,
              [.write (.writeResumed buffer written)])
          else none
      | _ => some (rt, { c.logs .write with activeWrite := some buffer }, [])
  | .writeResumed buffer written =>
      if !c.running ∨ written ≤ 0 then
        some (rt.add .writeErrors 1, c,
          [.close (.recordReason .writeError), .close .stopRunning,
            .write (.writeExit buffer)])
      else
        some (if written < buffer.length then
            rt.add .partialWriteCompletions 1 else rt, c,
          [.write (.writeRelease buffer written.toNat)])
  | .writeRelease buffer written =>
      some (rt.add .outboundBytesGauge (-written), c.release written,
        [.write (.writeLoop (buffer.drop written))])
  | .writeExit buffer =>
      some (rt.add .outboundBytesGauge (-buffer.length),
        { c.release buffer.length with writing := false },
        [.write .startNextWrite, .close .tryFinish])

-- == close

/-- Commands, the close path and `ReleaseConnection` of connection `n`. -/
def execClose (n : Nat) (rt : Runtime) (c : Conn) : CloseOp → Option Outcome
  | .requestClose pc =>
      (execRequestClose rt c pc).map fun (rt, c, pc) =>
        (rt, c, if pc = .done then [] else [.close (.requestClose pc)])
  | .recordReason reason => some (rt, c.recordCloseReason reason, [])
  | .stopRunning => some (rt, { c with running := false }, [])
  | .release bytes =>
      some (rt.add .outboundBytesGauge (-bytes), c.release bytes, [])
  | .start =>
      let c : Conn := { c with startCommandHandled := true }
      if c.running then
        some (rt, { c with receiverStarted := true },
          [.receive .receiveLoop])
      else
        some (rt, { c with receiverExited := true }, [.close .tryFinish])
  | .complete r response closeAfter =>
      let c : Conn :=
        { c with
          inboundCalls := c.inboundCalls.filter (· ≠ r)
          inFlightCalls := c.inFlightCalls - 1 }
      if closeAfter then
        some (rt, c,
          [.close (.release response.length),
            .close (.recordReason .resourceLimit),
            .close .stopForCompletion])
      else if c.running ∧ response ≠ [] then
        some (rt.add .responsesEnqueued 1,
          { c with
            outbound := c.outbound ++ [response]
            pushed := c.pushed ++ [(r, response)] },
          [.write .startNextWrite, .close .tryFinish])
      else
        some (rt, c, [.close (.release response.length), .close .tryFinish])
  | .stopForCompletion =>
      some (rt, { c with running := false }, [.close .beginClose])
  | .beginClose =>
      some (rt, { c with closeCommandHandled := true },
        [.close .discard, .close .exitUnstarted])
  | .discard =>
      match c.outbound with
      | [] => some (rt, c, [])
      | front :: rest =>
          some (rt.add .outboundBytesGauge (-front.length),
            { c.release front.length with outbound := rest },
            [.close .discard])
  | .exitUnstarted =>
      some (rt,
        if c.receiverStarted then c else { c with receiverExited := true },
        [.close .tryFinish])
  | .tryFinish =>
      if c.running || !c.receiverExited || c.writing
          || !c.startCommandHandled then some (rt, c, [])
      else some (rt, c, [.close .checkPosted])
  | .checkPosted =>
      if c.closeCommandPosted && !c.closeCommandHandled then some (rt, c, [])
      else some (rt, c, [.close .closeFd])
  | .closeFd =>
      let c' : Conn := { c with fdOpen := false }
      some (rt,
        if c.fdOpen then c'.logs (.socketClosed c.receiving c.writingFrame)
        else c',
        [.close .exchangeReleased])
  | .exchangeReleased =>
      if c.inboundCalls ≠ [] ∨ c.released then some (rt, c, [])
      else
        let c' : Conn := { c with released := true }
        some (rt,
          c'.logs (.released c.running c.startCommandHandled
            c.inboundCalls.length),
          [.close .eraseConnection, .close .subActive,
            .close .subActiveGauge, .close .recordClose, .close .addClosed,
            .close .checkTimer])
  | .eraseConnection =>
      some ({ rt with connections := rt.connections.filter (· ≠ n) }, c, [])
  | .subActive => some (rt.add .activeConnections (-1), c, [])
  | .subActiveGauge => some (rt.add .activeConnectionsGauge (-1), c, [])
  | .recordClose =>
      some (rt.add (.closesByReason c.closeReason.counted) 1,
        { c with closedAs := some c.closeReason.counted }, [])
  | .addClosed => some (rt.add .closedConnections 1, c, [])
  | .checkTimer =>
      some (rt, c,
        if rt.count .activeConnections = 0 then [.close .cancelTimer] else [])
  | .cancelTimer =>
      -- a timer that has fired is no longer canceled
      some ({ rt with
          timerId := false
          timer :=
            if rt.timerId ∧ rt.timer = .armed then .canceled else rt.timer },
        c, [])

/-- One operation of the IO thread of connection `n`. -/
def execIo (cfg : ServerConfig) (n : Nat) (ch : Choice) (rt : Runtime)
    (c : Conn) : IoOp → Option Outcome
  | .accept op => some (execAccept cfg n ch rt c op)
  | .receive op => execReceive cfg ch rt c op
  | .write op => execWrite ch rt c op
  | .close op => execClose n rt c op

end AntRpc.Server
