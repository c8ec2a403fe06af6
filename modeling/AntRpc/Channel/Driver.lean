/-
The IO thread of a connection (rpc/io_driver/): `DispatchCommand`,
`StartOnIoThread` and the connect coroutines, `ReceiveLoop`,
`SendFrameOnIoThread`, `StartNextWriteOnIoThread`, `WriteFrame`,
`HandleTerminalFailureOnIoThread` and the close path.

# Choices

The kernel and the reactor decide whether a socket operation is done at
once or suspends its coroutine (`IoChoice`), and whether cancelling a
suspended one resumes it inline, as the epoll reactor does, or lets the
completion come later, as io_uring does. A suspended operation completes
when the IO thread has nothing else to do (Channel/Machine.lean).

# The connect race

`when_any` resumes `ConnectOnIoThread` with the first of the connect
operation and its timeout. The frame of the loser stays, and with it the
shared state of the race, which holds the `self` of the connect
operation; so that reference lives until both have ended.

# Clearing the queue

`FailAndClearOutboundOnIoThread` walks `outbound_` and clears it at the
end. Nothing else reads the queue meanwhile, so here each frame leaves it
when its turn comes.
-/
import AntRpc.Protocol.Receive
import AntRpc.Channel.Call

namespace AntRpc.Channel

open Protocol Slot Lib

def ECANCELED : Int := 125
def ETIMEDOUT : Int := 110

/-- `kMaxBatchBytes`. -/
def kMaxBatchBytes : Nat := 64 * 1024

/-- What the environment decides about a step of the IO thread. -/
inductive IoChoice where
  | suspend
  | connectNow (result : Int)
  | timeoutNow
  | readNow (result : ReadResult)
  | writeNow (written : Int)
  | cancelNow
deriving DecidableEq

-- == updates

namespace State

/-- Call a function: its operations come first. -/
def push (s : State) (ops : List IoOp) : State :=
  { s with io := ops ++ s.io }

/-- The bytes a completed `recv` took from the socket. -/
def receive (s : State) : ReadResult → State
  | .data chunk => { s with received := s.received ++ chunk }
  | .eof | .error => s

/-- The bytes a completed `writev` gave to the socket. -/
def transmit (s : State) (frame : OutboundFrame) (written : Int) : State :=
  { s with sent := s.sent ++ frame.buffer.take written.toNat }

end State

/-- A `recv` returns at least one byte or says why not. -/
def ReadResult.Possible : ReadResult → Prop
  | .data chunk => chunk ≠ []
  | .eof | .error => True

instance : DecidablePred ReadResult.Possible := fun r =>
  match r with
  | .data _ => inferInstanceAs (Decidable (_ ≠ _))
  | .eof | .error => inferInstanceAs (Decidable True)

/-- A `writev` writes at most what it was given. -/
def OutboundFrame.CanWrite (f : OutboundFrame) (written : Int) : Prop :=
  written ≤ f.buffer.length

instance (f : OutboundFrame) (n : Int) : Decidable (f.CanWrite n) :=
  inferInstanceAs (Decidable (_ ≤ _))

-- == functions

/-- `HandleTerminalFailureOnIoThread`. -/
def handleTerminalFailure (code : Int32) (message : String) : List IoOp :=
  [.failure .exchangeRunning, .failure .cancelConnect,
    .failure .cancelRead, .failure .cancelWrite, .failure .shutdownSocket,
    .failure (.failAll code message), .failure .awaitFailAll,
    .failure (.clearOutbound code message), .close .tryFinishClose]

/-- `ReleaseReservedOutboundBytes`. -/
def releaseReserved (n : Nat) : List IoOp :=
  [.failure (.releaseBytes n), .failure (.subGauge n)]

/-- The body of the command a mailbox entry stands for. -/
def dispatchCommand : IoCommand → List IoOp
  | .channelStart => [.connect .start]
  | .channelSendFrame c payload => [.write (.sendFrame c payload)]
  | .channelClose =>
      handleTerminalFailure RPC_ECONN_FAILED "Connection closed"
        ++ [.close .setCloseHandled, .close .tryFinishClose]

/-- The batch loop of `StartNextWriteOnIoThread`: the frame to write and
the queue that is left. -/
def mergeBatch : OutboundFrame → List OutboundFrame →
    OutboundFrame × List OutboundFrame
  | f, [] => (f, [])
  | f, g :: rest =>
      if f.buffer.length < kMaxBatchBytes then
        mergeBatch { f with buffer := f.buffer ++ g.buffer } rest
      else (f, g :: rest)

/-- `Complete` of the `when_any` race: the first one resumes the parent,
unless the race is still being started. -/
def completeRace (result : Int) (s : State) : State :=
  match s.connectWinner with
  | some _ => s
  | none =>
      let s : State := { s with connectWinner := some result }
      if s.connectStarting then s else s.push [.connect (.connected result)]

-- == operations

/-- The connect coroutines. -/
def execConnect (ch : IoChoice) (s : State) : ConnectOp → State
  | .start =>
      if !s.running then
        s.push [.connect (.finishConnect (-ECANCELED)),
          .close .setReceiverExited, .close .tryFinishClose]
      else
        let s : State :=
          { s with
            connectStarted := true
            connectTask := .alive
            connectStarting := true }
        s.push [.connect .openConnect, .connect .armTimeout,
          .connect .joinConnect]
  | .finishConnect result =>
      if !s.connectFinished then
        { s with connectResult := result, connectFinished := true }
      else s
  | .openConnect =>
      let s : State := { s with activeConnect := true, connectOp := .alive }
      match ch with
      | .connectNow result => s.push [.connect (.connectCompleted result)]
      | _ => s
  | .connectCompleted result =>
      let s : State :=
        { s with activeConnect := false, connectOperationExited := true }
      s.push [.close .tryFinishClose, .connect (.completeFirst result)]
  | .completeFirst result =>
      completeRace result { s with connectOp := .gone }
  | .armTimeout =>
      let s : State := { s with connectTimer := .alive }
      match ch with
      | .timeoutNow => s.push [.connect .timeoutCompleted]
      | _ => s
  | .timeoutCompleted =>
      completeRace (-ETIMEDOUT) { s with connectTimer := .gone }
  | .joinConnect =>
      let s : State := { s with connectStarting := false }
      match s.connectWinner with
      | some result => s.push [.connect (.connected result)]
      | none => s
  | .connected result =>
      if result ≠ 0 ∨ !s.running then
        s.push (handleTerminalFailure RPC_ECONN_FAILED
            "Failed to connect RPC channel"
          ++ [.connect (.finishConnect
              (if result = 0 then -ECANCELED else result)),
            .close .setReceiverExited, .close .tryFinishClose,
            .connect .endConnect])
      else
        s.push [.connect (.finishConnect 0), .connect .startReceiver,
          .connect .endConnect]
  | .startReceiver =>
      let s : State :=
        { s with receiverStarted := true, receiver := .alive }
      s.push [.receive (.receiveLoop [])]
  | .endConnect => { s with connectTask := .gone }

/-- `ReceiveLoop`. A read that could not have happened is not a step. -/
def execReceive (cfg : ChannelConfig) (ch : IoChoice) (s : State) :
    ReceiveOp → Option State
  | .receiveLoop recvBuffer =>
      if s.running then
        match ch with
        | .readNow result =>
            if result.Possible then
              some ((s.receive result).push
                [.receive (.readResumed recvBuffer result)])
            else none
        | _ => some { s with activeRead := some recvBuffer }
      else
        some (s.push [.close .setReceiverExited, .receive .receiveExit,
          .receive .endReceive])
  | .readResumed recvBuffer (.data chunk) =>
      some (s.push [.receive (.parseFrames (recvBuffer ++ chunk))])
  | .readResumed _ result =>
      let s : State := { s with receiverExited := true }
      if s.running then
        some (s.push (handleTerminalFailure RPC_ECONN_FAILED
            (if result = .eof then "RPC peer closed connection"
              else "Failed to read RPC response")
          ++ [.receive .endReceive]))
      else some (s.push [.close .tryFinishClose, .receive .endReceive])
  | .parseFrames recvBuffer =>
      match parseOnce cfg.codec cfg.maxFrameBytes .response recvBuffer with
      | .more => some (s.push [.receive (.receiveLoop recvBuffer)])
      | .reject (.invalidFrame _) =>
          let s : State := { s with receiverExited := true }
          some (s.push (handleTerminalFailure RPC_ECONN_FAILED
            "Invalid RPC response frame" ++ [.receive .endReceive]))
      | .reject (.unexpectedType _) =>
          let s : State := { s with receiverExited := true }
          some (s.push (handleTerminalFailure RPC_ECONN_FAILED
            "Received a non-response RPC frame on client channel"
              ++ [.receive .endReceive]))
      | .frame f n =>
          some (s.push [.receive (.completeResponse f.rpcMeta.correlationId
              ⟨f.rpcMeta, f.bodyIobuf, f.attachmentIobuf⟩),
            .failure .awaitSlots,
            .receive (.parseFrames (recvBuffer.drop n))])
  | .completeResponse c response =>
      s.invokeSlots cfg .io (.completeResponseSlot c response)
  | .receiveExit =>
      if s.running then
        some (s.push (handleTerminalFailure RPC_ECONN_FAILED
          "Connection closed while receiving response"))
      else some (s.push [.close .tryFinishClose])
  | .endReceive => some { s with receiver := .gone }

/-- `SendFrameOnIoThread`, `StartNextWriteOnIoThread`, `WriteFrame`. -/
def execWrite (ch : IoChoice) (s : State) : WriteOp → Option State
  | .sendFrame c buffer =>
      if !s.running then
        some (s.push (releaseReserved buffer.length
          ++ [.failure (.failSlot c RPC_ECONN_FAILED "Connection closed"),
            .failure .awaitSlots]))
      else
        let s : State :=
          { s with
            outbound := s.outbound ++ [⟨c, buffer⟩]
            enqueued := s.enqueued ++ buffer }
        some (s.push [.write .startNextWrite])
  | .startNextWrite =>
      if s.writing || !s.running then some s
      else
        match s.outbound with
        | [] => some s
        | front :: rest =>
            let batch := mergeBatch front rest
            let s : State :=
              { s with
                writing := true
                writers := s.writers + 1
                outbound := batch.2 }
            some (s.push [.write (.writeLoop batch.1)])
  | .writeLoop frame =>
      if frame.buffer ≠ [] ∧ s.running then
        match ch with
        | .writeNow written =>
            if frame.CanWrite written then
              some ((s.transmit frame written).push
                [.write (.writeResumed frame written)])
            else none
        | _ => some { s with activeWrite := some frame }
      else some (s.push [.write .writeExit])
  | .writeResumed frame written =>
      if !s.running then some (s.push [.write .writeExit])
      else if written ≤ 0 then
        some (s.push (handleTerminalFailure RPC_ECONN_FAILED
          "Failed to write RPC request" ++ [.write .writeExit]))
      else
        some (s.push (releaseReserved written.toNat
          ++ [.write (.writeLoop
            { frame with buffer := frame.buffer.drop written.toNat })]))
  | .writeExit =>
      let s : State := { s with writing := false }
      some (s.push [.write .startNextWrite, .close .tryFinishClose,
        .write .endWrite])
  | .endWrite => some { s with writers := s.writers - 1 }

/-- `ReleaseReservedOutboundBytes`, `HandleTerminalFailureOnIoThread`,
`FailAndClearOutboundOnIoThread`. -/
def execFailure (cfg : ChannelConfig) (ch : IoChoice) (s : State) :
    FailureOp → Option State
  | .releaseBytes n => some { s with outboundBytes := s.outboundBytes - n }
  | .subGauge n => some (s.addOutboundGauge (-n))
  | .exchangeRunning => some { s with running := false }
  | .cancelConnect =>
      if s.activeConnect ∧ ch = .cancelNow then
        some (s.push [.connect (.connectCompleted (-ECANCELED))])
      else some s
  | .cancelRead =>
      match s.activeRead with
      | none => some s
      | some recvBuffer =>
          if ch = .cancelNow then
            let s : State := { s with activeRead := none }
            some (s.push [.receive (.readResumed recvBuffer .error)])
          else some s
  | .cancelWrite =>
      match s.activeWrite with
      | none => some s
      | some frame =>
          if ch = .cancelNow then
            let s : State := { s with activeWrite := none }
            some (s.push [.write (.writeResumed frame (-ECANCELED))])
          else some s
  | .shutdownSocket =>
      if !s.receiverStarted then some { s with receiverExited := true }
      else some s
  | .failAll code message =>
      s.invokeSlots cfg .io (.failAllActiveSlots code message)
  | .awaitFailAll =>
      (s.collectSlots .io).map fun r => { r.2 with failedAll := true }
  | .clearOutbound code message =>
      match s.outbound with
      | [] => some s
      | frame :: rest =>
          let s : State := { s with outbound := rest }
          some (s.push (releaseReserved frame.buffer.length
            ++ [.failure (.failSlot frame.correlationId code message),
              .failure .awaitSlots,
              .failure (.clearOutbound code message)]))
  | .failSlot c code message =>
      s.invokeSlots cfg .io (.failSlot c code message)
  | .awaitSlots => (s.collectSlots .io).map (·.2)

/-- The flags of the close path, and `TryFinishCloseOnIoThread`. -/
def execClose (s : State) : CloseOp → State
  | .setReceiverExited => { s with receiverExited := true }
  | .setCloseHandled => { s with closeCommandHandled := true }
  | .tryFinishClose =>
      if s.running || !s.receiverExited || s.writing
          || (s.connectStarted && !s.connectOperationExited) then s
      else s.push [.close .checkCloseCommand]
  | .checkCloseCommand =>
      if s.closeCommandPosted && !s.closeCommandHandled then s
      else s.push [.close .closeFd, .close .setClosed]
  | .closeFd => { s with fdOpen := false }
  | .setClosed => { s with closed := true, finished := true }

/-- One operation of the IO thread. -/
def execIo (cfg : ChannelConfig) (ch : IoChoice) (op : IoOp) (s : State) :
    Option State :=
  match op with
  | .connect op => some (execConnect ch s op)
  | .receive op => execReceive cfg ch s op
  | .write op => execWrite ch s op
  | .failure op => execFailure cfg ch s op
  | .close op => some (execClose s op)

end AntRpc.Channel
