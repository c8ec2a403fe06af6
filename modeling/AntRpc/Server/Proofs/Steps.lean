/-
The steps of a server connection, inverted: what each kind of action
needs and what it leaves (`ConnStep`), and the same for each operation of
the IO thread (`IoStep`). Invariants of a connection are proved by cases
on the two and carried along runs by `reach_invariant`.
-/
import AntRpc.Server.Machine

namespace AntRpc.Server

open Protocol Lib

variable {cfg : ServerConfig} {n : Nat} {ch : Choice} {rt rt' : Runtime}
  {c c' : Conn} {ops : List IoOp}

/-- A step of connection `n` and of the runtime. -/
inductive ConnStep (cfg : ServerConfig) (n : Nat) (rt : Runtime) (c : Conn) :
    ConnAction → Runtime → Conn → Prop
  | io {ch : Choice} {op : IoOp} {rest : List IoOp} {rt' : Runtime}
      {c' : Conn} {ops : List IoOp} (hio : c.io = op :: rest)
      (he : execIo cfg n ch rt { c with io := rest } op
        = some (rt', c', ops)) :
      ConnStep cfg n rt c (.io ch) rt' { c' with io := ops ++ rest }
  | dispatch {command : Command} {rest : List Command} (hio : c.io = [])
      (hmail : c.mailbox = command :: rest) :
      ConnStep cfg n rt c .dispatch (rt.add .ioCommandBacklog (-1))
        { c with mailbox := rest, io := [dispatchCommand command] }
  | readDone {result : ReadResult} (hio : c.io = [])
      (hactive : c.activeRead = true) (hpossible : result.Possible) :
      ConnStep cfg n rt c (.readDone result) rt
        { c with
          received := (c.receive result).received
          log := c.log ++ [.read]
          activeRead := false
          io := [.receive (.readResumed result)] }
  | writeDone {buffer : Bytes} {written : Int} (hio : c.io = [])
      (hactive : c.activeWrite = some buffer)
      (hpossible : written ≤ buffer.length) :
      ConnStep cfg n rt c (.writeDone written) rt
        { c with
          sent := c.sent ++ buffer.take written.toNat
          log := c.log ++ [.write]
          activeWrite := none
          io := [.write (.writeResumed buffer written)] }
  | task {r : Nat} {rt' : Runtime} {call : Call} (hr : r < c.requests)
      (hadmitted : (c.calls r).admission = .admitted)
      (he : execDispatch cfg rt (c.calls r) (c.calls r).dispatch
        = some (rt', call)) :
      ConnStep cfg n rt c (.task r) rt' (c.setCall r call)
  | run {r : Nat} (hr : r < c.requests) (hdone : (c.calls r).done = true) :
      ConnStep cfg n rt c (.run r) rt (c.setCall r (c.calls r).run)
  | finalize {r j : Nat} {ch : Choice} {outcome : ServiceOutcome}
      {alive : Bool} {pc : FinalizePc} {rt' : Runtime} {c' : Conn}
      {call : Call} {pc' : FinalizePc} (hr : r < c.requests)
      (hj : (c.calls r).finalizers[j]? = some pc)
      (he : execFinalize cfg ch outcome alive rt c r (c.calls r) pc
        = some (rt', c', call, pc')) :
      ConnStep cfg n rt c (.finalize r j ch outcome alive) rt' (c'.setCall r
        { call with finalizers := call.finalizers.set j pc' })
  | requestClose {reason : ConnectionCloseReason}
      (hacquired : c.acquired = true) :
      ConnStep cfg n rt c (.requestClose reason) rt
        { c with
          closeRequested := true
          closers := c.closers ++ [.record reason] }
  | closer {k : Nat} {pc : ClosePc} {rt' : Runtime} {c' : Conn}
      {pc' : ClosePc} (hk : c.closers[k]? = some pc)
      (he : execRequestClose rt c pc = some (rt', c', pc')) :
      ConnStep cfg n rt c (.closer k) rt'
        { c' with closers := c'.closers.set k pc' }

theorem connStep_cases {a : ConnAction}
    (hs : connStep cfg n rt c a = some (rt', c')) :
    ConnStep cfg n rt c a rt' c' := by
  cases a with
  | io ch =>
      simp only [connStep] at hs
      split at hs
      · cases hs
      · next op rest hio =>
        simp only [Option.map_eq_some_iff] at hs
        obtain ⟨⟨rt₁, c₁, ops⟩, he, heq⟩ := hs
        cases heq
        exact .io hio he
  | dispatch =>
      simp only [connStep] at hs
      split at hs
      · next command rest hio hmail =>
        cases hs
        exact .dispatch hio hmail
      · cases hs
  | readDone result =>
      simp only [connStep] at hs
      split at hs
      · next hguard =>
        cases hs
        have hstep : ConnStep cfg n rt c (.readDone result) rt _ :=
          .readDone hguard.1 hguard.2.1 hguard.2.2
        cases result <;> exact hstep
      · cases hs
  | writeDone written =>
      simp only [connStep] at hs
      split at hs
      · next buffer hio hactive =>
        split at hs
        · next hpossible =>
          cases hs
          exact .writeDone hio hactive hpossible
        · cases hs
      · cases hs
  | task r =>
      simp only [connStep] at hs
      split at hs
      · next hguard =>
        simp only [Option.map_eq_some_iff] at hs
        obtain ⟨⟨rt₁, call⟩, he, heq⟩ := hs
        cases heq
        exact .task hguard.1 hguard.2 he
      · cases hs
  | run r =>
      simp only [connStep] at hs
      split at hs
      · next hguard =>
        cases hs
        exact .run hguard.1 hguard.2
      · cases hs
  | finalize r j ch outcome alive =>
      simp only [connStep] at hs
      split at hs
      · next hr =>
        split at hs
        · cases hs
        · next pc hj =>
          simp only [Option.map_eq_some_iff] at hs
          obtain ⟨⟨rt₁, c₁, call, pc'⟩, he, heq⟩ := hs
          cases heq
          exact .finalize hr hj he
      · cases hs
  | requestClose reason =>
      simp only [connStep] at hs
      split at hs
      · next hacquired =>
        cases hs
        exact .requestClose hacquired
      · cases hs
  | closer k =>
      simp only [connStep] at hs
      split at hs
      · cases hs
      · next pc hk =>
        simp only [Option.map_eq_some_iff] at hs
        obtain ⟨⟨rt₁, c₁, pc'⟩, he, heq⟩ := hs
        cases heq
        exact .closer hk he

/-- What holds of a new connection and is kept by the steps that meet a
condition holds of every connection whose steps met it. -/
theorem reach_invariant {I : Conn → Prop}
    {ok : Conn → Runtime × ConnAction → Prop}
    (hstart : I { io := [.accept .loadAccepting] })
    (hstep : ∀ rt c a rt' c', (connMachine cfg n).Reachable c → I c →
      ok c (rt, a) → ConnStep cfg n rt c a rt' c' → I c')
    (h : (connMachine cfg n).Reach ok c) : I c := by
  refine Machine.Reach.invariant (fun c hc => ?_)
    (fun c c' a hr hi hok hs => ?_) h
  · rw [show c = _ from hc]
    exact hstart
  · simp only [connMachine, Option.map_eq_some_iff] at hs
    obtain ⟨⟨rt', c₁⟩, hs, rfl⟩ := hs
    exact hstep _ _ _ _ _ (hr.weaken fun _ _ _ => trivial) hi hok
      (connStep_cases hs)

-- == operations

/-- What an operation of the IO thread leaves: the connection and the
operations it puts in front. -/
inductive IoStep (cfg : ServerConfig) (c : Conn) :
    IoOp → Conn → List IoOp → Prop
  -- accept
  | refuse : IoStep cfg c (.accept .loadAccepting) c []
  | accept : IoStep cfg c (.accept .loadAccepting) c [.accept .loadActive]
  | loadActive {current : Int} :
      IoStep cfg c (.accept .loadActive) c [.accept (.casActive current)]
  | refuseActive {current : Int} :
      IoStep cfg c (.accept (.casActive current)) c []
  | retryActive {current current' : Int} :
      IoStep cfg c (.accept (.casActive current)) c
        [.accept (.casActive current')]
  | acquire {current : Int} :
      IoStep cfg c (.accept (.casActive current)) { c with acquired := true }
        [.accept .addAccepted, .accept .addActiveGauge, .accept .start,
          .accept .trackLoad]
  | addAccepted : IoStep cfg c (.accept .addAccepted) c []
  | addActiveGauge : IoStep cfg c (.accept .addActiveGauge) c []
  | postStart :
      IoStep cfg c (.accept .start)
        { c with mailbox := c.mailbox ++ [.start] } []
  | trackLoad {stopping : Bool} :
      IoStep cfg c (.accept .trackLoad) c [.accept (.trackPush stopping)]
  | trackPush {stopping : Bool} :
      IoStep cfg c (.accept (.trackPush stopping)) c
        [.accept (.trackClose stopping)]
  | track {stopping : Bool} : IoStep cfg c (.accept (.trackClose stopping)) c []
  | trackClose {stopping : Bool} :
      IoStep cfg c (.accept (.trackClose stopping))
        { c with closeRequested := true }
        [.close (.requestClose (.record .serverStop))]
  -- requests
  | handling {r : Nat} {pc pc' : HandlePc} (hpc : pc ≠ .schedule)
      (hpc' : pc' ≠ .schedule) :
      IoStep cfg c (.receive (.handle r pc)) c [.receive (.handle r pc')]
  | addCall {r : Nat} :
      IoStep cfg c (.receive (.handle r .addCall))
        { c with
          inboundCalls := c.inboundCalls ++ [r]
          inFlightCalls := c.inFlightCalls + 1
          calls := Function.update c.calls r
            { c.calls r with admission := .admitted } }
        [.receive (.handle r .schedule)]
  | schedule {r : Nat} :
      IoStep cfg c (.receive (.handle r .schedule))
        (c.setCall r { c.calls r with dispatch := .queued })
        [.receive .parse]
  | closeHandled {r : Nat} :
      IoStep cfg c (.receive (.handle r (.subInFlightGauge .close)))
        { c with closeRequested := true }
        [.close (.requestClose (.record .internalError)), .receive .parse]
  | reject {r : Nat} {text : String} :
      IoStep cfg c (.receive (.handle r (.reject text)))
        (c.setCall r { c.calls r with admission := .rejected })
        [.receive (.respond r (.sendError text))]
  -- replies
  | giveUp {r : Nat} {op : RespondOp} (hop : ∀ b, op ≠ .enqueue b) :
      IoStep cfg c (.receive (.respond r op)) { c with closeRequested := true }
        [.close (.requestClose (.record .resourceLimit)), .receive .parse]
  | sendNothing {r : Nat} {text : String} :
      IoStep cfg c (.receive (.respond r (.sendError text))) c
        [.receive .parse]
  | sendError {r : Nat} {text : String}
      (hok : (packServerErrorResponse cfg (c.calls r).frame RPC_EOVERLOAD
        text).ok = true) :
      IoStep cfg c (.receive (.respond r (.sendError text))) c
        [.receive (.respond r (.reserve (packServerErrorResponse cfg
          (c.calls r).frame RPC_EOVERLOAD text).out .checkRunning))]
  | reserving {r : Nat} {response : Bytes} {pc pc' : ReservePc}
      {spurious : Bool}
      (hgo : execReserve cfg.maxOutboundBytesPerConnection response.length
        spurious c pc = .goto pc') :
      IoStep cfg c (.receive (.respond r (.reserve response pc))) c
        [.receive (.respond r (.reserve response pc'))]
  | reserve {r : Nat} {response : Bytes} {pc : ReservePc} {spurious : Bool}
      (hret : execReserve cfg.maxOutboundBytesPerConnection response.length
        spurious c pc = .returned true) :
      IoStep cfg c (.receive (.respond r (.reserve response pc)))
        (c.reserve response.length)
        [.receive (.respond r (.enqueue response))]
  | enqueue {r : Nat} {response : Bytes} (hrunning : c.running = true) :
      IoStep cfg c (.receive (.respond r (.enqueue response)))
        { c with
          outbound := c.outbound ++ [response]
          pushed := c.pushed ++ [(r, response)] }
        [.write .startNextWrite, .receive .parse]
  | dropReply {r : Nat} {response : Bytes} :
      IoStep cfg c (.receive (.respond r (.enqueue response))) c
        [.close (.release response.length), .receive .parse]
  -- receive
  | receiveLoop (hrunning : c.running = true) :
      IoStep cfg c (.receive .receiveLoop) c [.receive .parse]
  | leaveLoop : IoStep cfg c (.receive .receiveLoop) c [.receive .receiveExit]
  | more (hmore : parseOnce cfg.codec cfg.maxFrameBytes .request c.recvBuffer
        = .more) :
      IoStep cfg c (.receive .parse) c [.receive .checkRunning]
  | protocolError :
      IoStep cfg c (.receive .parse) c
        [.close (.recordReason .protocolError), .close .stopRunning,
          .receive .checkRunning]
  | frame {f : FrameParseResult} {len : Nat}
      (hparse : parseOnce cfg.codec cfg.maxFrameBytes .request c.recvBuffer
        = .frame f len) :
      IoStep cfg c (.receive .parse)
        { c with
          recvBuffer := c.recvBuffer.drop len
          requests := c.requests + 1
          calls := Function.update c.calls c.requests { frame := f } }
        [.receive (.handle c.requests .received)]
  | checkRunning : IoStep cfg c (.receive .checkRunning) c [.receive .read]
  | leaveCheck :
      IoStep cfg c (.receive .checkRunning) c [.receive .receiveExit]
  | read {result : ReadResult} :
      IoStep cfg c (.receive .read)
        { c with
          received := (c.receive result).received
          log := c.log ++ [.read] }
        [.receive (.readResumed result)]
  | suspendRead :
      IoStep cfg c (.receive .read)
        { c with log := c.log ++ [.read], activeRead := true } []
  | append {chunk : Bytes} :
      IoStep cfg c (.receive (.readResumed (.data chunk)))
        { c with recvBuffer := c.recvBuffer ++ chunk }
        [.receive .receiveLoop]
  | readEnds {result : ReadResult} {reason : ConnectionCloseReason}
      (hnone : ∀ chunk, result ≠ .data chunk) :
      IoStep cfg c (.receive (.readResumed result)) c
        [.close (.recordReason reason), .receive .receiveExit]
  | receiveExit :
      IoStep cfg c (.receive .receiveExit)
        { c with running := false, receiverExited := true }
        [.close .discard, .close .tryFinish]
  -- writes
  | startNone : IoStep cfg c (.write .startNextWrite) c []
  | startNextWrite {front : Bytes} {rest : List Bytes}
      (hidle : c.writing = false) (hrunning : c.running = true)
      (hout : c.outbound = front :: rest) :
      IoStep cfg c (.write .startNextWrite)
        { c with writing := true, outbound := (mergeBatch front rest).2 }
        [.write (.writeLoop (mergeBatch front rest).1)]
  | writeLoop {buffer : Bytes} :
      IoStep cfg c (.write (.writeLoop buffer)) c [.write (.write buffer)]
  | leaveWrite {buffer : Bytes} :
      IoStep cfg c (.write (.writeLoop buffer)) c [.write (.writeExit buffer)]
  | write {buffer : Bytes} {written : Int}
      (hpossible : written ≤ buffer.length) :
      IoStep cfg c (.write (.write buffer))
        ((c.transmit buffer written).logs .write)
        [.write (.writeResumed buffer written)]
  | suspendWrite {buffer : Bytes} :
      IoStep cfg c (.write (.write buffer))
        { c.logs .write with activeWrite := some buffer } []
  | writeError {buffer : Bytes} {written : Int} :
      IoStep cfg c (.write (.writeResumed buffer written)) c
        [.close (.recordReason .writeError), .close .stopRunning,
          .write (.writeExit buffer)]
  | writeResumed {buffer : Bytes} {written : Int} :
      IoStep cfg c (.write (.writeResumed buffer written)) c
        [.write (.writeRelease buffer written.toNat)]
  | writeRelease {buffer : Bytes} {written : Nat} :
      IoStep cfg c (.write (.writeRelease buffer written)) (c.release written)
        [.write (.writeLoop (buffer.drop written))]
  | writeExit {buffer : Bytes} :
      IoStep cfg c (.write (.writeExit buffer))
        { c.release buffer.length with writing := false }
        [.write .startNextWrite, .close .tryFinish]
  -- close
  | requestClose {rt rt' : Runtime} {c' : Conn} {pc pc' : ClosePc}
      (he : execRequestClose rt c pc = some (rt', c', pc')) :
      IoStep cfg c (.close (.requestClose pc)) c'
        (if pc' = .done then [] else [.close (.requestClose pc')])
  | recordReason {reason : ConnectionCloseReason} :
      IoStep cfg c (.close (.recordReason reason))
        (c.recordCloseReason reason) []
  | stopRunning :
      IoStep cfg c (.close .stopRunning) { c with running := false } []
  | release {bytes : Nat} :
      IoStep cfg c (.close (.release bytes)) (c.release bytes) []
  | start (hrunning : c.running = true) :
      IoStep cfg c (.close .start)
        { c with startCommandHandled := true, receiverStarted := true }
        [.receive .receiveLoop]
  | startStopped (hstopped : c.running = false) :
      IoStep cfg c (.close .start)
        { c with startCommandHandled := true, receiverExited := true }
        [.close .tryFinish]
  | completeClosing {r : Nat} {response : Bytes} {closeAfter : Bool} :
      IoStep cfg c (.close (.complete r response closeAfter))
        { c with
          inboundCalls := c.inboundCalls.filter (· ≠ r)
          inFlightCalls := c.inFlightCalls - 1 }
        [.close (.release response.length),
          .close (.recordReason .resourceLimit), .close .stopForCompletion]
  | complete {r : Nat} {response : Bytes} {closeAfter : Bool}
      (hrunning : c.running = true) (hresponse : response ≠ []) :
      IoStep cfg c (.close (.complete r response closeAfter))
        { c with
          inboundCalls := c.inboundCalls.filter (· ≠ r)
          inFlightCalls := c.inFlightCalls - 1
          outbound := c.outbound ++ [response]
          pushed := c.pushed ++ [(r, response)] }
        [.write .startNextWrite, .close .tryFinish]
  | completeNothing {r : Nat} {response : Bytes} {closeAfter : Bool} :
      IoStep cfg c (.close (.complete r response closeAfter))
        { c with
          inboundCalls := c.inboundCalls.filter (· ≠ r)
          inFlightCalls := c.inFlightCalls - 1 }
        [.close (.release response.length), .close .tryFinish]
  | stopForCompletion :
      IoStep cfg c (.close .stopForCompletion) { c with running := false }
        [.close .beginClose]
  | beginClose :
      IoStep cfg c (.close .beginClose) { c with closeCommandHandled := true }
        [.close .discard, .close .exitUnstarted]
  | discardNone (hout : c.outbound = []) :
      IoStep cfg c (.close .discard) c []
  | discard {front : Bytes} {rest : List Bytes}
      (hout : c.outbound = front :: rest) :
      IoStep cfg c (.close .discard)
        { c.release front.length with outbound := rest } [.close .discard]
  | exitStarted :
      IoStep cfg c (.close .exitUnstarted) c [.close .tryFinish]
  | exitUnstarted (hstarted : c.receiverStarted = false) :
      IoStep cfg c (.close .exitUnstarted) { c with receiverExited := true }
        [.close .tryFinish]
  | tryFinishNot : IoStep cfg c (.close .tryFinish) c []
  | tryFinish (hstopped : c.running = false)
      (hexited : c.receiverExited = true) (hidle : c.writing = false)
      (hstart : c.startCommandHandled = true) :
      IoStep cfg c (.close .tryFinish) c [.close .checkPosted]
  | posted : IoStep cfg c (.close .checkPosted) c []
  | checkPosted : IoStep cfg c (.close .checkPosted) c [.close .closeFd]
  | closeFd (hopen : c.fdOpen = true) :
      IoStep cfg c (.close .closeFd)
        { c with
          fdOpen := false
          log := c.log ++ [.socketClosed c.receiving c.writingFrame] }
        [.close .exchangeReleased]
  | closeClosed (hopen : c.fdOpen = false) :
      IoStep cfg c (.close .closeFd) { c with fdOpen := false }
        [.close .exchangeReleased]
  | releasedNot : IoStep cfg c (.close .exchangeReleased) c []
  | exchangeReleased (hcalls : c.inboundCalls = [])
      (hfirst : c.released = false) :
      IoStep cfg c (.close .exchangeReleased)
        { c with
          released := true
          log := c.log
            ++ [.released c.running c.startCommandHandled c.inboundCalls.length] }
        [.close .eraseConnection, .close .subActive, .close .subActiveGauge,
          .close .recordClose, .close .addClosed, .close .checkTimer]
  | eraseConnection : IoStep cfg c (.close .eraseConnection) c []
  | subActive : IoStep cfg c (.close .subActive) c []
  | subActiveGauge : IoStep cfg c (.close .subActiveGauge) c []
  | recordClose :
      IoStep cfg c (.close .recordClose)
        { c with closedAs := some c.closeReason.counted } []
  | addClosed : IoStep cfg c (.close .addClosed) c []
  | checkTimer : IoStep cfg c (.close .checkTimer) c []
  | lastTimer : IoStep cfg c (.close .checkTimer) c [.close .cancelTimer]
  | cancelTimer : IoStep cfg c (.close .cancelTimer) c []

theorem execAccept_step {op : AcceptOp}
    (he : execAccept cfg n ch rt c op = (rt', c', ops)) :
    IoStep cfg c (.accept op) c' ops := by
  cases op with
  | loadAccepting | casActive _ | trackClose _ =>
      simp only [execAccept] at he
      split at he <;> cases he <;> constructor
  | _ =>
      cases he
      constructor

theorem execHandle_step {r : Nat} {pc : HandlePc}
    (he : execHandle cfg ch rt c r pc = (rt', c', ops)) :
    IoStep cfg c (.receive (.handle r pc)) c' ops := by
  cases pc with
  | checkAccepting | checkConnection | casInFlight _ | casTasks _
  | checkExecutor =>
      simp only [execHandle] at he
      split at he <;> cases he <;> exact .handling nofun nofun
  | subInFlightGauge next =>
      cases next <;> cases he
      · exact .handling nofun nofun
      · exact .closeHandled
  | addCall => cases he; exact .addCall
  | schedule => cases he; exact .schedule
  | reject text => cases he; exact .reject
  | _ =>
      cases he
      exact .handling nofun nofun

theorem execRespond_step {r : Nat} {op : RespondOp}
    (he : execRespond cfg ch rt c r op = (rt', c', ops)) :
    IoStep cfg c (.receive (.respond r op)) c' ops := by
  cases op with
  | sendError text =>
      simp only [execRespond] at he
      split at he
      · cases he
        exact .giveUp nofun
      · next hok =>
        split at he <;> cases he
        · exact .sendNothing
        · exact .sendError (by simpa using hok)
  | reserve response pc =>
      simp only [execRespond] at he
      split at he <;> cases he
      · next hgo => exact .reserving hgo
      · next hret => exact .reserve hret
      · exact .giveUp nofun
  | enqueue response =>
      simp only [execRespond] at he
      split at he <;> cases he
      · next hrunning => exact .enqueue hrunning
      · exact .dropReply

theorem execReceive_step {op : ReceiveOp}
    (he : execReceive cfg ch rt c op = some (rt', c', ops)) :
    IoStep cfg c (.receive op) c' ops := by
  cases op with
  | handle r pc => exact execHandle_step (Option.some.inj he)
  | respond r op => exact execRespond_step (Option.some.inj he)
  | receiveLoop =>
      simp only [execReceive] at he
      split at he <;> cases he
      · next hrunning => exact .receiveLoop hrunning
      · exact .leaveLoop
  | parse =>
      simp only [execReceive] at he
      split at he <;> cases he
      · next hmore => exact .more hmore
      · exact .protocolError
      · next hparse => exact .frame hparse
  | checkRunning =>
      simp only [execReceive] at he
      split at he <;> cases he
      · exact .checkRunning
      · exact .leaveCheck
  | read =>
      simp only [execReceive] at he
      split at he
      · split at he <;> cases he
        next result _ =>
        have hread : IoStep cfg c (.receive .read) _
            [.receive (.readResumed result)] := .read
        cases result <;> exact hread
      · cases he
        exact .suspendRead
  | readResumed result =>
      cases result <;> cases he
      · exact .append
      · exact .readEnds nofun
      · exact .readEnds nofun
  | receiveExit =>
      cases he
      exact .receiveExit

theorem execWrite_step {op : WriteOp}
    (he : execWrite ch rt c op = some (rt', c', ops)) :
    IoStep cfg c (.write op) c' ops := by
  cases op with
  | startNextWrite =>
      simp only [execWrite] at he
      split at he
      · cases he
        exact .startNone
      · next hidle =>
        split at he
        · cases he
          exact .startNone
        · next hout =>
          split at he <;> cases he
          · exact .startNone
          · next hrunning =>
            exact .startNextWrite (Bool.eq_false_iff.2 hidle)
              (by simpa using hrunning) hout
  | writeLoop buffer =>
      simp only [execWrite] at he
      split at he <;> cases he
      · exact .writeLoop
      · exact .leaveWrite
  | write buffer =>
      simp only [execWrite] at he
      split at he
      · split at he <;> cases he
        next hpossible => exact .write hpossible
      · cases he
        exact .suspendWrite
  | writeResumed buffer written =>
      simp only [execWrite] at he
      split at he <;> cases he
      · exact .writeError
      · exact .writeResumed
  | writeRelease _ _ => cases he; exact .writeRelease
  | writeExit _ => cases he; exact .writeExit

theorem execClose_step {op : CloseOp}
    (he : execClose n rt c op = some (rt', c', ops)) :
    IoStep cfg c (.close op) c' ops := by
  cases op with
  | requestClose pc =>
      simp only [execClose, Option.map_eq_some_iff] at he
      obtain ⟨⟨rt₁, c₁, pc'⟩, hstep, heq⟩ := he
      cases heq
      exact .requestClose hstep
  | start =>
      simp only [execClose] at he
      split at he <;> cases he
      · next hrunning => exact .start hrunning
      · next hrunning => exact .startStopped (Bool.eq_false_iff.2 hrunning)
  | complete r response closeAfter =>
      simp only [execClose] at he
      split at he
      · cases he
        exact .completeClosing
      · split at he <;> cases he
        · next hguard => exact .complete hguard.1 hguard.2
        · exact .completeNothing
  | discard =>
      simp only [execClose] at he
      split at he <;> cases he
      · next hout => exact .discardNone hout
      · next hout => exact .discard hout
  | exitUnstarted =>
      simp only [execClose] at he
      cases he
      split
      · exact .exitStarted
      · next hstarted => exact .exitUnstarted (Bool.eq_false_iff.2 hstarted)
  | tryFinish =>
      simp only [execClose] at he
      split at he <;> cases he
      · exact .tryFinishNot
      · next htests =>
        simp only [Bool.or_eq_true, Bool.not_eq_true', not_or,
          Bool.not_eq_true, Bool.not_eq_false] at htests
        obtain ⟨⟨⟨hrun, hexited⟩, hidle⟩, hstart⟩ := htests
        exact .tryFinish hrun hexited hidle hstart
  | checkPosted =>
      simp only [execClose] at he
      split at he <;> cases he
      · exact .posted
      · exact .checkPosted
  | closeFd =>
      simp only [execClose] at he
      cases he
      split
      · next hopen => exact .closeFd hopen
      · next hopen => exact .closeClosed (Bool.eq_false_iff.2 hopen)
  | exchangeReleased =>
      simp only [execClose] at he
      split at he <;> cases he
      · exact .releasedNot
      · next hguard =>
        rw [not_or, not_not] at hguard
        exact .exchangeReleased hguard.1 (Bool.eq_false_iff.2 hguard.2)
  | checkTimer =>
      simp only [execClose] at he
      cases he
      split
      · exact .lastTimer
      · exact .checkTimer
  | _ =>
      cases he
      constructor

theorem execIo_step {op : IoOp}
    (he : execIo cfg n ch rt c op = some (rt', c', ops)) :
    IoStep cfg c op c' ops := by
  cases op with
  | accept op => exact execAccept_step (Option.some.inj he)
  | receive op => exact execReceive_step he
  | write op => exact execWrite_step he
  | close op => exact execClose_step he

-- == frames

/-- What a step of `FinalizeInboundCall` does to the connection. -/
theorem execFinalize_frame {outcome : ServiceOutcome} {alive : Bool}
    {r : Nat} {call call' : Call} {pc pc' : FinalizePc}
    (he : execFinalize cfg ch outcome alive rt c r call pc
      = some (rt', c', call', pc')) :
    c' = { c with
        reservedOutboundBytes := c'.reservedOutboundBytes
        mailbox := c'.mailbox }
      ∧ (c'.mailbox = c.mailbox ∨ ∃ response closeAfter,
        c'.mailbox
          = c.mailbox ++ [.completeInbound r response closeAfter]) := by
  cases pc with
  | lock packed =>
      simp only [execFinalize] at he
      split at he
      · cases he
        exact ⟨rfl, .inl rfl⟩
      · split at he <;> cases he <;> exact ⟨rfl, .inl rfl⟩
  | loadRunning _ | reserve _ _ =>
      simp only [execFinalize] at he
      split at he <;> cases he <;> exact ⟨rfl, .inl rfl⟩
  | post payload =>
      simp only [execFinalize] at he
      split at he <;> cases he
      · exact ⟨rfl, .inr ⟨_, _, rfl⟩⟩
      · exact ⟨rfl, .inl rfl⟩
  | scheduling | queued | account _ | accountMethod _ | subMethodGauge _
  | storeFinalized _ | releaseInFlight | subInFlightGauge =>
      cases he
      exact ⟨rfl, .inl rfl⟩
  | finished => cases he

/-- What a step of `RequestClose` changes. -/
theorem execRequestClose_frame {pc pc' : ClosePc}
    (he : execRequestClose rt c pc = some (rt', c', pc')) :
    c' = { c with
        closeReason := c'.closeReason
        running := c'.running
        closeCommandPosted := c'.closeCommandPosted
        mailbox := c'.mailbox }
      ∧ (c'.running = true → c.running = true)
      ∧ (c'.mailbox = c.mailbox ∨ c'.mailbox = c.mailbox ++ [.close]) := by
  cases pc with
  | record reason => cases he; exact ⟨rfl, id, .inl rfl⟩
  | exchangeRunning => cases he; exact ⟨rfl, nofun, .inl rfl⟩
  | storePosted => cases he; exact ⟨rfl, id, .inl rfl⟩
  | post => cases he; exact ⟨rfl, id, .inr rfl⟩
  | done => cases he

end AntRpc.Server
