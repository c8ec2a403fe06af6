/-
The calls of a server connection off the IO thread
(rpc/server/server_connection.hpp): `ServerDispatchTask` with
`RunInboundCall`, `InboundDoneClosure::Run` and `FinalizeInboundCall`.

# Service code

A service is called once its request is parsed and does what it likes:
`done->Run()` may be called any number of times from any threads, and
what the service left in the controller and the response message is any
`ServiceOutcome` at the moment the response is packed.
-/
import AntRpc.Server.IoThread

namespace AntRpc.Server

open Protocol

/-- What the service left behind: the controller's error, headers and
attachment, and the serialized response message. -/
structure ServiceOutcome where
  errorCode : Int32 := 0
  errorText : String := ""
  headers : List (String × String) := []
  body : Option Bytes := some []
  attachment : Bytes := []

-- == dispatch task

/-- `response_meta` as `RunInboundCall` sets it up. -/
def initialResponseMeta (request : RpcMeta) : RpcMeta :=
  { msgType := .response
    correlationId := request.correlationId
    serviceName := request.serviceName
    methodName := request.methodName }

def Call.failWith (call : Call) (errorCode : Int32) (errorText : String) :
    Call :=
  { call with
    responseMeta :=
      { call.responseMeta with errorCode := errorCode, errorText := errorText }
    dispatch := .storeScheduled }

/-- One step of the dispatch task. -/
def execDispatch (cfg : ServerConfig) (rt : Runtime) (call : Call) :
    DispatchPc → Option (Runtime × Call)
  | .unscheduled => none
  | .queued =>
      some (rt.add .pendingWorkerTasks (-1),
        { call with dispatch := .subTaskGauge })
  | .subTaskGauge =>
      some (rt.add .pendingWorkerTasksGauge (-1),
        { call with dispatch := .lookup })
  | .lookup =>
      let request := call.frame.rpcMeta
      let call : Call :=
        { call with responseMeta := initialResponseMeta request }
      match cfg.registry.findMethod request.serviceName
          request.methodName with
      | .noService =>
          some (rt, call.failWith RPC_ENOSERVICE
            ("Service not found: " ++ request.serviceName))
      | .noMethod =>
          some (rt, call.failWith RPC_ENOMETHOD
            ("Method not found: " ++ request.methodName))
      | .found m =>
          some (rt,
            { call with method := some m, dispatch := .startMethod m })
  | .startMethod m =>
      some (rt.add (.methodStarted m) 1,
        { call with dispatch := .addMethodGauge m })
  | .addMethodGauge m =>
      some (rt.add (.methodActive m) 1,
        { call with dispatch := .parseRequest m })
  | .parseRequest m =>
      if call.frame.bodyIobuf ≠ []
          ∧ !cfg.registry.parses m call.frame.bodyIobuf then
        some (rt, call.failWith RPC_EINVALID_DATA
          "Failed to parse request protobuf")
      else some (rt, { call with dispatch := .invoke })
  | .invoke =>
      some (rt,
        { call with
          done := true
          executions := call.executions + 1
          dispatch := .returned })
  | .storeScheduled =>
      some (rt,
        { call with
          completion := .finalizationScheduled
          dispatch := .schedule })
  | .schedule =>
      some (rt,
        { call with
          finalizers := call.finalizers ++ [.queued]
          dispatch := .returned })
  | .returned => none

/-- `InboundDoneClosure::Run`: the first one schedules the finalization,
in a step of its own. -/
def Call.run (call : Call) : Call :=
  if call.completion = .pending then
    { call with
      completion := .finalizationScheduled
      finalizers := call.finalizers ++ [.scheduling] }
  else call

-- == finalization

/-- The response's meta, body and attachment. `done` is whether there is
a controller. -/
def Call.responseParts (call : Call) (outcome : ServiceOutcome) :
    RpcMeta × Option Bytes × Option Bytes :=
  if call.done then
    ({ call.responseMeta with
        errorCode := outcome.errorCode
        errorText := outcome.errorText
        headers :=
          if outcome.headers ≠ [] then outcome.headers
          else call.responseMeta.headers },
      outcome.body,
      if outcome.attachment ≠ [] then some outcome.attachment else none)
  else (call.responseMeta, some [], none)

/-- The wire response; `none` is a response that does not pack. -/
def Call.packResponse (cfg : ServerConfig) (call : Call)
    (outcome : ServiceOutcome) : Option Bytes :=
  let parts := call.responseParts outcome
  match parts.2.1 with
  | none => none
  | some body =>
      let packed :=
        packRpcFrame cfg.codec parts.1 body parts.2.2 [] cfg.maxFrameBytes
      if packed.ok then some packed.out else none

/-- A completion that failed, or closes the connection. -/
def Call.failed (call : Call) (payload : Payload) : Bool :=
  call.responseMeta.errorCode ≠ 0 || payload.closeAfter

/-- What a step of `FinalizeInboundCall` leaves: the runtime, the
connection, the call and the next program point. -/
abbrev Finalized := Runtime × Conn × Call × FinalizePc

/-- One step of a finalization of call `r`. `alive` is whether somebody
else still owns a connection that was released. -/
def execFinalize (cfg : ServerConfig) (ch : Choice)
    (outcome : ServiceOutcome) (alive : Bool) (rt : Runtime) (c : Conn)
    (r : Nat) (call : Call) : FinalizePc → Option Finalized
  | .scheduling => some (rt, c, call, .queued)
  | .queued =>
      let call' : Call :=
        { call with responseMeta := (call.responseParts outcome).1 }
      some (rt, c, call', .lock (call.packResponse cfg outcome))
  | .lock packed =>
      -- `connections_` owns a connection until it is released
      if c.released ∧ !alive then
        some (rt, c, call,
          .account ⟨false, packed.getD [], packed = none⟩)
      else
        match packed with
        | none => some (rt, c, call, .account ⟨true, [], true⟩)
        | some [] => some (rt, c, call, .account ⟨true, [], false⟩)
        | some response => some (rt, c, call, .loadRunning response)
  | .loadRunning response =>
      if c.running then some (rt, c, call, .reserve response .checkRunning)
      else some (rt, c, call, .account ⟨true, [], false⟩)
  | .reserve response pc =>
      match execReserve cfg.maxOutboundBytesPerConnection response.length
          (ch = .spurious) c pc with
      | .goto pc => some (rt, c, call, .reserve response pc)
      | .returned true =>
          some (rt.add .outboundBytesGauge response.length,
            c.reserve response.length, call,
            .account ⟨true, response, false⟩)
      | .returned false => some (rt, c, call, .account ⟨true, [], true⟩)
  | .account payload =>
      let rt := rt.add .callsCompleted 1
      some (if call.failed payload then rt.add .callErrors 1 else rt, c, call,
        if call.method = none then .storeFinalized payload
        else .accountMethod payload)
  | .accountMethod payload =>
      let m := call.method.getD 0
      let rt := rt.add (.methodCompleted m) 1
      some (if call.failed payload then rt.add (.methodErrors m) 1 else rt,
        c, call, .subMethodGauge payload)
  | .subMethodGauge payload =>
      some (rt.add (.methodActive (call.method.getD 0)) (-1), c, call,
        .storeFinalized payload)
  | .storeFinalized payload =>
      some (rt, c, { call with completion := .finalized }, .post payload)
  | .post payload =>
      if payload.connection then
        some (rt.add .ioCommandBacklog 1,
          { c with
            mailbox := c.mailbox ++
              [.completeInbound r payload.response payload.closeAfter] },
          call, .releaseInFlight)
      else some (rt, c, call, .releaseInFlight)
  | .releaseInFlight =>
      some (rt.add .inFlight (-1), c, call, .subInFlightGauge)
  | .subInFlightGauge =>
      some (rt.add .activeInFlightGauge (-1), c, call, .finished)
  | .finished => none

end AntRpc.Server
