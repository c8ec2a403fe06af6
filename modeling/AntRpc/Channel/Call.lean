/-
`RpcChannel::StartUnaryCall` (rpc/core/channel_core.hpp) with
`ResolveArmingFailure`, `SetInlineFailure`, and the driver's
`TryReserveOutboundBytes`, `ReleaseReservedOutboundBytes` and
`EnqueueReserved`, one atomic step at a time.

# Steps

As in the slot table, one step is one atomic access, one mutex section,
or one run of plain accesses. A call into the table is entered in one
step and its result is picked up in another; in between the table's own
steps run.

# Choices

What `AddTimer` answers is chosen by the environment; `none` is a channel
whose `timer_keeper_` is null. Running the continuation after
`kFailedInline` is the step of `CallMethod` (or of the resumed
coroutine) that follows the return.
-/
import AntRpc.Channel.State

namespace AntRpc.Channel

open Protocol Slot

-- == updates

namespace State

def setCaller (s : State) (k : Nat) (c : Caller) : State :=
  { s with callers := Function.update s.callers k c }

/-- Caller `k` goes on to `pc`. -/
def callerTo (s : State) (k : Nat) (pc : CallPc) : State :=
  s.setCaller k { s.callers k with pc := pc }

def setMetrics (s : State) (m : ClientMetrics) : State :=
  { s with slots := { s.slots with metrics := m } }

/-- `state_->metrics->outbound_bytes.Add(n)`. -/
def addOutboundGauge (s : State) (n : Int) : State :=
  s.setMetrics { s.slots.metrics with
    outboundBytes := s.slots.metrics.outboundBytes + n }

/-- The caller's controller, if it passed one. -/
def controller? (s : State) (c : CallInput) : Option Controller :=
  c.controller.map s.slots.heap.controllers

/-- Change the caller's controller, if it passed one. -/
def onController (s : State) (c : CallInput)
    (f : Controller → Controller) : State :=
  match c.controller with
  | none => s
  | some j =>
      { s with
        slots := { s.slots with
          heap := { s.slots.heap with
            controllers := Function.update s.slots.heap.controllers j
              (f (s.slots.heap.controllers j)) } } }

/-- Enter an operation of the slot table. -/
def invokeSlots (cfg : ChannelConfig) (t : Tid) (op : Op) (s : State) :
    Option State :=
  match s.slots.threads t with
  | .idle => some { s with slots := Slot.invoke cfg.table t op s.slots }
  | _ => none

/-- Pick up the result of an operation of the slot table. -/
def collectSlots (t : Tid) (s : State) : Option (Result × State) :=
  match s.slots.threads t with
  | .returned r => some (r, { s with slots := s.slots.setThread t .idle })
  | _ => none

end State

-- == the arguments

/-- The arguments of `AllocateSlot`. -/
def CallInput.args (input : CallInput) (k : Nat) : CallArgs where
  task := some k
  responseMsg := input.responseMsg
  controller := input.controller
  rawRespBody := input.rawRespBody
  executor := input.executor

/-- `controller && controller->TimeoutMs() > 0 ? .. : ..`. -/
def rpcTimeout (cfg : ChannelConfig) (ctl : Option Controller) : Int64 :=
  match ctl with
  | some ctl => if ctl.timeoutMs > 0 then ctl.timeoutMs
      else cfg.defaultRpcTimeout
  | none => cfg.defaultRpcTimeout

/-- The request's `RpcMeta`. -/
def requestMeta (c : Caller) (ctl : Option Controller) : RpcMeta :=
  let m : RpcMeta :=
    { msgType := .request
      correlationId := c.correlationId
      serviceName := c.input.serviceName
      methodName := c.input.methodName
      timeoutMs := c.timeoutMs }
  match ctl with
  | none => m
  | some ctl =>
      { m with
        logId := ctl.logId.toInt64
        headers := ctl.requestHeaders }

/-- The three calls of `PackRpcFrame`: the frame, if packing succeeds. -/
def packRequest (cfg : ChannelConfig) (c : Caller)
    (ctl : Option Controller) : Option Bytes :=
  match c.input.body with
  | none => none
  | some body =>
      let packed := packRpcFrame cfg.codec (requestMeta c ctl) body
        (ctl.map (·.requestAttachment)) [] cfg.maxFrameBytes
      if packed.ok then some packed.out else none

-- == the steps

/-- `TryReserveOutboundBytes` gives up. -/
def reserveFailed : CallPc :=
  .resolvePublish RPC_EOVERLOAD "RPC max_outbound_bytes limit reached"

/-- One step of `StartUnaryCall`. -/
def execCall (cfg : ChannelConfig) (k : Nat) (timer : Option UInt64) :
    CallPc → State → Option State
  | .copyDriver, s =>
      some (s.setCaller k
        { s.callers k with driver := s.driverRef, pc := .recordStart })
  | .recordStart, s =>
      some ((s.setMetrics { s.slots.metrics with
        callsStarted := s.slots.metrics.callsStarted + 1 }).callerTo k
          .checkCanceled)
  | .checkCanceled, s =>
      if (s.controller? (s.callers k).input).any Controller.isCanceled then
        some (s.callerTo k
          (.setFailed RPC_ECANCELED "RPC call canceled before send"))
      else some (s.callerTo k .checkRunning)
  | .checkRunning, s =>
      if !(s.callers k).driver || !s.running then
        some (s.callerTo k
          (.setFailed RPC_ECONN_FAILED "Connection closed"))
      else some (s.callerTo k .allocateSlot)
  | .allocateSlot, s =>
      (s.callerTo k .awaitAllocate).invokeSlots cfg (.caller k)
        (.allocateSlot ((s.callers k).input.args k) cfg.maxInFlight)
  | .awaitAllocate, s =>
      match s.collectSlots (.caller k) with
      | some (.allocated _ c, s) =>
          if c = 0 then
            some (s.callerTo k
              (.setFailed RPC_EOVERLOAD "RPC max_in_flight limit reached"))
          else
            some (s.setCaller k
              { s.callers k with
                correlationId := c
                pc := if (s.callers k).input.controller.isSome
                  then .setCorrelationId else .readTimeout })
      | _ => none
  | .setCorrelationId, s =>
      let c := (s.callers k).correlationId
      some ((s.onController (s.callers k).input
        ({ · with correlationId := c })).callerTo k .bindActiveSlot)
  | .bindActiveSlot, s =>
      match s.controller? (s.callers k).input with
      | none => some (s.callerTo k .readTimeout)
      | some ctl =>
          match ctl.bindActiveSlot (s.callers k).correlationId with
          | none =>
              some (s.callerTo k (.discardSlot RPC_EINTERNAL
                "RpcController is already bound to an active RPC"))
          | some (bound, cancelRequested) =>
              some ((s.onController (s.callers k).input
                fun _ => bound).callerTo k
                  (if cancelRequested then .cancelBound else .readTimeout))
  | .cancelBound, s =>
      (s.callerTo k .awaitCancelBound).invokeSlots cfg (.caller k)
        (.cancelSlot (s.callers k).correlationId "RPC call canceled")
  | .awaitCancelBound, s =>
      match s.collectSlots (.caller k) with
      | some (_, s) => some (s.callerTo k .readTimeout)
      | none => none
  | .readTimeout, s =>
      some (s.setCaller k
        { s.callers k with
          timeoutMs :=
            rpcTimeout cfg (s.controller? (s.callers k).input)
          pc := .addTimer })
  | .addTimer, s =>
      match timer with
      | none =>
          some (s.callerTo k (.resolvePublish RPC_EINTERNAL
            "RPC deadline timer is unavailable"))
      | some id =>
          some (s.setCaller k
            { s.callers k with deadlineTimerId := id, pc := .attachTimer })
  | .attachTimer, s =>
      (s.callerTo k .awaitAttach).invokeSlots cfg (.caller k)
        (.attachDeadlineTimer (s.callers k).correlationId
          (s.callers k).deadlineTimerId)
  | .awaitAttach, s =>
      match s.collectSlots (.caller k) with
      | some (.flag true, s) => some (s.callerTo k .packFrame)
      | some (_, s) => some (s.callerTo k .cancelTimer)
      | none => none
  | .cancelTimer, s =>
      -- the keeper drops the callback; the table never sees it
      some (s.callerTo k (.resolvePublish RPC_EINTERNAL
        "Failed to install RPC deadline timer"))
  | .packFrame, s =>
      match packRequest cfg (s.callers k)
          (s.controller? (s.callers k).input) with
      | some frame =>
          some (s.setCaller k
            { s.callers k with frame := frame, pc := .loadOutbound })
      | none =>
          some (s.callerTo k (.resolvePublish RPC_EINVALID_DATA
            "RPC request frame exceeds max_frame_bytes"))
  | .loadOutbound, s =>
      if (s.callers k).frame.length > cfg.maxOutboundBytes then
        some (s.callerTo k reserveFailed)
      else some (s.callerTo k (.casOutbound s.outboundBytes))
  | .casOutbound current, s =>
      let bytes := (s.callers k).frame.length
      if current ≤ cfg.maxOutboundBytes - bytes then
        if s.outboundBytes = current then
          let s' : State := { s with outboundBytes := current + bytes }
          some (s'.callerTo k .addGauge)
        else some (s.callerTo k (.casOutbound s.outboundBytes))
      else some (s.callerTo k reserveFailed)
  | .addGauge, s =>
      some ((s.addOutboundGauge (s.callers k).frame.length).callerTo k
        .publishSlot)
  | .publishSlot, s =>
      (s.callerTo k .awaitPublish).invokeSlots cfg (.caller k)
        (.publishSlot (s.callers k).correlationId)
  | .awaitPublish, s =>
      match s.collectSlots (.caller k) with
      | some (.published _ .invalid, s) =>
          some (s.callerTo k (.releaseBytes .discard))
      | some (.published _ .inFlight, s) =>
          some (s.callerTo k .enqueueReserved)
      | some (.published _ _, s) =>
          some (s.callerTo k (.releaseBytes .resolved))
      | _ => none
  | .releaseBytes next, s =>
      let s' : State :=
        { s with
          outboundBytes := s.outboundBytes - (s.callers k).frame.length }
      some (s'.callerTo k (.subGauge next))
  | .subGauge next, s =>
      some ((s.addOutboundGauge (-(s.callers k).frame.length)).callerTo k
        (match next with
          | .discard =>
              .discardSlot RPC_EINTERNAL "Failed to publish RPC slot"
          | .resolved => .leave .resolvedBySlot))
  | .enqueueReserved, s =>
      let s' : State :=
        { s with
          mailbox := s.mailbox ++ [.channelSendFrame
            (s.callers k).correlationId (s.callers k).frame] }
      some (s'.callerTo k (.leave .inFlight))
  | .resolvePublish code message, s =>
      (s.callerTo k (.awaitResolvePublish code message)).invokeSlots cfg
        (.caller k) (.publishSlot (s.callers k).correlationId)
  | .awaitResolvePublish code message, s =>
      match s.collectSlots (.caller k) with
      | some (.published _ .inFlight, s) =>
          some (s.callerTo k (.resolveFail code message))
      | some (.published _ _, s) =>
          some (s.callerTo k (.leave .resolvedBySlot))
      | _ => none
  | .resolveFail code message, s =>
      (s.callerTo k .awaitResolveFail).invokeSlots cfg (.caller k)
        (.failSlot (s.callers k).correlationId code message)
  | .awaitResolveFail, s =>
      match s.collectSlots (.caller k) with
      | some (_, s) => some (s.callerTo k (.leave .resolvedBySlot))
      | none => none
  | .discardSlot code message, s =>
      (s.callerTo k (.awaitDiscard code message)).invokeSlots cfg
        (.caller k) (.discardArmingSlot (s.callers k).correlationId)
  | .awaitDiscard code message, s =>
      match s.collectSlots (.caller k) with
      | some (_, s) => some (s.callerTo k (.setFailed code message))
      | none => none
  | .setFailed code message, s =>
      some ((s.onController (s.callers k).input
        (·.setFailed code message)).callerTo k (.takeNotify code))
  | .takeNotify code, s =>
      some ((s.onController (s.callers k).input
        (·.takeNotifyOnCompletion.1)).callerTo k (.recordCompletion code))
  | .recordCompletion code, s =>
      let s' := s.setMetrics (s.slots.metrics.recordCompletion code)
      some (s'.setCaller k
        { s'.callers k with
          completions := (s'.callers k).completions + 1
          pc := .leave .failedInline })
  | .leave outcome, s =>
      some (s.setCaller k
        { s.callers k with driver := false, pc := .returned outcome })
  | .returned .failedInline, s =>
      some (s.setCaller k
        { s.callers k with
          inlineRuns := (s.callers k).inlineRuns + 1
          pc := .ranInline })
  | .returned _, _ => none
  | .ranInline, _ => none

end AntRpc.Channel
