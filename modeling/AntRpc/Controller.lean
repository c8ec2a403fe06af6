/-
The objects a client call leaves its mark on: the controller
(rpc/controller.hpp) and the channel's metrics
(rpc/core/client_metrics.hpp), with the error codes
(rpc/error_code.hpp).

Each method that is one mutex section or one run of plain stores of the
source is one function here; a machine that calls it makes it one step.
Latency is a clock reading and nothing below branches on it, so it is
left out, as are the endpoints.
-/
import AntRpc.Protocol.Basic

namespace AntRpc

open Protocol

-- == error codes

def RPC_SUCCESS : Int32 := 0
def RPC_ENOSERVICE : Int32 := 1001
def RPC_ENOMETHOD : Int32 := 1002
def RPC_EINVALID_DATA : Int32 := 1003
def RPC_ETIMEOUT : Int32 := 1004
def RPC_ECANCELED : Int32 := 1005
def RPC_EINTERNAL : Int32 := 1006
def RPC_EOVERLOAD : Int32 := 1007
def RPC_ECONN_FAILED : Int32 := 1008

-- == controller

/-- `RpcController`, the parts a call reads or writes. The bound slot's
`weak_ptr` target is the one channel state modelled, so only the
correlation id is kept. -/
structure Controller where
  failed : Bool := false
  errorCode : Int32 := RPC_SUCCESS
  errorText : String := ""
  correlationId : UInt64 := 0
  logId : UInt64 := 0
  timeoutMs : Int64 := -1
  requestHeaders : List (String × String) := []
  responseHeaders : List (String × String) := []
  requestAttachment : Bytes := []
  responseAttachment : Bytes := []
  cancelRequested : Bool := false
  activeSlot : Option UInt64 := none
  notifyOnCancel : Option Nat := none
  rpcCompleted : Bool := false
deriving DecidableEq

namespace Controller

/-- `SetFailed(error_code, reason)`. -/
def setFailed (ctl : Controller) (code : Int32) (reason : String) :
    Controller :=
  { ctl with failed := true, errorCode := code, errorText := reason }

/-- `IsCanceled()`. -/
def isCanceled (ctl : Controller) : Bool :=
  ctl.cancelRequested || (ctl.failed && ctl.errorCode == RPC_ECANCELED)

/-- The mutex section of `BindActiveSlot`: refuse a second binding, else
bind and report whether a cancellation is already requested. -/
def bindActiveSlot (ctl : Controller) (c : UInt64) :
    Option (Controller × Bool) :=
  if ctl.activeSlot.isSome then none
  else some ({ ctl with activeSlot := some c }, ctl.cancelRequested)

/-- `ClearActiveSlot`. -/
def clearActiveSlot (ctl : Controller) (c : UInt64) : Controller :=
  if ctl.activeSlot = some c then { ctl with activeSlot := none } else ctl

/-- `TakeNotifyOnCompletion`: the controller after it and the closure
taken. -/
def takeNotifyOnCompletion (ctl : Controller) : Controller × Option Nat :=
  ({ ctl with rpcCompleted := true, notifyOnCancel := none },
    ctl.notifyOnCancel)

end Controller

-- == metrics

/-- `ClientMetrics`. -/
structure ClientMetrics where
  callsStarted : Nat := 0
  callsCompleted : Nat := 0
  callsSucceeded : Nat := 0
  callErrors : Nat := 0
  callsTimedOut : Nat := 0
  callsCanceled : Nat := 0
  activeInFlight : Int := 0
  outboundBytes : Int := 0
deriving DecidableEq

/-- `RecordCompletion`. -/
def ClientMetrics.recordCompletion (m : ClientMetrics) (code : Int32) :
    ClientMetrics :=
  let m := { m with callsCompleted := m.callsCompleted + 1 }
  if code = RPC_SUCCESS then
    { m with callsSucceeded := m.callsSucceeded + 1 }
  else
    let m := { m with callErrors := m.callErrors + 1 }
    if code = RPC_ETIMEOUT then
      { m with callsTimedOut := m.callsTimedOut + 1 }
    else if code = RPC_ECANCELED then
      { m with callsCanceled := m.callsCanceled + 1 }
    else m

end AntRpc
