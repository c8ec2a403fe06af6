/-
The connection as an interleaving machine: callers, closers, `Init`, the
IO thread and the resolvers, each one atomic step at a time.

# Closers

`WaitClosed` returns when the connection is closed, at once on the IO
thread, and after two seconds in any case. Time is not modelled, so the
last may happen at any moment; it marks the connection closed as the
source does. Closer 0 is the `Close` inside a failing `Init`.

# Resolvers

A resolver calls `CompleteResponseSlot`, `TimeoutSlot`, `CancelSlot` or
`FailSlot` with any arguments at any time; `FailAllActiveSlots` is called
by `HandleTerminalFailureOnIoThread` only. The
users of the channel do with their own objects what they like between
steps (`user`), `StartCancel` setting its flag among it.
-/
import AntRpc.Channel.Driver

namespace AntRpc.Channel

open Protocol Slot Lib

/-- How `WaitClosed` ends. -/
inductive CloseWait where
  | closed
  | timedOut
  | onIoThread
deriving DecidableEq

/-- What happens next. -/
inductive Action where
  | call (input : CallInput)
  | caller (k : Nat) (timer : Option UInt64)
  | spurious (k : Nat)
  | init (timedOut : Bool)
  | close (n : Nat)
  | closer (n : Nat) (wait : CloseWait)
  | dispatch
  | io (choice : IoChoice)
  | connectDone (result : Int)
  | timeoutFired
  | readDone (result : ReadResult)
  | writeDone (written : Int)
  | slots (a : Slot.Action Tid)
  | user (heap : Heap)

-- == closers

def State.setCloser (s : State) (n : Nat) (c : Closer) : State :=
  { s with closers := Function.update s.closers n c }

def State.closerTo (s : State) (n : Nat) (pc : ClosePc) : State :=
  s.setCloser n { s.closers n with pc := pc }

/-- One step of `RpcChannel::Close`. -/
def execCloser (n : Nat) (wait : CloseWait) : ClosePc → State → Option State
  | .idle, _ => none
  | .copyDriver, s =>
      some (s.setCloser n
        { driver := s.driverRef
          pc := if s.driverRef then .exchangeRunning else .resetDriver })
  | .exchangeRunning, s =>
      let s' : State := { s with running := false }
      some (s'.closerTo n (if s.running then .storePosted else .waitClosed))
  | .storePosted, s =>
      let s' : State := { s with closeCommandPosted := true }
      some (s'.closerTo n .postClose)
  | .postClose, s =>
      let s' : State := { s with mailbox := s.mailbox ++ [.channelClose] }
      some (s'.closerTo n .waitClosed)
  | .waitClosed, s =>
      match wait with
      | .onIoThread => some (s.closerTo n .resetDriver)
      | .closed => if s.closed then some (s.closerTo n .resetDriver) else none
      | .timedOut =>
          let s' : State := { s with fdOpen := false, closed := true }
          some (s'.closerTo n .resetDriver)
  | .resetDriver, s =>
      let s' : State :=
        { s with
          driverRef := if (s.closers n).driver then false else s.driverRef }
      some (s'.closerTo n .leave)
  | .leave, s => some (s.setCloser n { pc := .done })
  | .done, _ => none

/-- One step of `Init` after it published the driver. -/
def execInit (timedOut : Bool) : InitPc → State → Option State
  | .postStart, s =>
      some { s with
        mailbox := s.mailbox ++ [.channelStart]
        init := .waitConnect }
  | .waitConnect, s =>
      let s : State :=
        if timedOut ∧ !s.connectFinished then
          { s with connectResult := -ETIMEDOUT, connectFinished := true }
        else s
      if !s.connectFinished then none
      else if s.connectResult = 0 then some { s with init := .done }
      else
        let s : State := { s with init := .closing }
        some (s.closerTo 0 .copyDriver)
  | .closing, s =>
      if (s.closers 0).pc = .done then some { s with init := .done } else none
  | .done, _ => none

-- == machine

/-- The operations a resolver may call. -/
def resolves : Op → Bool
  | .completeResponseSlot _ _ | .timeoutSlot _ _ | .cancelSlot _ _
  | .failSlot _ _ _ => true
  | .failAllActiveSlots _ _ | .allocateSlot _ _ | .publishSlot _
  | .discardArmingSlot _ | .attachDeadlineTimer _ _ => false

/-- The slot table's actions that are nobody else's step: the steps
inside an operation, and what resolvers do. -/
def slotsMayTake : Slot.Action Tid → Bool
  | .step _ | .spurious _ | .pick _ _ => true
  | .invoke (.resolver _) op => resolves op
  | .collect (.resolver _) => true
  | .invoke _ _ | .collect _ | .client _ _ => false

/-- What an action does, if it is enabled. -/
def apply (cfg : ChannelConfig) : Action → State → Option State
  | .call input, s =>
      let s' : State := { s with started := s.started + 1 }
      some (s'.setCaller s.started { input := input })
  | .caller k timer, s =>
      if k < s.started then execCall cfg k timer (s.callers k).pc s else none
  | .spurious k, s =>
      match (s.callers k).pc with
      | .casOutbound current =>
          if k < s.started
              ∧ current ≤ cfg.maxOutboundBytes - (s.callers k).frame.length
          then some (s.callerTo k (.casOutbound s.outboundBytes)) else none
      | _ => none
  | .init timedOut, s => execInit timedOut s.init s
  | .close n, s =>
      if n ≠ 0 ∧ (s.closers n).pc = .idle then
        some (s.closerTo n .copyDriver)
      else none
  | .closer n wait, s => execCloser n wait (s.closers n).pc s
  | .dispatch, s =>
      match s.io, s.mailbox with
      | [], command :: rest =>
          let s : State := { s with mailbox := rest }
          some (s.push (dispatchCommand command))
      | _, _ => none
  | .io choice, s =>
      match s.io with
      | [] => none
      | op :: rest => execIo cfg choice op { s with io := rest }
  | .connectDone result, s =>
      if s.io = [] ∧ s.activeConnect then
        some (s.push [.connect (.connectCompleted result)])
      else none
  | .timeoutFired, s =>
      if s.io = [] ∧ s.connectTimer = .alive then
        some (s.push [.connect .timeoutCompleted])
      else none
  | .readDone result, s =>
      match s.io, s.activeRead with
      | [], some recvBuffer =>
          if result.Possible then
            let s : State := { s with activeRead := none }
            some ((s.receive result).push
              [.receive (.readResumed recvBuffer result)])
          else none
      | _, _ => none
  | .writeDone written, s =>
      match s.io, s.activeWrite with
      | [], some frame =>
          if frame.CanWrite written then
            let s : State := { s with activeWrite := none }
            some ((s.transmit frame written).push
              [.write (.writeResumed frame written)])
          else none
      | _, _ => none
  | .slots a, s =>
      if slotsMayTake a then
        (Slot.apply cfg.table a s.slots).map fun slots =>
          { s with slots := slots }
      else none
  | .user heap, s => some { s with slots := { s.slots with heap := heap } }

/-- A connection right after `Init` published it. -/
def Start (cfg : ChannelConfig) (s : State) : Prop :=
  ∃ slots, Slot.Start cfg.table slots ∧ s = { slots := slots }

def machine (cfg : ChannelConfig) : Machine State Action where
  start := Start cfg
  apply := apply cfg

end AntRpc.Channel
