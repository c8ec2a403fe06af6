/-
`NotifyOnCancel` and `StartCancel` of one controller (rpc/controller.hpp)
during one RPC, beside the slot table that completes it.

# Threads

Any number of threads call `NotifyOnCancel` and `StartCancel`; each goes
step by step, a mutex section being one step. `StartCancel` resolves the
active slot as a thread of the table. The other threads of the table are
the channel's: they do in it what they like, but only one of them, once,
allocates a cell for a call on this controller.

# Callbacks

The callback of the `n`-th `NotifyOnCancel` is number `n` (a null callback
returns at once and is left out). It is handed from place to place until
somebody runs it: the controller, a `StartCancel`, the winner of the cell,
the `NotifyThenContinueTask` it schedules.

# The controller

Its owner may write the controller between the steps (`BindActiveSlot`,
`SetFailed`), except for what only `StartCancel`, `NotifyOnCancel` and the
completion write; `Reset` is not called while the call is active.

# History

`first` is the callback whose registration took effect, `registeredLate`
whether the continuation had started by then, `runs` the runs of callbacks
in their order, with whether the continuation had started.
-/
import AntRpc.Lib.Machine
import AntRpc.Slot.Table

namespace AntRpc.Notify

open Lib Slot

/-- The threads of the table. -/
inductive Tid where
  | channel (n : Nat)
  | canceler (n : Nat)
deriving DecidableEq

-- == program points

/-- Where a `NotifyOnCancel` stands. -/
inductive RegisterPc where
  | idle
  | register
  | runNow
  | returned
deriving DecidableEq, Repr

/-- Where a `StartCancel` stands. -/
inductive CancelPc where
  | idle
  | storeRequested
  | copyActiveSlot
  | takeNotify (slot : Option UInt64)
  | requestCancel (slot : Option UInt64) (notify : Option Nat)
  | awaitCancel (notify : Option Nat)
  | runNotify (notify : Option Nat)
  | returned
deriving DecidableEq, Repr

/-- The callback a `StartCancel` has taken. -/
def CancelPc.notify : CancelPc → Option Nat
  | .requestCancel _ notify | .awaitCancel notify | .runNotify notify =>
      notify
  | _ => none

/-- Where a scheduled task stands. -/
inductive TaskPc where
  | queued
  | notified
  | continued
deriving DecidableEq, Repr

/-- Who runs a callback. -/
inductive Runner where
  | registrar
  | canceler
  | worker
deriving DecidableEq, Repr

/-- A run of a callback (history). -/
structure Run where
  callback : Nat
  runner : Runner
  late : Bool
deriving DecidableEq, Repr

-- == state

/-- The whole machine, for one controller. -/
structure State where
  slots : Slot.State Tid
  called : Bool := false
  notifyRegistered : Bool := false
  registrations : Nat := 0
  registrars : Nat → RegisterPc := fun _ => .idle
  cancels : Nat := 0
  cancelers : Nat → CancelPc := fun _ => .idle
  tasks : Nat → TaskPc := fun _ => .queued
  first : Option Nat := none
  registeredLate : Bool := false
  runs : List Run := []

inductive Action where
  | slots (a : Slot.Action Tid)
  | notifyOnCancel
  | registrar (n : Nat)
  | startCancel
  | canceler (n : Nat) (alive : Bool)
  | task (i : Nat)

namespace State

/-- The continuation of the call on controller `j` has started. -/
def continued (j : Nat) (x : State) : Bool :=
  (List.range x.slots.scheduled.length).any fun i =>
    x.tasks i = .continued && x.slots.scheduled[i]?.any (x.slots.mine j)

def registrarTo (x : State) (n : Nat) (pc : RegisterPc) : State :=
  { x with registrars := Function.update x.registrars n pc }

def cancelerTo (x : State) (n : Nat) (pc : CancelPc) : State :=
  { x with cancelers := Function.update x.cancelers n pc }

def taskTo (x : State) (i : Nat) (pc : TaskPc) : State :=
  { x with tasks := Function.update x.tasks i pc }

/-- Change the controller. -/
def onController (x : State) (j : Nat) (f : Controller → Controller) :
    State :=
  { x with
    slots := { x.slots with
      heap := { x.slots.heap with
        controllers := Function.update x.slots.heap.controllers j
          (f (x.slots.heap.controllers j)) } } }

/-- `callback->Run()`. -/
def run (j : Nat) (x : State) (runner : Runner) (callback : Nat) : State :=
  { x with runs := x.runs ++ [⟨callback, runner, x.continued j⟩] }

end State

-- == steps

/-- One step of `NotifyOnCancel(callback n)`. -/
def execRegistrar (j n : Nat) : RegisterPc → State → Option State
  | .idle, _ | .returned, _ => none
  | .register, x =>
      if x.notifyRegistered then some (x.registrarTo n .runNow)
      else
        let ctl := x.slots.heap.controllers j
        let x : State :=
          { x with
            notifyRegistered := true
            first := some n
            registeredLate := x.continued j }
        if ctl.cancelRequested || ctl.rpcCompleted then
          some (x.registrarTo n .runNow)
        else
          some ((x.onController j
            ({ · with notifyOnCancel := some n })).registrarTo n .returned)
  | .runNow, x => some ((x.run j .registrar n).registrarTo n .returned)

/-- One step of `StartCancel`. `alive` is whether the channel is still
there for `RequestCancel`. -/
def execCanceler (cfg : TableConfig) (j n : Nat) (alive : Bool) :
    CancelPc → State → Option State
  | .idle, _ | .returned, _ => none
  | .storeRequested, x =>
      some ((x.onController j
        ({ · with cancelRequested := true })).cancelerTo n .copyActiveSlot)
  | .copyActiveSlot, x =>
      some (x.cancelerTo n
        (.takeNotify (x.slots.heap.controllers j).activeSlot))
  | .takeNotify slot, x =>
      let notify := (x.slots.heap.controllers j).notifyOnCancel
      some ((x.onController j
        ({ · with notifyOnCancel := none })).cancelerTo n
          (.requestCancel slot notify))
  | .requestCancel slot notify, x =>
      match slot, alive with
      | some c, true =>
          match x.slots.threads (.canceler n) with
          | .idle =>
              let x : State :=
                { x with
                  slots := Slot.invoke cfg (.canceler n)
                    (.cancelSlot c "RPC call canceled") x.slots }
              some (x.cancelerTo n (.awaitCancel notify))
          | _ => none
      | _, _ => some (x.cancelerTo n (.runNotify notify))
  | .awaitCancel notify, x =>
      match x.slots.threads (.canceler n) with
      | .returned _ =>
          let x : State :=
            { x with slots := x.slots.setThread (.canceler n) .idle }
          some (x.cancelerTo n (.runNotify notify))
      | _ => none
  | .runNotify notify, x =>
      match notify with
      | some callback =>
          some ((x.run j .canceler callback).cancelerTo n .returned)
      | none => some (x.cancelerTo n .returned)

/-- A worker goes on with the `i`-th scheduled task: the callback, if it
is a `NotifyThenContinueTask`, then the continuation. -/
def execTask (j i : Nat) (x : State) : Option State :=
  match x.slots.scheduled[i]?, x.tasks i with
  | some e, .queued =>
      match e.item.notify with
      | some callback =>
          if x.slots.mine j e then
            some ((x.run j .worker callback).taskTo i .notified)
          else some (x.taskTo i .notified)
      | none => some (x.taskTo i .continued)
  | some _, .notified => some (x.taskTo i .continued)
  | _, _ => none

/-- What the table's threads and the controller's owner may do besides.
They leave alone what only the three operations write, and allocate for
controller `j` once. -/
def slotsMayTake (j : Nat) (x : State) : Slot.Action Tid → Bool
  | .step _ | .spurious _ | .pick _ _ => true
  | .invoke (.channel _) (.allocateSlot args _) =>
      args.controller ≠ some j || !x.called
  | .invoke (.channel _) _ | .collect (.channel _) => true
  | .invoke (.canceler _) _ | .collect (.canceler _) => false
  | .client heap _ =>
      let ctl := x.slots.heap.controllers j
      let ctl' := heap.controllers j
      ctl'.cancelRequested = ctl.cancelRequested
        && ctl'.notifyOnCancel = ctl.notifyOnCancel
        && ctl'.rpcCompleted = ctl.rpcCompleted

/-- The action begins the call on controller `j`. -/
def begins (j : Nat) : Slot.Action Tid → Bool
  | .invoke _ (.allocateSlot args _) => args.controller = some j
  | _ => false

/-- What an action does, if it is enabled. -/
def apply (cfg : TableConfig) (j : Nat) : Action → State → Option State
  | .slots a, x =>
      if slotsMayTake j x a then
        (Slot.apply cfg a x.slots).map fun slots =>
          { x with slots := slots, called := x.called || begins j a }
      else none
  | .notifyOnCancel, x =>
      let n := x.registrations
      let x : State := { x with registrations := n + 1 }
      some (x.registrarTo n .register)
  | .registrar n, x => execRegistrar j n (x.registrars n) x
  | .startCancel, x =>
      let n := x.cancels
      let x : State := { x with cancels := n + 1 }
      some (x.cancelerTo n .storeRequested)
  | .canceler n alive, x => execCanceler cfg j n alive (x.cancelers n) x
  | .task i, x => execTask j i x

/-- A controller on which nothing was called yet. -/
def Start (cfg : TableConfig) (j : Nat) (x : State) : Prop :=
  ∃ heap : Heap, (heap.controllers j).notifyOnCancel = none
    ∧ (heap.controllers j).rpcCompleted = false
    ∧ x = { slots := { table := .init cfg, heap := heap } }

def machine (cfg : TableConfig) (j : Nat) : Machine State Action where
  start := Start cfg j
  apply := apply cfg j

end AntRpc.Notify
