/-
`SlotTable<Capacity>` (rpc/slot_table.hpp) as an interleaving machine
with a most general client: any idle thread may call any operation with
any arguments, and a running operation advances one atomic step at a
time.

# Steps

One step is one atomic load, store, exchange or compare-and-swap, one
mutex section, or one run of plain accesses between two of those. A
program point (`Pc`) is what is left to do, with the locals of the
function still needed; the phases of the operations have their own
types, after the functions of the source.

Plain accesses to a cell's fields are grouped into one step only where
the source makes them with nothing else in between. That hides no race:
the ownership theorems show that whoever is at such a point holds the
cell.

# History

`lives` tells each cell's story (Slot/Cell.lean), `published` counts the
calls of `PublishSlot` per id, and `completed` lists the completions
recorded. No step reads them. `Winner.gen`, the number of the allocation
a winner won, is history too.

# What is left out

Latency (a clock reading), and the null checks of `client_metrics_` and
`deadline_timer_keeper_`: a channel sets both before its first call, and
they guard only the counters and the timer cancellation.
-/
import AntRpc.Lib.Machine
import AntRpc.Slot.Cell

namespace AntRpc.Slot

open Protocol

-- == the table

/-- A table's parameters. The constructor writes `slots_[Capacity - 1]`,
so a table has at least one cell. `parseMessage` is the generated
`ParseFromZeroCopyStream` of a response object: its content afterwards
and whether it succeeded. -/
structure TableConfig where
  capacity : Nat
  capacity_pos : 0 < capacity
  parseMessage : Nat → Bytes → Bytes × Bool

/-- The members of `SlotTable`. -/
structure SlotTable where
  slots : UInt32 → CallSlot
  freeHead : UInt32
  activeSlots : Nat := 0
  completedResponses : Nat := 0
  unknownCorrelationId : Nat := 0
  lateResponse : Nat := 0
  activeCalls : List UInt64 := []
  connectionFailed : Bool := false
  connectionFailureCode : Int32 := RPC_ECONN_FAILED
  connectionFailureMessage : String := ""

/-- The constructor: every cell linked to the next, the last one to
`INVALID_SLOT`. -/
def SlotTable.init (cfg : TableConfig) : SlotTable where
  slots i :=
    { nextFree :=
        if i.toNat + 1 < cfg.capacity then UInt32.ofNat (i.toNat + 1)
        else invalidSlot }
  freeHead := 0

/-- `SlotAt(c)` is not null. -/
def TableConfig.hasSlot (cfg : TableConfig) (c : UInt64) : Bool :=
  (getSlotId c).toNat < cfg.capacity

/-- The caller-owned objects the table writes through its pointers. -/
structure Heap where
  controllers : Nat → Controller := fun _ => {}
  messages : Nat → Bytes := fun _ => []
  rawBodies : Nat → Bytes := fun _ => []

/-- What a winner hands to the executor. -/
structure Dispatch where
  task : Option Nat
  executor : Option Nat
  notify : Option Nat := none
deriving DecidableEq, Repr

/-- One `executor->schedule`: the item, and (history) which allocation
of which cell it was for. -/
structure Scheduled where
  item : Dispatch
  slot : UInt32
  gen : Nat
deriving DecidableEq, Repr

/-- One `RecordCompletion` of the table (history): the task, the code,
and for which allocation of which cell. -/
structure Completion where
  task : Option Nat
  code : Int32
  slot : UInt32
  gen : Nat
deriving DecidableEq, Repr

-- == program points

/-- What the caller of a finalizer goes on with. -/
inductive After where
  | publish (outcome : PublishOutcome)
  | complete
  | resolve
  | discard
  | failAll (rest : List UInt64) (total : Nat) (code : Int32)
      (message : String)
deriving DecidableEq, Repr

/-- A thread that won a cell by moving its word out of the live states:
the id it carries, the allocation it won, what follows. -/
structure Winner where
  cid : UInt64
  gen : Nat
  after : After
deriving DecidableEq, Repr

/-- `AllocateSlot`, with `TryAcquireLiveSlot` and `PopFreeSlot`. -/
inductive AllocPc where
  | loadActive (limit : Nat)
  | casActive (limit current : Nat)
  | popFreeSlot
  | undoActive
  | loadVersion (slot : UInt32)
  | storeFields (slot version : UInt32)
  | resetTimer (slot version : UInt32)
  | storeArming (slot version : UInt32)
  | addInFlight (slot version : UInt32)
deriving DecidableEq, Repr

/-- `PublishSlot`, up to a compare-and-swap that makes it a winner. -/
inductive PublishPc where
  | registerPublishedSlot
  | failArming (code : Int32) (message : String)
  | publish
  | takeConnectionFailure
  | failInFlight (code : Int32) (message : String)
  | unregisterPublishedSlot (observed : Lifecycle)
  | deliverPending (state : SlotState) (resolution : SlotResolution)
deriving DecidableEq, Repr

/-- What a winner does while it holds its cell: the rest of
`DiscardArmingSlot`, `CompleteResponseSlot` or
`ApplyFailureAndFinalize`, then `FinalizeSlotAndDispatch` and
`PushFreeSlot`. Discarding pushes without an item to dispatch. -/
inductive HoldPc where
  | discardTimer
  | discardClear
  | responseClear (response : Response)
  | responseApply (response : Response)
  | responseCount (code : Int32)
  | failureClear (resolution : SlotResolution)
  | failureApply (resolution : SlotResolution)
  | readTask (code : Int32)
  | takeNotify (code : Int32) (item : Dispatch)
  | recordCompletion (code : Int32) (item : Dispatch)
  | unregister (item : Dispatch)
  | cancelTimer (item : Dispatch)
  | clearFields (item : Option Dispatch)
  | clearTimer (item : Option Dispatch)
  | storeFree (item : Option Dispatch)
  | releaseLiveSlot (item : Option Dispatch)
  | subInFlight (item : Option Dispatch)
  | pushFreeSlot (item : Option Dispatch)
deriving DecidableEq, Repr

/-- Where a running operation stands. -/
inductive Pc where
  | alloc (args : CallArgs) (p : AllocPc)
  | publish (c : UInt64) (p : PublishPc)
  | discard (c : UInt64)
  | attachLoad (c : UInt64) (timerId : UInt64)
  | attachStore (c : UInt64) (timerId : UInt64)
  | responseUnknown (c : UInt64)
  | responseCas (c : UInt64) (response : Response)
  | responseLate (c : UInt64)
  | resolvePending (c : UInt64) (resolution : SlotResolution)
  | transition (c : UInt64) (resolution : SlotResolution) (after : After)
  | hold (w : Winner) (p : HoldPc)
  | dispatch (w : Winner) (item : Dispatch)
  | failAllTake (code : Int32) (message : String)
  | failAllNext (rest : List UInt64) (total : Nat) (code : Int32)
      (message : String)
deriving DecidableEq, Repr

/-- What an operation returned. An allocation also shows the arguments
it was called with. -/
inductive Result where
  | allocated (args : CallArgs) (c : UInt64)
  | published (c : UInt64) (outcome : PublishOutcome)
  | flag (b : Bool)
  | response (outcome : ResponseCompletionOutcome)
  | count (n : Nat)
deriving DecidableEq, Repr

/-- A thread, as far as the table is concerned. -/
inductive Thread where
  | idle
  | running (pc : Pc)
  | returned (r : Result)
deriving DecidableEq, Repr

/-- The public operations. -/
inductive Op where
  | allocateSlot (args : CallArgs) (maxInFlight : Nat)
  | publishSlot (c : UInt64)
  | discardArmingSlot (c : UInt64)
  | attachDeadlineTimer (c : UInt64) (timerId : UInt64)
  | completeResponseSlot (c : UInt64) (response : Response)
  | timeoutSlot (c : UInt64) (message : String)
  | cancelSlot (c : UInt64) (message : String)
  | failSlot (c : UInt64) (code : Int32) (message : String)
  | failAllActiveSlots (code : Int32) (message : String)
deriving DecidableEq, Repr

/-- The whole machine. -/
structure State (τ : Type) where
  table : SlotTable
  heap : Heap := {}
  metrics : ClientMetrics := {}
  scheduled : List Scheduled := []
  canceledTimers : List UInt64 := []
  threads : τ → Thread := fun _ => .idle
  lives : UInt32 → CellLife τ := fun _ => {}
  published : UInt64 → Nat := fun _ => 0
  completed : List Completion := []

/-- What a thread does next: call an operation, take one step of the
running one, or pick up its result. `spurious` lets a weak
compare-and-swap fail, `pick` is the next element the iteration over an
unordered set comes to. Between steps the callers do with their own
objects and call counters what they like (`client`). -/
inductive Action (τ : Type) where
  | invoke (t : τ) (op : Op)
  | step (t : τ)
  | spurious (t : τ)
  | pick (t : τ) (c : UInt64)
  | collect (t : τ)
  | client (heap : Heap) (metrics : ClientMetrics)

-- == state updates

variable {τ : Type} [DecidableEq τ]

namespace State

/-- The lifecycle word of cell `i`. -/
def word (s : State τ) (i : UInt32) : Lifecycle :=
  (s.table.slots i).lifecycle

/-- The caller pointers of cell `i`. -/
def args (s : State τ) (i : UInt32) : CallArgs :=
  (s.table.slots i).args

/-- The item was scheduled, or will be, for a call on controller `j`. -/
def mine (s : State τ) (j : Nat) (e : Scheduled) : Bool :=
  ((s.lives e.slot).argsOf e.gen).controller = some j

def setThread (s : State τ) (t : τ) (th : Thread) : State τ :=
  { s with threads := Function.update s.threads t th }

def goto (s : State τ) (t : τ) (pc : Pc) : State τ :=
  s.setThread t (.running pc)

def ret (s : State τ) (t : τ) (r : Result) : State τ :=
  s.setThread t (.returned r)

def setSlot (s : State τ) (i : UInt32) (cell : CallSlot) : State τ :=
  { s with
    table := { s.table with slots := Function.update s.table.slots i cell } }

def setLife (s : State τ) (i : UInt32) (life : CellLife τ) : State τ :=
  { s with lives := Function.update s.lives i life }

def storeLifecycle (s : State τ) (i : UInt32) (w : Lifecycle) : State τ :=
  s.setSlot i { s.table.slots i with lifecycle := w }

def storeArgs (s : State τ) (i : UInt32) (args : CallArgs) : State τ :=
  s.setSlot i { s.table.slots i with args := args }

def storeTimer (s : State τ) (i : UInt32) (timerId : UInt64) : State τ :=
  s.setSlot i { s.table.slots i with deadlineTimerId := timerId }

def setActiveCalls (s : State τ) (calls : List UInt64) : State τ :=
  { s with table := { s.table with activeCalls := calls } }

def setActiveSlots (s : State τ) (n : Nat) : State τ :=
  { s with table := { s.table with activeSlots := n } }

/-- The next chapter of the current allocation of cell `i`. -/
def turn (s : State τ) (i : UInt32) (f : Fate τ) : State τ :=
  s.setLife i ((s.lives i).setFate (s.lives i).gen f)

/-- The winner of the cell `c` names goes on at `p`. -/
def win (s : State τ) (t : τ) (c : UInt64) (after : After) (p : HoldPc) :
    State τ :=
  (s.turn (getSlotId c) (.holding t false)).goto t
    (.hold ⟨c, (s.lives (getSlotId c)).gen, after⟩ p)

/-- `CancelDeadlineTimer`. -/
def cancelDeadlineTimer (s : State τ) (i : UInt32) : State τ :=
  let timerId := (s.table.slots i).deadlineTimerId
  let s := s.storeTimer i 0
  if timerId ≠ 0 then
    { s with canceledTimers := s.canceledTimers ++ [timerId] }
  else s

/-- Call a method of the controller of cell `i`, if it has one. -/
def onController (s : State τ) (i : UInt32)
    (f : Controller → Controller) : State τ :=
  match (s.args i).controller with
  | none => s
  | some k =>
      { s with
        heap := { s.heap with
          controllers := Function.update s.heap.controllers k
            (f (s.heap.controllers k)) } }

end State

/-- The thread goes on after a finalizer. -/
def After.won : After → UInt64 → Thread
  | .publish outcome, c => .returned (.published c outcome)
  | .complete, _ => .returned (.response .completed)
  | .resolve, _ => .returned (.flag true)
  | .discard, _ => .returned (.flag true)
  | .failAll rest total code message, _ =>
      .running (.failAllNext rest total code message)

/-- The thread goes on after a `TransitionAndFinalize` that lost. -/
def After.lost : After → Thread
  | .failAll rest total code message =>
      .running (.failAllNext rest total code message)
  | .publish _ | .complete | .resolve | .discard => .returned (.flag false)

-- == calls

/-- `ResolveTerminal`, up to its first compare-and-swap. -/
def resolveTerminal (cfg : TableConfig) (c : UInt64) (r : SlotResolution)
    (deferWhileArming : Bool) : Thread :=
  if !cfg.hasSlot c then .returned (.flag false)
  else if deferWhileArming then .running (.resolvePending c r)
  else .running (.transition c r .resolve)

/-- Entering an operation: its argument checks, which touch nothing
shared. -/
def enter (cfg : TableConfig) : Op → Thread
  | .allocateSlot args maxInFlight =>
      if args.executor = none ∨ maxInFlight = 0
          ∨ maxInFlight > cfg.capacity then
        .returned (.allocated args 0)
      else .running (.alloc args (.loadActive maxInFlight))
  | .publishSlot c =>
      if cfg.hasSlot c then .running (.publish c .registerPublishedSlot)
      else .returned (.published c .invalid)
  | .discardArmingSlot c =>
      if cfg.hasSlot c then .running (.discard c)
      else .returned (.flag false)
  | .attachDeadlineTimer c timerId =>
      if timerId = 0 then .returned (.flag false)
      else if cfg.hasSlot c then .running (.attachLoad c timerId)
      else .returned (.flag false)
  | .completeResponseSlot c response =>
      if cfg.hasSlot c then .running (.responseCas c response)
      else .running (.responseUnknown c)
  | .timeoutSlot c message => resolveTerminal cfg c (.timedOut message) true
  | .cancelSlot c message => resolveTerminal cfg c (.canceled message) true
  | .failSlot c code message =>
      resolveTerminal cfg c (.failed code message) false
  | .failAllActiveSlots code message => .running (.failAllTake code message)

-- == steps

/-- `AllocateSlot`. A spurious failure of the weak compare-and-swap is
`casActive` again, with the value just read. -/
def execAlloc (t : τ) (args : CallArgs) : AllocPc → State τ → State τ
  | .loadActive limit, s =>
      s.goto t (.alloc args (.casActive limit s.table.activeSlots))
  | .casActive limit current, s =>
      if current < limit then
        if s.table.activeSlots = current then
          (s.setActiveSlots (current + 1)).goto t (.alloc args .popFreeSlot)
        else s.goto t (.alloc args (.casActive limit s.table.activeSlots))
      else s.ret t (.allocated args 0)
  | .popFreeSlot, s =>
      let index := s.table.freeHead
      if index = invalidSlot then s.goto t (.alloc args .undoActive)
      else
        let s' : State τ :=
          { s with
            table := { s.table with
              freeHead := (s.table.slots index).nextFree } }
        (s'.setLife index ((s.lives index).pop t args)).goto t
          (.alloc args (.loadVersion index))
  | .undoActive, s =>
      (s.setActiveSlots (s.table.activeSlots - 1)).ret t (.allocated args 0)
  | .loadVersion slot, s =>
      s.goto t (.alloc args (.storeFields slot ((s.word slot).version + 1)))
  | .storeFields slot version, s =>
      (s.storeArgs slot args).goto t (.alloc args (.resetTimer slot version))
  | .resetTimer slot version, s =>
      (s.storeTimer slot 0).goto t (.alloc args (.storeArming slot version))
  | .storeArming slot version, s =>
      ((s.storeLifecycle slot ⟨version, .arming⟩).turn slot .live).goto t
        (.alloc args (.addInFlight slot version))
  | .addInFlight slot version, s =>
      let s' : State τ :=
        { s with
          metrics := { s.metrics with
            activeInFlight := s.metrics.activeInFlight + 1 } }
      s'.ret t (.allocated args (makeCorrelationId version slot))

/-- The tail of a `PublishSlot` whose compare-and-swap from ARMING saw
`observed` instead: deliver a pending resolution of this version, or
give up. -/
def publishLost (t : τ) (c : UInt64) (observed : Lifecycle) (s : State τ) :
    State τ :=
  if observed.version = getVersion c then
    match pendingResolution observed.state with
    | some r => s.goto t (.publish c (.deliverPending observed.state r))
    | none => s.ret t (.published c .invalid)
  else s.ret t (.published c .invalid)

/-- `PublishSlot`. -/
def execPublish (t : τ) (c : UInt64) : PublishPc → State τ → State τ
  | .registerPublishedSlot, s =>
      if !s.table.connectionFailed then
        (s.setActiveCalls (s.table.activeCalls.insert c)).goto t
          (.publish c .publish)
      else
        s.goto t (.publish c (.failArming s.table.connectionFailureCode
          s.table.connectionFailureMessage))
  | .failArming code message, s =>
      let slot := getSlotId c
      if s.word slot = ⟨getVersion c, .arming⟩ then
        (s.storeLifecycle slot ⟨getVersion c, .failed⟩).win t c
          (.publish .failed) (.failureClear (.failed code message))
      else publishLost t c (s.word slot) s
  | .publish, s =>
      let slot := getSlotId c
      if s.word slot = ⟨getVersion c, .arming⟩ then
        (s.storeLifecycle slot ⟨getVersion c, .inFlight⟩).goto t
          (.publish c .takeConnectionFailure)
      else s.goto t (.publish c (.unregisterPublishedSlot (s.word slot)))
  | .takeConnectionFailure, s =>
      if !s.table.connectionFailed then s.ret t (.published c .inFlight)
      else
        (s.setActiveCalls (s.table.activeCalls.erase c)).goto t
          (.publish c (.failInFlight s.table.connectionFailureCode
            s.table.connectionFailureMessage))
  | .failInFlight code message, s =>
      let slot := getSlotId c
      if s.word slot = ⟨getVersion c, .inFlight⟩ then
        (s.storeLifecycle slot ⟨getVersion c, .failed⟩).win t c
          (.publish .failed) (.failureClear (.failed code message))
      else s.ret t (.published c .invalid)
  | .unregisterPublishedSlot observed, s =>
      publishLost t c observed
        (s.setActiveCalls (s.table.activeCalls.erase c))
  | .deliverPending state r, s =>
      let slot := getSlotId c
      if s.word slot = ⟨getVersion c, state⟩ then
        (s.storeLifecycle slot ⟨getVersion c, r.terminalState⟩).win t c
          (.publish (pendingOutcome r)) (.failureClear r)
      else s.ret t (.published c .invalid)

/-- `slot.controller && slot.controller->Failed()`. -/
def controllerFailed (args : CallArgs) (h : Heap) : Bool :=
  match args.controller with
  | none => false
  | some k => (h.controllers k).failed

/-- `CompleteResponseSlot`: error, headers and attachment of the response
go to the controller. -/
def applyMeta (args : CallArgs) (r : Response) (h : Heap) : Heap :=
  match args.controller with
  | none => h
  | some k =>
      let ctl := h.controllers k
      let ctl := if r.rpcMeta.errorCode ≠ RPC_SUCCESS
        then ctl.setFailed r.rpcMeta.errorCode r.rpcMeta.errorText else ctl
      let ctl := if r.rpcMeta.headers ≠ []
        then { ctl with responseHeaders := r.rpcMeta.headers } else ctl
      let ctl := if r.attachment ≠ []
        then { ctl with responseAttachment := r.attachment } else ctl
      { h with controllers := Function.update h.controllers k ctl }

/-- `CompleteResponseSlot`: the body is parsed into the response object,
unless it is empty or the call failed. -/
def parseBody (cfg : TableConfig) (args : CallArgs) (r : Response)
    (h : Heap) : Heap × Int32 :=
  match args.responseMsg with
  | none => (h, r.rpcMeta.errorCode)
  | some m =>
      if r.body ≠ [] ∧ controllerFailed args h = false then
        let parsed := cfg.parseMessage m r.body
        let h :=
          { h with messages := Function.update h.messages m parsed.1 }
        if parsed.2 then (h, r.rpcMeta.errorCode)
        else
          match args.controller with
          | none => (h, RPC_EINVALID_DATA)
          | some k =>
              ({ h with
                  controllers := Function.update h.controllers k
                    ((h.controllers k).setFailed RPC_EINVALID_DATA
                      "Failed to deserialize response protobuf") },
                RPC_EINVALID_DATA)
      else (h, r.rpcMeta.errorCode)

/-- `CompleteResponseSlot`: the raw body, if the caller asked for it. -/
def storeRawBody (args : CallArgs) (r : Response) (h : Heap) : Heap :=
  match args.rawRespBody with
  | none => h
  | some b => { h with rawBodies := Function.update h.rawBodies b r.body }

/-- `CompleteResponseSlot`: a failed controller overrules the code. -/
def completionCode (args : CallArgs) (code : Int32) (h : Heap) : Int32 :=
  match args.controller with
  | none => code
  | some k =>
      if (h.controllers k).failed then (h.controllers k).errorCode else code

/-- What `CompleteResponseSlot` does to the caller's objects after the
registration is cleared, and the completion code it ends with. -/
def applyResponse (cfg : TableConfig) (args : CallArgs) (r : Response)
    (h : Heap) : Heap × Int32 :=
  let parsed := parseBody cfg args r (applyMeta args r h)
  let h := storeRawBody args r parsed.1
  (h, completionCode args parsed.2 h)

/-- A winner, while it holds its cell. -/
def execHold (cfg : TableConfig) (t : τ) (w : Winner) :
    HoldPc → State τ → State τ
  | .discardTimer, s =>
      (s.cancelDeadlineTimer (getSlotId w.cid)).goto t
        (.hold w .discardClear)
  | .discardClear, s =>
      (s.onController (getSlotId w.cid) (·.clearActiveSlot w.cid)).goto t
        (.hold w (.clearFields none))
  | .responseClear r, s =>
      (s.onController (getSlotId w.cid) (·.clearActiveSlot w.cid)).goto t
        (.hold w (.responseApply r))
  | .responseApply r, s =>
      let applied := applyResponse cfg (s.args (getSlotId w.cid)) r s.heap
      let s' : State τ := { s with heap := applied.1 }
      s'.goto t (.hold w (.responseCount applied.2))
  | .responseCount code, s =>
      let s' : State τ :=
        { s with
          table := { s.table with
            completedResponses := s.table.completedResponses + 1 } }
      s'.goto t (.hold w (.readTask code))
  | .failureClear r, s =>
      (s.onController (getSlotId w.cid) (·.clearActiveSlot w.cid)).goto t
        (.hold w (.failureApply r))
  | .failureApply r, s =>
      (s.onController (getSlotId w.cid)
          (·.setFailed r.errorCode r.errorMessage)).goto t
        (.hold w (.readTask r.errorCode))
  | .readTask code, s =>
      let args := s.args (getSlotId w.cid)
      s.goto t (.hold w (.takeNotify code ⟨args.task, args.executor, none⟩))
  | .takeNotify code item, s =>
      match (s.args (getSlotId w.cid)).controller with
      | none => s.goto t (.hold w (.recordCompletion code item))
      | some k =>
          let taken := (s.heap.controllers k).takeNotifyOnCompletion
          let s' : State τ :=
            { s with
              heap := { s.heap with
                controllers :=
                  Function.update s.heap.controllers k taken.1 } }
          s'.goto t
            (.hold w (.recordCompletion code { item with notify := taken.2 }))
  | .recordCompletion code item, s =>
      let slot := getSlotId w.cid
      let life := s.lives slot
      let s' : State τ :=
        { s with
          metrics := s.metrics.recordCompletion code
          completed := s.completed ++ [⟨item.task, code, slot, w.gen⟩] }
      (s'.setLife slot
          ((life.record life.gen).setFate life.gen (.holding t true))).goto t
        (.hold w (.unregister item))
  | .unregister item, s =>
      (s.setActiveCalls (s.table.activeCalls.erase w.cid)).goto t
        (.hold w (.cancelTimer item))
  | .cancelTimer item, s =>
      (s.cancelDeadlineTimer (getSlotId w.cid)).goto t
        (.hold w (.clearFields (some item)))
  | .clearFields item, s =>
      (s.storeArgs (getSlotId w.cid) {}).goto t (.hold w (.clearTimer item))
  | .clearTimer item, s =>
      (s.storeTimer (getSlotId w.cid) 0).goto t (.hold w (.storeFree item))
  | .storeFree item, s =>
      (s.storeLifecycle (getSlotId w.cid) ⟨getVersion w.cid, .free⟩).goto t
        (.hold w (.releaseLiveSlot item))
  | .releaseLiveSlot item, s =>
      (s.setActiveSlots (s.table.activeSlots - 1)).goto t
        (.hold w (.subInFlight item))
  | .subInFlight item, s =>
      let s' : State τ :=
        { s with
          metrics := { s.metrics with
            activeInFlight := s.metrics.activeInFlight - 1 } }
      s'.goto t (.hold w (.pushFreeSlot item))
  | .pushFreeSlot item, s =>
      let slot := getSlotId w.cid
      let pushed := s.setSlot slot
        { s.table.slots slot with nextFree := s.table.freeHead }
      let s' : State τ :=
        { pushed with table := { pushed.table with freeHead := slot } }
      match item with
      | some item =>
          (s'.turn slot (.released t)).goto t (.dispatch w item)
      | none => (s'.turn slot .discarded).setThread t (w.after.won w.cid)

/-- The end of `FinalizeSlotAndDispatch`. A null executor would end the
process. -/
def execDispatch (t : τ) (w : Winner) (item : Dispatch) (s : State τ) :
    Option (State τ) :=
  let slot := getSlotId w.cid
  let life := s.lives slot
  if item.task = none ∧ item.notify = none then
    some ((s.setLife slot
      ((life.dispatch w.gen 0).setFate w.gen .dispatched)).setThread t
        (w.after.won w.cid))
  else if item.executor = none then none
  else
    let s' : State τ :=
      { s with scheduled := s.scheduled ++ [⟨item, slot, w.gen⟩] }
    some ((s'.setLife slot
      ((life.dispatch w.gen 1).setFate w.gen .dispatched)).setThread t
        (w.after.won w.cid))

/-- One step of a running operation. -/
def exec (cfg : TableConfig) (t : τ) : Pc → State τ → Option (State τ)
  | .alloc args p, s => some (execAlloc t args p s)
  | .publish c p, s => some (execPublish t c p s)
  | .discard c, s =>
      let slot := getSlotId c
      if s.word slot = ⟨getVersion c, .arming⟩ then
        some ((s.storeLifecycle slot ⟨getVersion c, .timedOut⟩).win t c
          .discard .discardTimer)
      else some (s.ret t (.flag false))
  | .attachLoad c timerId, s =>
      let w := s.word (getSlotId c)
      if w.version ≠ getVersion c then some (s.ret t (.flag false))
      else if w.state ≠ .arming ∧ w.state ≠ .cancelPending
          ∧ w.state ≠ .timeoutPending then
        some (s.ret t (.flag false))
      else some (s.goto t (.attachStore c timerId))
  | .attachStore c timerId, s =>
      some ((s.storeTimer (getSlotId c) timerId).ret t (.flag true))
  | .responseUnknown _, s =>
      let s' : State τ :=
        { s with
          table := { s.table with
            unknownCorrelationId := s.table.unknownCorrelationId + 1 } }
      some (s'.ret t (.response .unknownCorrelationId))
  | .responseCas c r, s =>
      let slot := getSlotId c
      if s.word slot = ⟨getVersion c, .inFlight⟩ then
        some ((s.storeLifecycle slot ⟨getVersion c, .completed⟩).win t c
          .complete (.responseClear r))
      else some (s.goto t (.responseLate c))
  | .responseLate _, s =>
      let s' : State τ :=
        { s with
          table := { s.table with
            lateResponse := s.table.lateResponse + 1 } }
      some (s'.ret t (.response .lateResponse))
  | .resolvePending c r, s =>
      match r.pendingState with
      | none => some (s.goto t (.transition c r .resolve))
      | some pending =>
          let slot := getSlotId c
          if s.word slot = ⟨getVersion c, .arming⟩ then
            some ((s.storeLifecycle slot ⟨getVersion c, pending⟩).ret t
              (.flag true))
          else some (s.goto t (.transition c r .resolve))
  | .transition c r after, s =>
      let slot := getSlotId c
      if s.word slot = ⟨getVersion c, .inFlight⟩ then
        some ((s.storeLifecycle slot ⟨getVersion c, r.terminalState⟩).win t c
          after (.failureClear r))
      else some (s.setThread t after.lost)
  | .hold w p, s => some (execHold cfg t w p s)
  | .dispatch w item, s => execDispatch t w item s
  | .failAllTake code message, s =>
      if s.table.connectionFailed then some (s.ret t (.count 0))
      else
        let s' : State τ :=
          { s with
            table := { s.table with
              connectionFailed := true
              connectionFailureCode := code
              connectionFailureMessage := message
              activeCalls := [] } }
        some (s'.goto t (.failAllNext s.table.activeCalls
          s.table.activeCalls.length code message))
  | .failAllNext rest total _ _, s =>
      -- a non-empty rest waits for the set's next element
      if rest = [] then some (s.ret t (.count total)) else none

/-- The loop of `FailAllActiveSlots` comes to `c`: `FailSlot(c)`. -/
def execPick (cfg : TableConfig) (t : τ) (c : UInt64) :
    Pc → State τ → Option (State τ)
  | .failAllNext rest total code message, s =>
      if c ∈ rest then
        if cfg.hasSlot c then
          some (s.goto t (.transition c (.failed code message)
            (.failAll (rest.erase c) total code message)))
        else some (s.goto t (.failAllNext (rest.erase c) total code message))
      else none
  | _, _ => none

/-- Enter an operation. -/
def invoke (cfg : TableConfig) (t : τ) (op : Op) (s : State τ) : State τ :=
  let s' : State τ := match op with
    | .publishSlot c =>
        { s with
          published := Function.update s.published c (s.published c + 1) }
    | _ => s
  s'.setThread t (enter cfg op)

/-- What an action does, if it is enabled. -/
def apply (cfg : TableConfig) : Action τ → State τ → Option (State τ)
  | .invoke t op, s =>
      match s.threads t with
      | .idle => some (invoke cfg t op s)
      | _ => none
  | .step t, s =>
      match s.threads t with
      | .running pc => exec cfg t pc s
      | _ => none
  | .spurious t, s =>
      match s.threads t with
      | .running (.alloc args (.casActive limit current)) =>
          if current < limit then
            some (s.goto t
              (.alloc args (.casActive limit s.table.activeSlots)))
          else none
      | _ => none
  | .pick t c, s =>
      match s.threads t with
      | .running pc => execPick cfg t c pc s
      | _ => none
  | .collect t, s =>
      match s.threads t with
      | .returned _ => some (s.setThread t .idle)
      | _ => none
  | .client heap metrics, s =>
      some { s with
        heap := heap
        metrics := { metrics with
          activeInFlight := s.metrics.activeInFlight } }

/-- A new table: every thread idle, the caller's objects arbitrary. -/
def Start (cfg : TableConfig) (s : State τ) : Prop :=
  ∃ heap, s = { table := .init cfg, heap := heap }

/-- The slot table with its most general client. -/
def machine (cfg : TableConfig) : Lib.Machine (State τ) (Action τ) where
  start := Start cfg
  apply := apply cfg

end AntRpc.Slot
