/-
`WorkStealingExecutor` (scheduler/executor.hpp): workers with a local
deque and an inbound queue each, one global queue, and threads that
schedule tasks.

# Threads

Worker `w` runs `WorkerLoop`; while it runs a task, and only then, it may
call `schedule` itself. External threads (IO threads, timers, workers of
other executors) may call it at any time. `g_current_worker == this` is
true on worker `w` for its own state and nowhere else.

# Queues

The local queue is an atomic deque of 1024 entries: `Push` fails when it
is full, `TryPop` takes the back, `Steal` takes the front or nothing (so
may the emptiness test before it say). A `ConcurrentQueue` is a bag: a
dequeue takes any entry or fails, a bulk dequeue takes one after the
other. `inbound_count_` is an `int32_t` and wraps.

# What is left out

Parking, waking, backing off and the load figures: they decide when a
worker looks and which of two workers gets a task, so a scheduler picks
one of the two here. A `schedule` without workers divides by zero and is
not enabled.
-/
import AntRpc.Lib.Machine
import Mathlib

namespace AntRpc.Scheduler.Executor

open Lib

/-- A scheduled `TaskNode`, with the number of the `schedule` call that
brought it (history). -/
structure Task (ν : Type) where
  number : Nat
  node : ν
deriving DecidableEq

inductive Tid (n : Nat) (ε : Type) where
  | worker (w : Fin n)
  | external (e : ε)
deriving DecidableEq

/-- Where a `schedule` call stands. -/
inductive SchedulePc (ν : Type) (n : Nat) where
  | idle
  | pushReady (w : Fin n) (task : Task ν)
  | addCount (w : Fin n) (task : Task ν)
  | enqueue (w : Fin n) (task : Task ν)
  | pushGlobal (task : Task ν)

/-- Where `WorkerLoop` stands, inside `pop_local` and `steal_task`
included. -/
inductive LoopPc (ν : Type) (n : Nat) where
  | loop
  | globalFirst
  -- pop_local
  | tryPop
  | loadCount
  | dequeueBulk (bulk : List (Task ν))
  | subCount (first : Task ν) (rest : List (Task ν))
  | refill (first : Task ν) (rest : List (Task ν))
  | refillAdd (first task : Task ν) (rest : List (Task ν))
  | refillEnqueue (first task : Task ν) (rest : List (Task ν))
  -- steal_task
  | stealLocal (start i : Nat)
  | stealLoadCount (start i : Nat)
  | stealDequeue (start i : Nat) (victim : Fin n)
  | stealSub (victim : Fin n) (task : Task ν)
  --
  | globalLast
  | run (task : Task ν)
  | running
  | stopped

/-- The executor and its threads. `scheduled` counts the tasks it was
given, `executed` are those a worker ran (history). -/
structure State (ν : Type) (n : Nat) (ε : Type) where
  localQueue : Fin n → List (Task ν) := fun _ => []
  inboundQueue : Fin n → List (Task ν) := fun _ => []
  inboundCount : Fin n → Int := fun _ => 0
  globalQueue : List (Task ν) := []
  tick : Fin n → UInt64 := fun _ => 0
  runs : Bool := true
  workers : Fin n → LoopPc ν n := fun _ => .loop
  calls : Tid n ε → SchedulePc ν n := fun _ => .idle
  scheduled : Nat := 0
  executed : List Nat := []

variable {ν ε : Type} {n : Nat} [DecidableEq ε]

-- == updates

namespace State

def setLocal (s : State ν n ε) (w : Fin n) (l : List (Task ν)) :
    State ν n ε :=
  { s with localQueue := Function.update s.localQueue w l }

def setInbound (s : State ν n ε) (w : Fin n) (l : List (Task ν)) :
    State ν n ε :=
  { s with inboundQueue := Function.update s.inboundQueue w l }

def setGlobal (s : State ν n ε) (l : List (Task ν)) : State ν n ε :=
  { s with globalQueue := l }

/-- `inbound_count_.fetch_add(d)` on worker `w`. -/
def addCount (s : State ν n ε) (w : Fin n) (d : Int) : State ν n ε :=
  { s with
    inboundCount := Function.update s.inboundCount w
      ((s.inboundCount w + d).bmod (2 ^ 32)) }

def workerTo (s : State ν n ε) (w : Fin n) (pc : LoopPc ν n) :
    State ν n ε :=
  { s with workers := Function.update s.workers w pc }

def callTo (s : State ν n ε) (t : Tid n ε) (pc : SchedulePc ν n) :
    State ν n ε :=
  { s with calls := Function.update s.calls t pc }

end State

-- == schedule

/-- `local_queue_`'s capacity. -/
def kLocalCapacity : Nat := 1024

/-- The most a bulk dequeue takes. -/
def kBulk : Nat := 32

/-- `kGlobalCheckInterval`. -/
def kGlobalCheckInterval : UInt64 := 61

/-- The random numbers of a `schedule` call and which of the two workers
they name has the smaller load. -/
structure Draw where
  random1 : Nat
  random2 : Nat
  firstWins : Bool

/-- Worker `i` modulo the number of workers. -/
def workerAt (h : 0 < n) (i : Nat) : Fin n := ⟨i % n, Nat.mod_lt i h⟩

/-- The worker `schedule(task)` gives a task to. -/
def target (t : Tid n ε) (draw : Draw) : Option (Fin n) :=
  match t with
  | .worker w => some w
  | .external _ =>
      if h : 0 < n then
        if n = 1 then some (workerAt h 0)
        else
          let w1 := draw.random1 % n
          let w2 := (w1 + 1 + draw.random2 % (n - 1)) % n
          some (workerAt h (if draw.firstWins then w1 else w2))
      else none

/-- A thread may call `schedule`: it is in no other call, and a worker is
running a task. -/
def MayCall (s : State ν n ε) (t : Tid n ε) : Bool :=
  match s.calls t with
  | .idle =>
      match t with
      | .external _ => true
      | .worker w =>
          match s.workers w with
          | .running => true
          | _ => false
  | _ => false

/-- A call enters with a task, which gets the next number. -/
def State.enter (s : State ν n ε) (t : Tid n ε) (node : ν)
    (pc : Task ν → SchedulePc ν n) : State ν n ε :=
  let s' : State ν n ε := { s with scheduled := s.scheduled + 1 }
  s'.callTo t (pc ⟨s.scheduled, node⟩)

/-- One step inside `schedule`. -/
def execCall (s : State ν n ε) (t : Tid n ε) :
    SchedulePc ν n → Option (State ν n ε)
  | .idle => none
  | .pushReady w task =>
      if t = .worker w ∧ (s.localQueue w).length < kLocalCapacity then
        some ((s.setLocal w (s.localQueue w ++ [task])).callTo t .idle)
      else some (s.callTo t (.addCount w task))
  | .addCount w task => some ((s.addCount w 1).callTo t (.enqueue w task))
  | .enqueue w task =>
      some ((s.setInbound w (s.inboundQueue w ++ [task])).callTo t .idle)
  | .pushGlobal task =>
      some ((s.setGlobal (s.globalQueue ++ [task])).callTo t .idle)

-- == WorkerLoop

/-- What a worker's step leaves open: the random start of `steal_task`,
the entry a dequeue takes (none: it fails, or a bulk ends), and whether a
`Steal` gets the front. -/
structure Choice where
  random : Nat := 0
  entry : Option Nat := none
  steals : Bool := false

/-- A dequeue takes the entry chosen, if there is one. -/
def dequeue (l : List (Task ν)) (entry : Option Nat) :
    Option (Task ν × List (Task ν)) :=
  entry.bind fun i => l[i]?.map fun task => (task, l.eraseIdx i)

/-- `steal_task` begins. -/
def stealStart (n random : Nat) : LoopPc ν n :=
  if n ≤ 1 then .globalLast else .stealLocal (random % n) 0

/-- One step of worker `w`. -/
def execWorker (s : State ν n ε) (w : Fin n) (choice : Choice) :
    LoopPc ν n → Option (State ν n ε)
  | .loop =>
      if s.runs then
        let tick := s.tick w + 1
        let s : State ν n ε := { s with tick := Function.update s.tick w tick }
        some (s.workerTo w
          (if tick % kGlobalCheckInterval = 0 then .globalFirst else .tryPop))
      else some (s.workerTo w .stopped)
  | .globalFirst =>
      match dequeue s.globalQueue choice.entry with
      | some (task, rest) => some ((s.setGlobal rest).workerTo w (.run task))
      | none => some (s.workerTo w .tryPop)
  | .tryPop =>
      match (s.localQueue w).getLast? with
      | some task =>
          some ((s.setLocal w (s.localQueue w).dropLast).workerTo w (.run task))
      | none => some (s.workerTo w .loadCount)
  | .loadCount =>
      if s.inboundCount w ≤ 0 then
        some (s.workerTo w (stealStart n choice.random))
      else some (s.workerTo w (.dequeueBulk []))
  | .dequeueBulk bulk =>
      match dequeue (s.inboundQueue w) choice.entry, bulk with
      | some (task, rest), _ =>
          if bulk.length < kBulk then
            some ((s.setInbound w rest).workerTo w
              (.dequeueBulk (bulk ++ [task])))
          else none
      | none, [] => some (s.workerTo w (stealStart n choice.random))
      | none, first :: rest => some (s.workerTo w (.subCount first rest))
  | .subCount first rest =>
      some ((s.addCount w (-(rest.length + 1 : Nat))).workerTo w
        (.refill first rest))
  | .refill first rest =>
      match rest with
      | [] => some (s.workerTo w (.run first))
      | task :: rest =>
          if (s.localQueue w).length < kLocalCapacity then
            some ((s.setLocal w (s.localQueue w ++ [task])).workerTo w
              (.refill first rest))
          else some (s.workerTo w (.refillAdd first task rest))
  | .refillAdd first task rest =>
      some ((s.addCount w 1).workerTo w (.refillEnqueue first task rest))
  | .refillEnqueue first task rest =>
      some ((s.setInbound w (s.inboundQueue w ++ [task])).workerTo w
        (.refill first rest))
  | .stealLocal start i =>
      if i < n then
        let victim := workerAt w.pos (start + i)
        let next : LoopPc ν n := .stealLocal start (i + 1)
        if victim = w ∨ ¬choice.steals then some (s.workerTo w next)
        else
          match s.localQueue victim with
          | [] => some (s.workerTo w next)
          | task :: rest =>
              some ((s.setLocal victim rest).workerTo w (.run task))
      else some (s.workerTo w (.stealLoadCount start 0))
  | .stealLoadCount start i =>
      if i < n then
        let victim := workerAt w.pos (start + i)
        if victim = w ∨ s.inboundCount victim ≤ 0 then
          some (s.workerTo w (.stealLoadCount start (i + 1)))
        else some (s.workerTo w (.stealDequeue start i victim))
      else some (s.workerTo w .globalLast)
  | .stealDequeue start i victim =>
      match dequeue (s.inboundQueue victim) choice.entry with
      | some (task, rest) =>
          some ((s.setInbound victim rest).workerTo w (.stealSub victim task))
      | none => some (s.workerTo w (.stealLoadCount start (i + 1)))
  | .stealSub victim task =>
      some ((s.addCount victim (-1)).workerTo w (.run task))
  | .globalLast =>
      match dequeue s.globalQueue choice.entry with
      | some (task, rest) => some ((s.setGlobal rest).workerTo w (.run task))
      | none => some (s.workerTo w .loop)
  | .run task =>
      let s : State ν n ε := { s with executed := s.executed ++ [task.number] }
      some (s.workerTo w .running)
  | .running =>
      match s.calls (.worker w) with
      | .idle => some (s.workerTo w .loop)
      | _ => none
  | .stopped => none

-- == machine

/-- What happens next. `schedule` and `scheduleTo` are calls of the two
`schedule` functions; a null task is `none`. -/
inductive Action (ν : Type) (n : Nat) (ε : Type) where
  | schedule (t : Tid n ε) (task : Option ν) (draw : Draw)
  | scheduleTo (t : Tid n ε) (task : Option ν) (threadId : Nat)
  | call (t : Tid n ε)
  | worker (w : Fin n) (choice : Choice)
  | stop

def apply : Action ν n ε → State ν n ε → Option (State ν n ε)
  | .schedule t task draw, s =>
      if MayCall s t then
        match task with
        | none => some s
        | some node =>
            (target t draw).map fun w => s.enter t node (.pushReady w)
      else none
  | .scheduleTo t task threadId, s =>
      if MayCall s t then
        match task with
        | none => some s
        | some node =>
            if h : threadId < n then
              some (s.enter t node (.pushReady ⟨threadId, h⟩))
            else some (s.enter t node .pushGlobal)
      else none
  | .call t, s => execCall s t (s.calls t)
  | .worker w choice, s => execWorker s w choice (s.workers w)
  | .stop, s => some { s with runs := false }

/-- Started workers, empty queues. -/
def machine (ν : Type) (n : Nat) (ε : Type) [DecidableEq ε] :
    Machine (State ν n ε) (Action ν n ε) where
  start s := s = {}
  apply := apply

end AntRpc.Scheduler.Executor
