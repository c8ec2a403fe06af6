/-
`TimerKeeper` (scheduler/timer_keeper.hpp): threads that add and cancel
timers, and the timer thread that runs `Run`.

# Timers

A timer is its `TimerEntry`, numbered in the order of `next_seq_`. Its
task is a node of its own: a node has one `next` and is resumed once, so
it is in one timer at a time. The batch that `Run` links through `next`
is a list, head first.

# Steps

What is done under a bucket's `mu_` or under `global_mu_` is one step, as
is every access to an atomic outside of them. A read of the clock is a
step of its own or belongs to the one before. The heap and the batch are
the timer thread's alone.

# Time

A time point is an integer number of nanoseconds and the clock never goes
back. `time_point::max()` and the maximum of `int64_t` stand for "never"
and are `none` here. `global_nearest_run_time_` is written next to its
microseconds and never read, so it is left out, as are `Start`, `Stop`
and the clean-up after `Stop`: the keeper is running.

# Waiting

A wait ends when it is signalled, when its time is over, or for no
reason; so it may end at any moment.
-/
import AntRpc.Timer.Heap
import AntRpc.Lib.Machine

namespace AntRpc.Timer

open Lib

def kNumBuckets : Nat := 16
def kBucketMask : UInt64 := 15

/-- Microseconds of a time point, as `duration_cast` rounds. -/
def toUs (t : Int) : Int := t.tdiv 1000

/-- `<` on times, where `none` is never. -/
def earlier : Option Int → Option Int → Bool
  | none, _ => false
  | some _, none => true
  | some a, some b => a < b

/-- A `TimerEntry`. `freed` is whether it was deleted (history). -/
structure TimerEntry where
  id : UInt64 := 0
  expireAt : Int := 0
  ownsTaskNode : Bool := false
  canceled : Bool := false
  freed : Bool := false
deriving DecidableEq, Repr

/-- A `Bucket`: entries are known by their number. -/
structure Bucket where
  nearestRunTime : Option Int := none
  tasks : List Nat := []
  activeTimers : UInt64 → Option Nat := fun _ => none

/-- Where `AddTimer` stands. -/
inductive AddPc where
  | idle
  | fetchSeq (delay : Int) (ownsTaskNode : Bool)
  | prepare (n : Nat) (seq : UInt64) (delay : Int) (ownsTaskNode : Bool)
  | schedule (n : Nat) (bucket : Fin kNumBuckets)
  | loadGlobal (n : Nat) (timerId : UInt64) (expireAt : Int)
  | lockGlobal (n : Nat) (timerId : UInt64) (expireAt : Int)
  | signal (timerId : UInt64)
  | returned (timerId : UInt64)
deriving DecidableEq, Repr

/-- Where `Run` stands. -/
inductive RunPc where
  | reset
  | consume (i : Nat)
  | drain (i : Fin kNumBuckets) (chain : List Nat)
  | drainUnregister (i : Fin kNumBuckets) (p : Nat) (chain : List Nat)
  | drainDelete (i : Fin kNumBuckets) (p : Nat) (chain : List Nat)
  | checkTop (batch : List Nat)
  | checkGlobal (top : Nat) (batch : List Nat)
  | unregisterTop (top : Nat) (batch : List Nat)
  | checkCanceled (top : Nat) (batch : List Nat)
  | dispatch (batch : List Nat) (pullAgain : Bool)
  | prepareWait
  | waiting (deadline : Option Int)
deriving DecidableEq, Repr

/-- Who took a bucket's lock for a timer. -/
inductive LockEvent where
  | canceled (id : UInt64)
  | unregistered (n : Nat)
deriving DecidableEq, Repr

/-- The keeper, its threads and the clock. -/
structure State (τ : Type) where
  now : Int := 0
  nextSeq : UInt64 := 1
  entries : Nat → TimerEntry := fun _ => {}
  buckets : Fin kNumBuckets → Bucket := fun _ => {}
  heap : List Nat := []
  globalNearestRunTimeUs : Option Int := none
  run : RunPc := .reset
  adders : τ → AddPc := fun _ => .idle
  -- history: timers allocated; what the executor got and when; timers
  -- deleted without running, of these the tasks deleted; lock events
  allocated : Nat := 0
  handed : List (Nat × Int) := []
  discarded : List Nat := []
  tasksDeleted : List Nat := []
  events : List LockEvent := []

variable {τ : Type} [DecidableEq τ]

-- == updates

namespace State

def setBucket (s : State τ) (i : Fin kNumBuckets) (b : Bucket) : State τ :=
  { s with buckets := Function.update s.buckets i b }

def setEntry (s : State τ) (n : Nat) (e : TimerEntry) : State τ :=
  { s with entries := Function.update s.entries n e }

def adderTo (s : State τ) (t : τ) (pc : AddPc) : State τ :=
  { s with adders := Function.update s.adders t pc }

def expireAt (s : State τ) (n : Nat) : Int := (s.entries n).expireAt

/-- `Bucket::unregister`. -/
def unregister (s : State τ) (i : Fin kNumBuckets) (n : Nat) : State τ :=
  let b := s.buckets i
  let id := (s.entries n).id
  { s.setBucket i
      { b with activeTimers := Function.update b.activeTimers id none } with
    events := s.events ++ [.unregistered n] }

/-- `delete` of a canceled entry, and of its task if it owns it. -/
def discard (s : State τ) (n : Nat) : State τ :=
  let e := s.entries n
  { s.setEntry n { e with freed := true } with
    discarded := s.discarded ++ [n]
    tasksDeleted :=
      if e.ownsTaskNode then s.tasksDeleted ++ [n] else s.tasksDeleted }

end State

-- == AddTimer

/-- `(seq << 4) | (bucket_idx & kBucketMask)`. -/
def timerId (seq : UInt64) (bucket : Fin kNumBuckets) : UInt64 :=
  (seq <<< 4) ||| (UInt64.ofNat bucket.val &&& kBucketMask)

/-- `id & kBucketMask`. -/
def bucketOf (id : UInt64) : Fin kNumBuckets :=
  ⟨id.toNat % kNumBuckets, Nat.mod_lt _ (by decide)⟩

/-- `Bucket::schedule`: the bucket after it, and whether the entry is the
earliest in it. -/
def Bucket.schedule (b : Bucket) (n : Nat) (e : TimerEntry) :
    Bucket × Bool :=
  let b : Bucket :=
    { b with
      tasks := n :: b.tasks
      activeTimers := Function.update b.activeTimers e.id (some n) }
  if earlier (some e.expireAt) b.nearestRunTime then
    ({ b with nearestRunTime := some e.expireAt }, true)
  else (b, false)

/-- One step of `add_internal`; `bucket` is the random index. -/
def execAdd (s : State τ) (t : τ) (bucket : Fin kNumBuckets) :
    AddPc → Option (State τ)
  | .idle => none
  | .fetchSeq delay owns =>
      let s' : State τ :=
        { s with nextSeq := s.nextSeq + 1, allocated := s.allocated + 1 }
      some (s'.adderTo t (.prepare s.allocated s.nextSeq delay owns))
  | .prepare n seq delay owns =>
      let e : TimerEntry :=
        { id := timerId seq bucket
          expireAt := s.now + 1000 * delay
          ownsTaskNode := owns }
      some ((s.setEntry n e).adderTo t (.schedule n bucket))
  | .schedule n i =>
      let e := s.entries n
      let (b, isEarlier) := (s.buckets i).schedule n e
      some ((s.setBucket i b).adderTo t
        (if isEarlier then .loadGlobal n e.id e.expireAt else .returned e.id))
  | .loadGlobal n id expireAt =>
      some (s.adderTo t
        (if earlier (some (toUs expireAt)) s.globalNearestRunTimeUs then
          .lockGlobal n id expireAt
        else .returned id))
  | .lockGlobal _ id expireAt =>
      if earlier (some (toUs expireAt)) s.globalNearestRunTimeUs then
        let s' : State τ :=
          { s with globalNearestRunTimeUs := some (toUs expireAt) }
        some (s'.adderTo t (.signal id))
      else some (s.adderTo t (.returned id))
  | .signal id => some (s.adderTo t (.returned id))
  | .returned _ => some (s.adderTo t .idle)

/-- `CancelTimer`. -/
def cancelTimer (s : State τ) (id : UInt64) : State τ :=
  if id = 0 then s
  else
    let i := bucketOf id
    let b := s.buckets i
    let s : State τ := { s with events := s.events ++ [.canceled id] }
    match b.activeTimers id with
    | none => s
    | some n =>
        (s.setEntry n { s.entries n with canceled := true }).setBucket i
          { b with activeTimers := Function.update b.activeTimers id none }

-- == Run

/-- `Bucket::consume_tasks`: the bucket after it and the list taken. -/
def Bucket.consumeTasks (b : Bucket) : Bucket × List Nat :=
  match b.tasks with
  | [] => (b, [])
  | n :: rest => ({ b with tasks := [], nearestRunTime := none }, n :: rest)

/-- One step of `Run`. -/
def execRun (s : State τ) : RunPc → Option (State τ)
  | .reset =>
      some { s with globalNearestRunTimeUs := none, run := .consume 0 }
  | .consume i =>
      if h : i < kNumBuckets then
        let (b, chain) := (s.buckets ⟨i, h⟩).consumeTasks
        some { s.setBucket ⟨i, h⟩ b with run := .drain ⟨i, h⟩ chain }
      else some { s with run := .checkTop [] }
  | .drain i [] => some { s with run := .consume (i.val + 1) }
  | .drain i (p :: chain) =>
      if (s.entries p).canceled then
        some { s with run := .drainUnregister i p chain }
      else
        (pushHeap s.expireAt s.heap p).map fun heap =>
          { s with heap := heap, run := .drain i chain }
  | .drainUnregister i p chain =>
      some { s.unregister i p with run := .drainDelete i p chain }
  | .drainDelete i p chain =>
      some { s.discard p with run := .drain i chain }
  | .checkTop batch =>
      match s.heap with
      | [] => some { s with run := .dispatch batch false }
      | top :: _ =>
          if s.now < s.expireAt top then
            some { s with run := .dispatch batch false }
          else some { s with run := .checkGlobal top batch }
  | .checkGlobal top batch =>
      if earlier s.globalNearestRunTimeUs (some (toUs (s.expireAt top))) then
        some { s with run := .dispatch batch true }
      else
        (popHeap s.expireAt s.heap).map fun popped =>
          { s with heap := popped.2, run := .unregisterTop top batch }
  | .unregisterTop top batch =>
      let i := bucketOf (s.entries top).id
      some { s.unregister i top with run := .checkCanceled top batch }
  | .checkCanceled top batch =>
      if (s.entries top).canceled then
        some { s.discard top with run := .checkTop batch }
      else
        some { s.setEntry top { s.entries top with freed := true } with
          run := .checkTop (top :: batch) }
  | .dispatch (n :: batch) pullAgain =>
      some { s with
        handed := s.handed ++ [(n, s.now)]
        run := .dispatch batch pullAgain }
  | .dispatch [] pullAgain =>
      some { s with run := if pullAgain then .reset else .prepareWait }
  | .prepareWait =>
      let next := s.heap.head?.map s.expireAt
      let nextUs := next.map toUs
      if earlier s.globalNearestRunTimeUs nextUs then
        some { s with run := .reset }
      else
        let s : State τ := { s with globalNearestRunTimeUs := nextUs }
        match next with
        | none => some { s with run := .waiting none }
        | some t =>
            if s.now < t then some { s with run := .waiting (some t) }
            else some { s with run := .reset }
  | .waiting _ => some { s with run := .reset }

-- == machine

/-- What happens next. -/
inductive Action (τ : Type) where
  | addTimer (t : τ) (hasTask : Bool) (delay : Int) (ownsTaskNode : Bool)
  | adder (t : τ) (bucket : Fin kNumBuckets)
  | cancelTimer (id : UInt64)
  | run
  | tick (d : Nat)

def apply : Action τ → State τ → Option (State τ)
  | .addTimer t hasTask delay owns, s =>
      match s.adders t with
      | .idle =>
          some (s.adderTo t
            (if hasTask then .fetchSeq delay owns else .returned 0))
      | _ => none
  | .adder t bucket, s => execAdd s t bucket (s.adders t)
  | .cancelTimer id, s => some (cancelTimer s id)
  | .run, s => execRun s s.run
  | .tick d, s => some { s with now := s.now + d }

/-- A started keeper without timers, at any time. -/
def Start (s : State τ) : Prop := ∃ now, s = { now := now }

def machine (τ : Type) [DecidableEq τ] : Machine (State τ) (Action τ) where
  start := Start
  apply := apply

end AntRpc.Timer
