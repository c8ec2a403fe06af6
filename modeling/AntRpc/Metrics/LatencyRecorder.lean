/-
`LatencyRecorder` (metrics/latency_recorder.hpp): count, total, smallest
and largest of the recorded latencies, each in an atomic word of its own.

# Calls

`RecordMicroseconds` is three retry loops, on the total, the minimum and
the maximum, and last an increment of the count. `Snapshot` loads the count
first and then the others. Every atomic operation is a step, and any number
of calls of both kinds are on their way at a time.

# History

`calls` and `readers` keep the calls that have ended. A reader remembers
the latencies that were counted when it loaded the count; no step reads
them.
-/
import AntRpc.Lib.Machine
import AntRpc.Lib.Retry

namespace AntRpc.Metrics

open Lib

structure LatencySnapshot where
  count : UInt64 := 0
  totalMicroseconds : UInt64 := 0
  minMicroseconds : UInt64 := 0
  maxMicroseconds : UInt64 := 0
  averageMicroseconds : UInt64 := 0
deriving DecidableEq, Repr

namespace LatencyRecorder

/-- `std::numeric_limits<uint64_t>::max()`. -/
def maxValue : UInt64 := 0xFFFFFFFFFFFFFFFF

-- == loops

/-- What `AddToTotal` stores; the sum stays at the largest value. -/
def nextTotal (latency current : UInt64) : Option UInt64 :=
  some (if maxValue - current < latency then maxValue else current + latency)

/-- What `UpdateMin` stores, while there is something to lower. -/
def nextMin (latency current : UInt64) : Option UInt64 :=
  if latency < current then some latency else none

/-- What `UpdateMax` stores, while there is something to raise. -/
def nextMax (latency current : UInt64) : Option UInt64 :=
  if latency > current then some latency else none

/-- Where a `RecordMicroseconds` is. -/
inductive RecordPc (latency : UInt64)
  | addToTotal (pc : Retry.Pc (nextTotal latency))
  | updateMin (pc : Retry.Pc (nextMin latency))
  | updateMax (pc : Retry.Pc (nextMax latency))
  | addCount
  | done

structure Call where
  latency : UInt64
  pc : RecordPc latency := .addToTotal .load

/-- Where a `Snapshot` is, with what it has read. -/
inductive SnapshotPc where
  | count
  | total (count : UInt64)
  | min (count total : UInt64)
  | max (count total min : UInt64)
  | done (snapshot : LatencySnapshot)
deriving DecidableEq

structure Reader where
  pc : SnapshotPc := .count
  counted : List UInt64 := []
deriving DecidableEq

end LatencyRecorder

open LatencyRecorder

structure LatencyRecorder where
  count : UInt64 := 0
  total : UInt64 := 0
  min : UInt64 := maxValue
  max : UInt64 := 0
  calls : List Call := []
  readers : List Reader := []

namespace LatencyRecorder

-- == steps

/-- The loop goes on at `stay`, or the call at `leave`. -/
def after {next : UInt64 → Option UInt64} {latency : UInt64}
    (outcome : Retry.Outcome next) (stay : Retry.Pc next → RecordPc latency)
    (leave : RecordPc latency) : RecordPc latency :=
  match outcome with
  | .goto pc => stay pc
  | .stored => leave
  | .ended => leave

/-- The next operation of a `RecordMicroseconds`. -/
def execRecord (spurious : Bool) (s : LatencyRecorder) {latency : UInt64} :
    RecordPc latency → Option (LatencyRecorder × RecordPc latency)
  | .addToTotal pc =>
      let r := Retry.step spurious s.total pc
      some ({ s with total := r.1 },
        after r.2 .addToTotal (.updateMin .load))
  | .updateMin pc =>
      let r := Retry.step spurious s.min pc
      some ({ s with min := r.1 }, after r.2 .updateMin (.updateMax .load))
  | .updateMax pc =>
      let r := Retry.step spurious s.max pc
      some ({ s with max := r.1 }, after r.2 .updateMax .addCount)
  | .addCount => some ({ s with count := s.count + 1 }, .done)
  | .done => none

/-- The latencies of the calls that have ended. -/
def counted (s : LatencyRecorder) : List UInt64 :=
  s.calls.filterMap fun c =>
    match c.pc with
    | .done => some c.latency
    | _ => none

/-- The next load of a `Snapshot`. -/
def execSnapshot (s : LatencyRecorder) (r : Reader) : Option Reader :=
  match r.pc with
  | .count =>
      some { pc := if s.count = 0 then .done {} else .total s.count
             counted := s.counted }
  | .total count => some { r with pc := .min count s.total }
  | .min count total => some { r with pc := .max count total s.min }
  | .max count total min =>
      some { r with pc := .done ⟨count, total, min, s.max, total / count⟩ }
  | .done _ => none

inductive Action where
  | record (latency : Int64)
  | recordMicroseconds (latency : UInt64)
  | step (i : Nat) (spurious : Bool)
  | snapshot
  | read (i : Nat)

def machine : Machine LatencyRecorder Action where
  start s := s = {}
  apply a s :=
    match a with
    | .record latency =>
        -- a negative duration is ignored
        if latency < 0 then some s
        else some { s with calls := s.calls ++ [{ latency := latency.toUInt64 }] }
    | .recordMicroseconds latency =>
        some { s with calls := s.calls ++ [{ latency := latency }] }
    | .step i spurious =>
        match s.calls[i]? with
        | none => none
        | some c =>
            (execRecord spurious s c.pc).map fun r =>
              { r.1 with calls := s.calls.set i ⟨c.latency, r.2⟩ }
    | .snapshot => some { s with readers := s.readers ++ [{}] }
    | .read i =>
        match s.readers[i]? with
        | none => none
        | some r =>
            (execSnapshot s r).map fun r' =>
              { s with readers := s.readers.set i r' }

end LatencyRecorder

end AntRpc.Metrics
