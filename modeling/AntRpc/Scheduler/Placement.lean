/-
Where new channels and accepted sockets are placed: `GetBalancedIOContext`
(scheduler/scheduler.hpp) and `DispatchAcceptedSocket`
(rpc/server/rpc_server.hpp), two versions of the power of two choices.

Both draw candidates from a counter that every call advances, and take the
candidate with fewer pending commands, the first on a tie. The counter is a
`std::size_t` and wraps; how many commands each context reports at a call
is the environment's.
-/
import Mathlib

namespace AntRpc.Scheduler.Placement

/-- The IO contexts. They are the elements of a vector of pointers, which
cannot be longer than a vector of 8-byte elements can be. -/
structure Contexts where
  size : Nat
  pos : 0 < size := by decide
  few : size ≤ 2 ^ 60 := by decide

variable (contexts : Contexts)

/-- `counter % io_contexts_.size()`. -/
def Contexts.at (counter : UInt64) : Nat := counter.toNat % contexts.size

/-- The better of two candidates. -/
def better (pending : Nat → Nat) (first second : Nat) : Nat :=
  if pending first ≤ pending second then first else second

/-- `GetBalancedIOContext`: the chosen context, and the counter after two
increments. -/
def getBalancedIOContext (pending : Nat → Nat) (next : UInt64) :
    Nat × UInt64 :=
  let first := contexts.at next
  let second := contexts.at (next + 1)
  (better pending first second, next + 1 + 1)

/-- The choice of `DispatchAcceptedSocket`: one increment, and the context
after the first as the second candidate. -/
def dispatchAcceptedSocket (pending : Nat → Nat) (next : UInt64) :
    Nat × UInt64 :=
  let first := contexts.at next
  let second := (first + 1) % contexts.size
  (better pending first second, next + 1)

/-- Calls one after the other, with what the contexts report at each. -/
def placements (place : (Nat → Nat) → UInt64 → Nat × UInt64) :
    List (Nat → Nat) → UInt64 → List Nat
  | [], _ => []
  | pending :: calls, next =>
      let (chosen, next) := place pending next
      chosen :: placements place calls next

end AntRpc.Scheduler.Placement
