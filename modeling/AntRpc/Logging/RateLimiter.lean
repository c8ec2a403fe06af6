/-
`RateLimiter` (logging/logging.hpp): at most one warning of an event per
interval, and a count of those left out.

# Steps

`Allow` is a retry loop on `next_ms_` and, when the loop ends without a
store, an increment of `suppressed_`. Any number of threads are in it, each
with its own clock value and interval (`Write` reads both before the call,
and the interval may be configured to anything); an atomic operation is one
step. `TakeSuppressed` is one exchange.

# History

`allowed` are the calls that returned true, in this order; `refused` counts
those that returned false; `taken` adds up what `TakeSuppressed` returned.
No step reads them.
-/
import AntRpc.Lib.Machine
import AntRpc.Lib.Retry

namespace AntRpc.Logging

open Lib

/-- `Allow` stores `now_ms + interval_ms` over a time that has come. -/
def nextMs (now interval next : UInt64) : Option UInt64 :=
  if now ≥ next then some (now + interval) else none

/-- Where a thread is in `Allow`. -/
inductive AllowPc where
  | idle
  | loop (now interval : UInt64) (pc : Retry.Pc (nextMs now interval))
  | suppress

/-- A call of `Allow`. -/
structure Call where
  now : UInt64
  interval : UInt64
deriving DecidableEq, Repr

structure RateLimiter where
  next : UInt64 := 0
  suppressed : UInt64 := 0
  threads : Nat → AllowPc := fun _ => .idle
  allowed : List Call := []
  refused : Nat := 0
  taken : Nat := 0

inductive Action where
  | allow (t : Nat) (now interval : UInt64)
  | step (t : Nat) (spurious : Bool)
  | takeSuppressed

def RateLimiter.goto (s : RateLimiter) (t : Nat) (pc : AllowPc) :
    RateLimiter :=
  { s with threads := Function.update s.threads t pc }

/-- The next atomic operation of a thread. -/
def exec (t : Nat) (spurious : Bool) (s : RateLimiter) :
    Option RateLimiter :=
  match s.threads t with
  | .idle => none
  | .loop now interval pc =>
      match Retry.step spurious s.next pc with
      | (_, .goto pc') => some (s.goto t (.loop now interval pc'))
      | (next, .stored) =>
          some { s.goto t .idle with
            next := next
            allowed := s.allowed ++ [⟨now, interval⟩] }
      | (_, .ended) => some (s.goto t .suppress)
  | .suppress =>
      some { s.goto t .idle with
        suppressed := s.suppressed + 1
        refused := s.refused + 1 }

def machine : Machine RateLimiter Action where
  start s := s = {}
  apply a s :=
    match a with
    | .allow t now interval =>
        match s.threads t with
        | .idle => some (s.goto t (.loop now interval .load))
        | _ => none
    | .step t spurious => exec t spurious s
    | .takeSuppressed =>
        some { s with
          suppressed := 0
          taken := s.taken + s.suppressed.toNat }

end AntRpc.Logging
