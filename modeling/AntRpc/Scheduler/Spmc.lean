/-
`SPMCQueue` (scheduler/spmc_queue.hpp): the bounded work-stealing deque.
One owner pushes and pops at the bottom, thieves steal at the top.

# Steps

Every load, store and compare-exchange of `top_`, `bottom_` and a cell of
`buffer_` is one step, and the steps of all threads interleave. What a
thread computes between two of them belongs to the earlier one.
`cached_top_` is the owner's alone. An operation that is over leaves its
result at the program point (`pushed`, `popped`, `stole`) until the
thread goes on (`collect`).

# Indices

`top_` and `bottom_` are unbounded integers: to leave `int64_t` takes
2^63 pushes. `i & kMask` is `i` modulo `kMaxSize`, a power of two.

# History

`log` are the items `Push` stored, in order, and `deque` is the ledger of
their numbers: what is in the queue, what `TryPop` took and what `Steal`
took. `took` at a program point is the number the operation took. No step
reads them to decide what it does to the queue.
-/
import AntRpc.Lib.Machine
import AntRpc.Lib.Deque

namespace AntRpc.Scheduler.Spmc

open Lib

variable {α τ : Type}

/-- `kMaxSize`, by its exponent. -/
def kMaxSize (k : Nat) : Nat := 2 ^ k

/-- `i & kMask`. -/
def cell (k : Nat) (i : Int) : Nat := (i % (kMaxSize k : Int)).toNat

/-- Where the owner stands. -/
inductive OwnerPc (α : Type) where
  | idle
  | pushLoadBottom (o : α)
  | pushLoadTop (o : α) (b : Int)
  | pushStoreItem (o : α) (b : Int)
  | pushStoreBottom (o : α) (b : Int)
  | pushed (accepted : Bool)
  | popLoadBottom
  | popStoreBottom (b : Int)
  | popLoadTop (b : Int)
  | popLoadItem (b t : Int) (took : Option Nat)
  | popCas (b t : Int) (item : α)
  | popRestore (b : Int) (item : α) (took : Option Nat)
  | popped (item : α) (took : Option Nat)
deriving DecidableEq

/-- Where a thief stands. -/
inductive ThiefPc (α : Type) where
  | idle
  | loadTop
  | loadBottom (t : Int)
  | loadItem (t : Int)
  | cas (t : Int) (item : α)
  | stole (item : α) (took : Option Nat)
deriving DecidableEq

/-- The queue and its threads. -/
structure State (α τ : Type) where
  top : Int := 0
  bottom : Int := 0
  cachedTop : Int := 0
  buffer : Nat → α
  owner : OwnerPc α := .idle
  thieves : τ → ThiefPc α := fun _ => .idle
  -- history
  log : List α := []
  deque : Deque := {}

/-- `Push` and `TryPop`, one step. -/
def execOwner (k : Nat) (null : α) (s : State α τ) :
    OwnerPc α → Option (State α τ)
  | .idle => none
  | .pushLoadBottom o =>
      if s.bottom - s.cachedTop ≥ kMaxSize k then
        some { s with owner := .pushLoadTop o s.bottom }
      else some { s with owner := .pushStoreItem o s.bottom }
  | .pushLoadTop o b =>
      let s : State α τ := { s with cachedTop := s.top }
      if b - s.cachedTop ≥ kMaxSize k then
        some { s with owner := .pushed false }
      else some { s with owner := .pushStoreItem o b }
  | .pushStoreItem o b =>
      some { s with
        buffer := Function.update s.buffer (cell k b) o
        owner := .pushStoreBottom o b }
  | .pushStoreBottom o b =>
      some { s with
        bottom := b + 1
        owner := .pushed true
        log := s.log ++ [o]
        deque := s.deque.push }
  | .pushed _ => some { s with owner := .idle }
  | .popLoadBottom =>
      some { s with owner := .popStoreBottom (s.bottom - 1) }
  | .popStoreBottom b =>
      some { s with bottom := b, owner := .popLoadTop b }
  | .popLoadTop b =>
      if s.top < b then
        -- no thief can reach the back any more: it is taken here
        some { s with
          owner := .popLoadItem b s.top s.deque.inside.getLast?
          deque := s.deque.popBack }
      else if s.top = b then
        some { s with owner := .popLoadItem b s.top none }
      else some { s with owner := .popRestore b null none }
  | .popLoadItem b t took =>
      let item := s.buffer (cell k b)
      if t = b then some { s with owner := .popCas b t item }
      else some { s with owner := .popped item took }
  | .popCas b t item =>
      if s.top = t then
        some { s with
          top := t + 1
          owner := .popRestore b item s.deque.inside.getLast?
          deque := s.deque.popBack }
      else some { s with owner := .popRestore b null none }
  | .popRestore b item took =>
      some { s with bottom := b + 1, owner := .popped item took }
  | .popped _ _ => some { s with owner := .idle }

variable [DecidableEq τ]

def State.thiefTo (s : State α τ) (i : τ) (pc : ThiefPc α) : State α τ :=
  { s with thieves := Function.update s.thieves i pc }

/-- `Steal`, one step. -/
def execThief (k : Nat) (null : α) (i : τ) (s : State α τ) :
    ThiefPc α → Option (State α τ)
  | .idle => none
  | .loadTop => some (s.thiefTo i (.loadBottom s.top))
  | .loadBottom t =>
      if t < s.bottom then some (s.thiefTo i (.loadItem t))
      else some (s.thiefTo i (.stole null none))
  | .loadItem t => some (s.thiefTo i (.cas t (s.buffer (cell k t))))
  | .cas t item =>
      if s.top = t then
        let s' : State α τ :=
          { s with top := t + 1, deque := s.deque.popFront }
        some (s'.thiefTo i (.stole item s.deque.inside.head?))
      else some (s.thiefTo i (.stole null none))
  | .stole _ _ => some (s.thiefTo i .idle)

/-- What happens next. -/
inductive Action (α τ : Type) where
  | push (o : α)
  | tryPop
  | owner
  | steal (i : τ)
  | thief (i : τ)

def apply (k : Nat) (null : α) : Action α τ → State α τ → Option (State α τ)
  | .push o, s =>
      match s.owner with
      | .idle => some { s with owner := .pushLoadBottom o }
      | _ => none
  | .tryPop, s =>
      match s.owner with
      | .idle => some { s with owner := .popLoadBottom }
      | _ => none
  | .owner, s => execOwner k null s s.owner
  | .steal i, s =>
      match s.thieves i with
      | .idle => some (s.thiefTo i .loadTop)
      | _ => none
  | .thief i, s => execThief k null i s (s.thieves i)

/-- A new queue; its cells hold anything. -/
def Start (s : State α τ) : Prop := ∃ buffer, s = { buffer := buffer }

def machine (k : Nat) (null : α) : Machine (State α τ) (Action α τ) where
  start := Start
  apply := apply k null

end AntRpc.Scheduler.Spmc
