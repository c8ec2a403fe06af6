/-
`WhenAnyAwaiter` (coroutine/operator/when_any.hpp): a coroutine waits for
the first of two tasks.

# Who runs what

`await_suspend` runs on the parent's thread. It starts the two detached
coroutines `RunFirst` and `RunSecond`, each of which runs inside it until
its task suspends or is over (`inTask`); a task that has suspended goes
on anywhere, so its steps and those of `await_suspend` interleave. When
a task is over its result or exception is stored and `Complete` runs.

# The parent

It goes on when `await_suspend` returns false or when it is resumed, and
then takes the result in `await_resume`. Both are recorded in
`continued`, what it took in `observed`. Moving a value out of its
`optional` leaves the `optional` engaged: `moved` marks it, and a second
move finds nothing defined.
-/
import AntRpc.Lib.Machine

namespace AntRpc.Coroutine

open Lib

/-- The two tasks, 0 and 1 in `winner`. -/
inductive Index where
  | first
  | second
deriving DecidableEq, Repr

/-- What one task leaves: `first_result` and `first_exception`, or
`second_result` and `second_exception`. -/
structure Branch (ε α : Type) where
  result : Option α := none
  exception : Option ε := none
  moved : Bool := false
deriving DecidableEq

/-- What `co_await when_any(...)` comes to. Taking a value that is not
there is undefined. -/
inductive Outcome (ε φ ψ : Type) where
  | first (value : φ)
  | second (value : ψ)
  | thrown (e : ε)
  | undefined
deriving DecidableEq

variable {ε α φ ψ κ : Type}

/-- `try { result.emplace(co_await task); } catch (...) { ... }`. -/
def Branch.store (b : Branch ε α) : Except ε α → Branch ε α
  | .ok value => { b with result := some value }
  | .error e => { b with exception := some e }

/-- Rethrow the exception, or move the value out. -/
def Branch.take (b : Branch ε α) (wrap : α → Outcome ε φ ψ) :
    Outcome ε φ ψ × Branch ε α :=
  match b.exception with
  | some e => (.thrown e, b)
  | none =>
      match b.result with
      | none => (.undefined, b)
      | some value =>
          (if b.moved then .undefined else wrap value,
            { b with moved := true })

/-- `WhenAnyAwaiter::State`; `winner` is `none` for -1. -/
structure Shared (ε φ ψ κ : Type) where
  first : Branch ε φ := {}
  second : Branch ε ψ := {}
  winner : Option Index := none
  starting : Bool := false
  parent : Option κ := none
deriving DecidableEq

/-- `await_resume`. -/
def awaitResume (s : Shared ε φ ψ κ) : Outcome ε φ ψ × Shared ε φ ψ κ :=
  if s.winner = some .first then
    let taken := s.first.take .first
    (taken.1, { s with first := taken.2 })
  else
    let taken := s.second.take .second
    (taken.1, { s with second := taken.2 })

/-- Where `await_suspend` stands. -/
inductive AwaitPc where
  | storeParent
  | storeStarting
  | runFirst
  | inTask (i : Index)
  | runSecond
  | clearStarting
  | readWinner
  | returned (suspended : Bool)
deriving DecidableEq, Repr

/-- The coroutine of task `i` suspends or is over: if it ran inside
`await_suspend`, that goes on. -/
def AwaitPc.leave (p : AwaitPc) (i : Index) : AwaitPc :=
  if p = .inTask i then
    match i with
    | .first => .runSecond
    | .second => .clearStarting
  else p

/-- Where a detached coroutine stands: before its start, in its task, or
in `Complete`. -/
inductive TaskPc where
  | unstarted
  | running
  | casWinner
  | loadStarting
  | resume
  | done
deriving DecidableEq, Repr

/-- How the parent came to go on. -/
inductive Continuation (κ : Type) where
  | notSuspended
  | resumed (handle : κ)
deriving DecidableEq

structure State (ε φ ψ κ : Type) where
  shared : Shared ε φ ψ κ := {}
  await : AwaitPc := .storeParent
  tasks : Index → TaskPc := fun _ => .unstarted
  continued : List (Continuation κ) := []
  observed : List (Outcome ε φ ψ) := []

namespace State

def goto (s : State ε φ ψ κ) (i : Index) (p : TaskPc) : State ε φ ψ κ :=
  { s with tasks := Function.update s.tasks i p }

/-- `RunFirst` or `RunSecond` starts inside `await_suspend`. -/
def launch (s : State ε φ ψ κ) (i : Index) : State ε φ ψ κ :=
  { s with await := .inTask i }.goto i .running

/-- The coroutine of task `i` is over. -/
def finish (s : State ε φ ψ κ) (i : Index) : State ε φ ψ κ :=
  { s with await := s.await.leave i }.goto i .done

end State

/-- `await_suspend(parent)`. -/
def execAwait (parent : κ) (s : State ε φ ψ κ) :
    Option (State ε φ ψ κ) :=
  match s.await with
  | .storeParent =>
      some { s with
        shared := { s.shared with parent := some parent }
        await := .storeStarting }
  | .storeStarting =>
      some { s with
        shared := { s.shared with starting := true }
        await := .runFirst }
  | .runFirst => some (s.launch .first)
  | .runSecond => some (s.launch .second)
  | .inTask _ => none
  | .clearStarting =>
      some { s with
        shared := { s.shared with starting := false }
        await := .readWinner }
  | .readWinner =>
      if s.shared.winner = none then
        some { s with await := .returned true }
      else
        some { s with
          await := .returned false
          continued := s.continued ++ [.notSuspended] }
  | .returned _ => none

/-- `Complete(state, i)`. -/
def execComplete (i : Index) (s : State ε φ ψ κ) :
    Option (State ε φ ψ κ) :=
  match s.tasks i with
  | .casWinner =>
      if s.shared.winner = none then
        some ({ s with
          shared := { s.shared with winner := some i } }.goto i
            .loadStarting)
      else some (s.finish i)
  | .loadStarting =>
      if s.shared.starting then some (s.finish i)
      else some (s.goto i .resume)
  | .resume =>
      match s.shared.parent with
      | none => none
      | some handle =>
          let s' : State ε φ ψ κ :=
            { s with continued := s.continued ++ [.resumed handle] }
          some (s'.finish i)
  | .unstarted | .running | .done => none

inductive Action (ε φ ψ : Type) where
  | await
  | suspend (i : Index)
  | firstEnds (outcome : Except ε φ)
  | secondEnds (outcome : Except ε ψ)
  | complete (i : Index)
  | parent

def apply (parent : κ) (a : Action ε φ ψ) (s : State ε φ ψ κ) :
    Option (State ε φ ψ κ) :=
  match a with
  | .await => execAwait parent s
  | .suspend i =>
      -- a task suspends for the first time inside `await_suspend`
      if s.await = .inTask i ∧ s.tasks i = .running then
        some { s with await := s.await.leave i }
      else none
  | .firstEnds outcome =>
      if s.tasks .first = .running then
        some ({ s with
          shared := { s.shared with
            first := s.shared.first.store outcome } }.goto .first
              .casWinner)
      else none
  | .secondEnds outcome =>
      if s.tasks .second = .running then
        some ({ s with
          shared := { s.shared with
            second := s.shared.second.store outcome } }.goto .second
              .casWinner)
      else none
  | .complete i => execComplete i s
  | .parent =>
      if s.observed.length < s.continued.length then
        let taken := awaitResume s.shared
        some { s with
          shared := taken.2
          observed := s.observed ++ [taken.1] }
      else none

/-- `co_await when_any(first, second)` in the coroutine `parent`. -/
def machine (parent : κ) :
    Machine (State ε φ ψ κ) (Action ε φ ψ) where
  start := (· = {})
  apply := apply parent

end AntRpc.Coroutine
