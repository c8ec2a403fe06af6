/-
`ContextTimerAwaiter` (awaiter/context_timer_awaiter.hpp): awaiters whose
timers run their callbacks on any thread, and whose coroutines the
context's IO thread resumes when it drains their mailboxes.

# Threads

`await_suspend`, the callback, the destructor and the drain each go step
by step, one step for each access to something they share. The callback
uses the context's `Notify` as a producer of its own, beside any other
producers of commands and mailboxes (`none` is a mailbox of somebody
else).

# The timer

The keeper runs a callback once at most, at any time after `AddTimer`
has been called. A cancel may come too late, so a callback may still
start after it.

# The state

`State` is shared by the awaiter and, while it runs, by the callback;
the queue holds it until it is drained. The callback's `weak_ptr` yields
it as long as the awaiter holds it. An awaiter is destroyed when it is
not in `await_suspend`, or its coroutine went on.

# History

`resumes` counts the resumptions of the coroutine, `lateResumes` those
after the awaiter's destructor had returned.
-/
import AntRpc.Context.Control

namespace AntRpc.Context.TimerAwaiter

open Lib

/-- Where `co_await` stands. -/
inductive SuspendPc where
  | constructed
  | ready
  | storeHandle
  | addTimer
  | storeId
  | suspended
deriving DecidableEq, Repr

/-- Where the timer's callback stands. -/
inductive CallbackPc where
  | unarmed
  | pending
  | exchange
  | notify
  | done
deriving DecidableEq, Repr

/-- Where the destructor stands. -/
inductive DestroyPc where
  | alive
  | checkId
  | exchange
  | cancel
  | release
  | destroyed
deriving DecidableEq, Repr

/-- A `ContextTimerAwaiter` and its `State`. -/
structure Awaiter where
  suspend : SuspendPc := .constructed
  callback : CallbackPc := .unarmed
  destroy : DestroyPc := .alive
  timerId : UInt64 := 0
  armed : Bool := true
  handle : Bool := false
  resumes : Nat := 0
  lateResumes : Nat := 0
deriving DecidableEq

/-- The threads that use the context's queues. -/
inductive Thread (ι : Type) where
  | callback (i : ι)
  | other (n : Nat)
deriving DecidableEq

structure State (ι α : Type) where
  context : Control.State (Thread ι) α (Option ι) := {}
  /-- the mailbox the IO thread has taken out -/
  draining : Option ι := none
  awaiters : ι → Awaiter := fun _ => {}

variable {ι α : Type}

-- == awaiter

namespace Awaiter

/-- `await_ready`. -/
def awaitReady (delay : Int64) : Bool := delay ≤ 0

def coAwait (x : Awaiter) (delay : Int64) : Option Awaiter :=
  if x.suspend = .constructed ∧ x.destroy = .alive then
    some { x with
      suspend := if awaitReady delay then .ready else .storeHandle }
  else none

/-- A step of `await_suspend`; `id` is what `AddTimer` returns. -/
def awaitSuspend (x : Awaiter) (id : UInt64) : Option Awaiter :=
  match x.suspend with
  | .storeHandle => some { x with handle := true, suspend := .addTimer }
  | .addTimer => some { x with callback := .pending, suspend := .storeId }
  | .storeId => some { x with timerId := id, suspend := .suspended }
  | _ => none

/-- A step of the callback up to `Notify`: `weak_state.lock()`, then the
exchange in `Fire`. -/
def fire (x : Awaiter) : Option Awaiter :=
  match x.callback with
  | .pending =>
      some { x with
        callback := if x.destroy = .destroyed then .done else .exchange }
  | .exchange =>
      some { x with
        armed := false
        callback := if x.armed then .notify else .done }
  | _ => none

/-- A step of the destructor. -/
def destruct (x : Awaiter) : Option Awaiter :=
  match x.destroy with
  | .alive =>
      match x.suspend with
      | .constructed | .ready | .suspended =>
          some { x with destroy := .checkId }
      | _ => if 0 < x.resumes then some { x with destroy := .checkId }
          else none
  | .checkId =>
      some { x with
        destroy := if x.timerId = 0 then .release else .exchange }
  | .exchange =>
      some { x with
        armed := false
        destroy := if x.armed then .cancel else .release }
  | .cancel => some { x with destroy := .release }
  | .release => some { x with destroy := .destroyed }
  | .destroyed => none

/-- `State::DrainCommandsOnIoThread`. -/
def drainCommands (x : Awaiter) : Awaiter :=
  if x.handle then
    { x with
      handle := false
      resumes := x.resumes + 1
      lateResumes :=
        if x.destroy = .destroyed then x.lateResumes + 1
        else x.lateResumes }
  else x

end Awaiter

-- == machine

/-- What others do with the context, and what `Notify` does after its
push. -/
def foreign : Control.Action (Thread ι) α (Option ι) → Bool
  | .post (.other _) _ | .notify (.other _) none => true
  | .producer _ | .wakeup | .drain => true
  | _ => false

inductive Action (ι α : Type) where
  | coAwait (i : ι) (delay : Int64)
  | awaitSuspend (i : ι) (id : UInt64)
  | callback (i : ι)
  | destroy (i : ι)
  | context (a : Control.Action (Thread ι) α (Option ι))
  | io
  | drainCommands

variable [DecidableEq ι]

def State.setAwaiter (s : State ι α) (i : ι) (x : Awaiter) : State ι α :=
  { s with awaiters := Function.update s.awaiters i x }

/-- The callback pushes its mailbox. -/
def notify (cfg : Control.Config) (s : State ι α) (i : ι) :
    Option (State ι α) :=
  (Control.apply cfg (.notify (.callback i) (some i)) s.context).map
    fun context =>
      { s with context := context }.setAwaiter i
        { s.awaiters i with callback := .done }

/-- The mailbox a step of the drain takes out. -/
def popped (c : Control.State (Thread ι) α (Option ι)) : Option ι :=
  if c.io = .mailboxes then c.mailboxes.head?.join else none

def apply (cfg : Control.Config) : Action ι α → State ι α →
    Option (State ι α)
  | .coAwait i delay, s =>
      ((s.awaiters i).coAwait delay).map (s.setAwaiter i)
  | .awaitSuspend i id, s =>
      ((s.awaiters i).awaitSuspend id).map (s.setAwaiter i)
  | .callback i, s =>
      if (s.awaiters i).callback = .notify then notify cfg s i
      else ((s.awaiters i).fire).map (s.setAwaiter i)
  | .destroy i, s => ((s.awaiters i).destruct).map (s.setAwaiter i)
  | .context a, s =>
      if foreign a then
        (Control.apply cfg a s.context).map fun context =>
          { s with context := context }
      else none
  | .io, s =>
      if s.draining = none then
        (Control.apply cfg .io s.context).map fun context =>
          { s with context := context, draining := popped s.context }
      else none
  | .drainCommands, s =>
      s.draining.map fun i =>
        { s with draining := none }.setAwaiter i
          (s.awaiters i).drainCommands

def machine (cfg : Control.Config) :
    Machine (State ι α) (Action ι α) where
  start := (· = {})
  apply := apply cfg

end AntRpc.Context.TimerAwaiter
