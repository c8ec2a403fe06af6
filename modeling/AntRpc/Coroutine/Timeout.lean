/-
`with_timeout` (awaiter/timeput_awaiter.hpp): a coroutine waits for a
child task (`HttpTask`, type.hpp) that a timer asks to stop.

# Four parties

`await_suspend` of `TimeoutAwaiter` runs on the parent's thread. The
child starts inside it and runs there until it suspends for the first
time or is over (`inTask`); only then are the stop token and the
continuation put into its promise, and the timer is added last. The
timer's callback runs on a worker and requests the stop, which calls
back whoever has bound a callback to the token. A socket awaiter
(`BaseAwaiter`, awaiter/epoll_socket_awaiter.hpp) takes the promise's
token when it suspends, and its callback sends a `CancelMailbox` to the
IO thread (`Context.Control`), which cancels the awaiter if it is still
there.

# The child

What the child does between two suspensions is its own business: it may
await a socket, suspend on anything else, or end. A socket is awaited on
the IO thread, so its loop stands still while the child is inside the
awaiter (`onIo`); the other steps interleave freely. Awaiters are
numbered, and at each time one of them at the most exists, so at most
one callback is bound to the source.

# What is left out

The three socket awaiters differ in the system call they try and in its
buffers; here they are one. The timer is `TimerKeeper` seen from
outside: it may fire at any time after it was added, unless it was
canceled before. A child that hands its token on to others.

# History

`resumes` counts how often the parent was resumed, `completions` are the
results of the awaiters. An awaiter is `early` if it was suspended on
before the token was installed. No step reads them.
-/
import AntRpc.Context.Control

namespace AntRpc.Coroutine.Timeout

open Lib Context

/-- What the IO thread finds in its mailboxes: a `CancelMailbox` with the
anchor of an awaiter, or somebody else's. -/
inductive Mailbox where
  | cancel (awaiter : Nat)
  | other (n : Nat)
deriving DecidableEq, Repr

/-- Who calls `Notify`. -/
inductive Poster where
  | timer
  | child
  | other (n : Nat)
deriving DecidableEq, Repr

/-- `ECANCELED`. -/
def ecanceled : Int := 125

-- == the parts

/-- Where `TimeoutAwaiter::await_suspend` stands. -/
inductive LauncherPc where
  | launch
  | inTask
  | setStopToken
  | setContinuation
  | resumeParent
  | addTimer
  | storeTimerId
  | returned
deriving DecidableEq, Repr

/-- The child's promise has no token yet. -/
def LauncherPc.beforeToken : LauncherPc → Bool
  | .launch | .inTask | .setStopToken | .resumeParent => true
  | .setContinuation | .addTimer | .storeTimerId | .returned => false

/-- The child suspends or is over: if it ran inside `await_suspend`,
that goes on. -/
def LauncherPc.leave : LauncherPc → LauncherPc
  | .inTask => .setStopToken
  | p => p

/-- Where the child stands: in its own code, in a socket awaiter's
`await_suspend` (`capture` to `notifying`), suspended on it, suspended on
something else, or leaving an awaiter (`resumed`, `unbind`). -/
inductive ChildPc where
  | absent
  | running
  | capture
  | tryIo
  | bind
  | notifying
  | suspended
  | elsewhere
  | resumed
  | unbind
  | finished
deriving DecidableEq, Repr

/-- The child is on the IO thread, inside an awaiter. -/
def ChildPc.onIo : ChildPc → Bool
  | .capture | .tryIo | .bind | .notifying | .resumed | .unbind => true
  | .absent | .running | .suspended | .elsewhere | .finished => false

/-- Where the timer and its callback stand. -/
inductive TimerPc where
  | unset
  | waiting
  | canceled
  | check
  | requestStop
  | callbacks
  | callback (awaiter : Nat)
  | notifying (awaiter : Nat)
  | done
deriving DecidableEq, Repr

/-- The delay has elapsed. -/
def TimerPc.fired : TimerPc → Bool
  | .unset | .waiting | .canceled => false
  | .check | .requestStop | .callbacks | .callback _ | .notifying _
  | .done => true

/-- `HttpTask::promise_type`: whether it has a token and a
continuation. -/
structure Promise where
  token : Bool := false
  continuation : Bool := false
deriving DecidableEq, Repr

/-- `std::stop_source`: whether a stop was requested, and the awaiter
whose callback is registered. -/
structure StopSource where
  requested : Bool := false
  callback : Option Nat := none
deriving DecidableEq, Repr

/-- `BaseAwaiter`: `token` is `token.stop_possible()`, `callback` that
the optional is engaged, `anchor` that the anchor still points to it. -/
structure BaseAwaiter where
  id : Nat
  token : Bool := false
  callback : Bool := false
  done : Bool := false
  anchor : Bool := true
  res : Int := 0
  early : Bool := false
deriving DecidableEq, Repr

structure State where
  launcher : LauncherPc := .launch
  child : ChildPc := .absent
  promise : Promise := {}
  awaiter : Option BaseAwaiter := none
  nextId : Nat := 0
  source : StopSource := {}
  timer : TimerPc := .unset
  /-- `timer_id_ != 0` -/
  timerId : Bool := false
  context : Control.State Poster Unit Mailbox := {}
  /-- how often the parent has been through `await_resume` -/
  taken : Nat := 0
  resumes : Nat := 0
  completions : List (Nat × Int) := []

variable (cfg : Control.Config)

namespace State

/-- The child suspends at `p`. -/
def suspend (s : State) (p : ChildPc) : State :=
  { s with child := p, launcher := s.launcher.leave }

/-- A step of the context. -/
def post (s : State) (a : Control.Action Poster Unit Mailbox)
    (after : State → State) : Option State :=
  (Control.apply cfg a s.context).map fun c =>
    after { s with context := c }

/-- `prepare_complete(res, 0); Finish();`. -/
def complete (s : State) (a : BaseAwaiter) (res : Int) : State :=
  let s' : State :=
    { s with awaiter := some { a with res := res, done := true } }
  if a.done then s'
  else
    { s' with
      child := .resumed
      completions := s.completions ++ [(a.id, res)] }

/-- `CancelOnIoThread`. -/
def cancelOnIoThread (s : State) (a : BaseAwaiter) : State :=
  if a.done then s else s.complete a (-ecanceled)

/-- `CancelMailbox::DrainCommandsOnIoThread`. -/
def drain (s : State) : Option Mailbox → State
  | some (.cancel k) =>
      match s.awaiter with
      | some a =>
          if a.id = k ∧ a.anchor = true then s.cancelOnIoThread a else s
      | none => s
  | some (.other _) | none => s

end State

-- == the steps

/-- `await_suspend`, after `task_func_()` has returned. -/
def execLauncher (s : State) : Option State :=
  match s.launcher with
  | .launch | .inTask | .returned => none
  | .setStopToken =>
      some { s with
        promise := { s.promise with token := true }
        launcher := .setContinuation }
  | .setContinuation =>
      some { s with
        promise := { s.promise with continuation := true }
        launcher := .addTimer }
  | .resumeParent =>
      some { s with resumes := s.resumes + 1, launcher := .returned }
  | .addTimer =>
      some { s with timer := .waiting, launcher := .storeTimerId }
  | .storeTimerId =>
      some { s with timerId := true, launcher := .returned }

/-- `FinalAwaiter::await_suspend`: to the parent, if there is one. -/
def finalSuspend (s : State) : State :=
  let s' := s.suspend .finished
  if s.promise.continuation then { s' with resumes := s.resumes + 1 }
  else s'

/-- The callback's constructor runs it if a stop was requested, and
registers it otherwise. -/
def bindStopCallback (s : State) (a : BaseAwaiter) : Option State :=
  if a.token then
    let s' : State := { s with awaiter := some { a with callback := true } }
    if s.source.requested then
      s'.post cfg (.notify .child (.cancel a.id)) fun s' =>
        { s' with child := .notifying }
    else
      some (State.suspend { s' with
        source := { s.source with callback := some a.id } } .suspended)
  else some (s.suspend .suspended)

/-- The callback's destructor deregisters it, or waits while it runs on
another thread. -/
def destroyCallback (s : State) (a : BaseAwaiter) : Option State :=
  let s' : State := { s with child := .running, awaiter := none }
  if a.callback = true ∧ s.source.callback = some a.id then
    some { s' with source := { s.source with callback := none } }
  else if a.callback = true
      ∧ (s.timer = .callback a.id ∨ s.timer = .notifying a.id) then none
  else some s'

/-- The child inside a socket awaiter. -/
def execChild (s : State) : Option State :=
  match s.awaiter with
  | none => none
  | some a =>
      match s.child with
      | .capture =>
          some { s with
            child := .tryIo
            awaiter := some { a with
              token := s.promise.token
              early := s.launcher.beforeToken } }
      | .bind => bindStopCallback cfg s a
      | .notifying =>
          if s.context.producers .child = .idle then
            some (s.suspend .suspended)
          else s.post cfg (.producer .child) id
      | .resumed =>
          some { s with
            child := .unbind, awaiter := some { a with anchor := false } }
      | .unbind => destroyCallback s a
      | .absent | .running | .tryIo | .suspended | .elsewhere
      | .finished => none

/-- `TryRead` or `TryWrite` in `await_suspend`: its result, or that the
call would block. -/
def tryIo (outcome : Option Int) (s : State) : Option State :=
  match s.awaiter with
  | none => none
  | some a =>
      if s.child = .tryIo then
        match outcome with
        | none => some { s with child := .bind }
        | some n =>
            some { s with
              child := .resumed
              awaiter := some { a with res := n }
              completions := s.completions ++ [(a.id, n)] }
      else none

/-- `on_complete`: the loop calls the awaiter that waits. -/
def onComplete (outcome : Option Int) (s : State) : Option State :=
  match s.awaiter with
  | none => none
  | some a =>
      if s.child = .suspended ∧ s.context.io = .outside then
        match outcome with
        | none => some s
        | some n => some (s.complete a n)
      else none

/-- The timer's callback. -/
def execTimer (s : State) : Option State :=
  match s.timer with
  | .unset | .waiting | .canceled | .done => none
  | .check =>
      if s.source.requested then some { s with timer := .done }
      else some { s with timer := .requestStop }
  | .requestStop =>
      some { s with
        source := { s.source with requested := true }
        timer := .callbacks }
  | .callbacks =>
      match s.source.callback with
      | none => some { s with timer := .done }
      | some k =>
          some { s with
            source := { s.source with callback := none }
            timer := .callback k }
  | .callback k =>
      s.post cfg (.notify .timer (.cancel k)) fun s' =>
        { s' with timer := .notifying k }
  | .notifying _ =>
      if s.context.producers .timer = .idle then
        some { s with timer := .callbacks }
      else s.post cfg (.producer .timer) id

/-- The mailbox the next step of a drain takes out. -/
def headMailbox (c : Control.State Poster Unit Mailbox) : Option Mailbox :=
  if c.io = .mailboxes then c.mailboxes.head? else none

/-- The IO thread's loop: `epoll_wait` reports the eventfd while it is
readable, and a drain runs what it takes out. -/
def execLoop (s : State) : Option State :=
  if s.child.onIo = true then none
  else if s.context.io = .outside then
    if 0 < s.context.wakeupFd then s.post cfg .drain id else none
  else s.post cfg .io fun s' => s'.drain (headMailbox s.context)

inductive Action where
  | launch (engaged : Bool)
  | launcher
  | await
  | awaitElsewhere
  | finish
  | resume
  | tryIo (outcome : Option Int)
  | child
  | ready (outcome : Option Int)
  | fire
  | timer
  | loop
  | otherPosts (n : Nat) (cmd : Control.IoCommand Unit)
  | otherNotifies (n mailbox : Nat)
  | other (n : Nat)
  | wakeup
  | parent
deriving DecidableEq

def apply (a : Action) (s : State) : Option State :=
  match a with
  | .launch engaged =>
      if s.launcher = .launch then
        if engaged then some { s with launcher := .inTask, child := .running }
        else some { s with launcher := .resumeParent }
      else none
  | .launcher => execLauncher s
  | .await =>
      if s.child = .running then
        some { s with
          child := .capture
          awaiter := some { id := s.nextId }
          nextId := s.nextId + 1 }
      else none
  | .awaitElsewhere =>
      if s.child = .running then some (s.suspend .elsewhere) else none
  | .finish =>
      if s.child = .running then some (finalSuspend s) else none
  | .resume =>
      if s.child = .elsewhere then some { s with child := .running }
      else none
  | .tryIo outcome => tryIo outcome s
  | .child => execChild cfg s
  | .ready outcome => onComplete outcome s
  | .fire =>
      if s.timer = .waiting then some { s with timer := .check } else none
  | .timer => execTimer cfg s
  | .loop => execLoop cfg s
  | .otherPosts n cmd => s.post cfg (.post (.other n) cmd) id
  | .otherNotifies n mailbox =>
      s.post cfg (.notify (.other n) (.other mailbox)) id
  | .other n => s.post cfg (.producer (.other n)) id
  | .wakeup => s.post cfg .wakeup id
  | .parent =>
      -- `await_resume` cancels a timer that has not fired yet
      if s.taken < s.resumes then
        some { s with
          taken := s.taken + 1
          timer :=
            if s.timerId = true ∧ s.timer = .waiting then .canceled
            else s.timer }
      else none

/-- `co_await with_timeout(delay, task_func)`. -/
def machine : Machine State Action where
  start := (· = {})
  apply := apply cfg

end AntRpc.Coroutine.Timeout
