/-
`EpollContext` (context/epoll_context.hpp) with the handlers that wait in
it (awaiter/epoll_socket_awaiter.hpp, awaiter/epoll_connect_awaiter.hpp,
handler/epoll_acceptor.hpp).

# The IO thread

Everything here runs on the one IO thread. `ProcessEvents` takes a batch
of events and calls handlers; a handler that finishes resumes its
coroutine inside that call, and what the coroutine does (await on other
sockets, cancel other awaiters, whose coroutines then run inside the
cancel, close sockets) happens before `ProcessEvents` goes on. So the
model has the program points of `ProcessEvents` and lets user code take
any steps while a handler's coroutine, an accept callback or a mailbox
drain runs, and between two batches.

# Handlers

A handler is an object with its descriptor and the side it waits for;
handlers are numbered and numbers are not reused, while descriptors are:
two handlers may have the same one. `done` is `BaseAwaiter::done`, and
`awaited` that user code has started it, which it does once. A read
or write awaiter that is called tries its operation and either waits
again or finishes; a connect awaiter finishes; an acceptor calls back and
waits again.

# What is left out

What the kernel is told (`UpdateInterest`, `epoll_ctl`, `armed`): a batch
is any list of events. Results and buffers of the operations.

# History

`atReturn` is who waited when the batch was returned, `ended` who was
canceled or finished since. An invocation records both for its handler.
-/
import AntRpc.Lib.Machine

namespace AntRpc.Context

open Lib

/-- `EPOLLIN`, `EPOLLOUT`, `EPOLLERR`, `EPOLLHUP`, `EPOLLRDHUP`. -/
structure Flags where
  readable : Bool := false
  writable : Bool := false
  error : Bool := false
  hangup : Bool := false
  readHangup : Bool := false
deriving DecidableEq, Repr

/-- An entry of the array `epoll_wait` fills: the eventfd's tag, or a
descriptor and its flags. -/
inductive Event where
  | wakeup
  | ready (fd : Nat) (flags : Flags)
deriving DecidableEq, Repr

inductive Side where
  | readable
  | writable
deriving DecidableEq, Repr

inductive Kind where
  | socket
  | connect
  | acceptor
deriving DecidableEq, Repr

/-- What a handler is made with. -/
structure Handler where
  fd : Nat
  side : Side
  kind : Kind
deriving DecidableEq, Repr

/-- `Waiters`. -/
structure Waiters where
  readable : Option Nat := none
  writable : Option Nat := none
deriving DecidableEq, Repr

def Waiters.on (w : Waiters) : Side → Option Nat
  | .readable => w.readable
  | .writable => w.writable

def Waiters.set (w : Waiters) (side : Side) (h : Option Nat) : Waiters :=
  match side with
  | .readable => { w with readable := h }
  | .writable => { w with writable := h }

/-- An entry of `waits_`, or no entry if nobody waits. -/
def Waiters.entry (w : Waiters) : Option Waiters :=
  if w.readable = none ∧ w.writable = none then none else some w

/-- A call of a handler: was it registered for the event's descriptor
when the batch was returned, and canceled or finished since. -/
structure Invocation where
  handler : Nat
  registered : Bool
  ended : Bool
deriving DecidableEq, Repr

/-- Where the IO thread stands: between two batches, at the loop's head,
inside a handler called by it, in user code run by that handler, or in a
mailbox drain. `fetched` is the write handler of the same event, to be
called next; `rest` are the events to come. -/
inductive Pc where
  | outside
  | next (rest : List Event)
  | entered (h : Nat) (fd : Nat) (fetched : Option Nat) (rest : List Event)
  | resumed (h : Nat) (fd : Nat) (fetched : Option Nat) (rest : List Event)
  | draining (rest : List Event)
deriving DecidableEq, Repr

structure State where
  waits : Nat → Option Waiters := fun _ => none
  done : Nat → Bool := fun _ => false
  awaited : Nat → Bool := fun _ => false
  pc : Pc := .outside
  -- history
  atReturn : Nat → Option Waiters := fun _ => none
  ended : Nat → Bool := fun _ => false
  invocations : List Invocation := []

/-- Who waits on a descriptor's side. -/
def waiting (waits : Nat → Option Waiters) (fd : Nat) (side : Side) :
    Option Nat :=
  (waits fd).bind fun w => w.on side

-- == handlers

section Handlers

variable (handlers : Nat → Handler)

/-- `RegisterReadable` or `RegisterWritable` of handler `h`. -/
def State.register (s : State) (h : Nat) : State :=
  let fd := (handlers h).fd
  let w := (s.waits fd).getD {}
  { s with
    waits := Function.update s.waits fd
      (some (w.set (handlers h).side (some h))) }

/-- `CancelWait`. -/
def State.cancelWait (s : State) (h : Nat) : State :=
  { s with
    waits := fun fd => (s.waits fd).bind fun w =>
      let drop (x : Option Nat) := if x = some h then none else x
      Waiters.entry ⟨drop w.readable, drop w.writable⟩ }

/-- `Finish`, up to the resumption. -/
def State.finish (s : State) (h : Nat) : State :=
  { s with
    done := Function.update s.done h true
    ended := Function.update s.ended h true }

/-- `CancelOnIoThread`, up to the resumption. -/
def State.cancel (s : State) (h : Nat) : State :=
  if s.done h then s else (s.cancelWait h).finish h

/-- `ProcessEvents` calls handler `h` for an event of `fd`. -/
def State.invoke (s : State) (h fd : Nat) (side : Side)
    (fetched : Option Nat) (rest : List Event) : State :=
  { s with
    pc := .entered h fd fetched rest
    invocations := s.invocations ++
      [⟨h, decide (waiting s.atReturn fd side = some h), s.ended h⟩] }

/-- Handler `h` has returned: the write handler of the same event is
next, unless it is the same one. -/
def State.returned (s : State) (h fd : Nat) (fetched : Option Nat)
    (rest : List Event) : State :=
  match fetched with
  | none => { s with pc := .next rest }
  | some w =>
      if w = h then { s with pc := .next rest }
      else s.invoke w fd .writable none rest

/-- The flags wake the waiter of a side. -/
def Flags.wakes (flags : Flags) : Side → Bool
  | .readable =>
      flags.readable || flags.error || flags.hangup || flags.readHangup
  | .writable => flags.writable || flags.error || flags.hangup

/-- The event's handlers are taken out of `waits_` and the first one is
called. -/
def State.dispatch (s : State) (fd : Nat) (flags : Flags)
    (rest : List Event) : State :=
  match s.waits fd with
  | none => { s with pc := .next rest }
  | some w =>
      let readable := if flags.wakes .readable then w.readable else none
      let writable := if flags.wakes .writable then w.writable else none
      let left : Waiters :=
        ⟨if flags.wakes .readable then none else w.readable,
          if flags.wakes .writable then none else w.writable⟩
      let s : State :=
        { s with waits := Function.update s.waits fd left.entry }
      match readable, writable with
      | some h, _ => s.invoke h fd .readable writable rest
      | none, some h => s.invoke h fd .writable none rest
      | none, none => { s with pc := .next rest }

/-- What happens next. `complete` is the body of the handler that was
called, `blocked` whether its operation would block. The rest is user
code: it awaits with handler `h`, cancels it, or returns. -/
inductive Action where
  | wait (events : List Event)
  | step
  | complete (blocked : Bool)
  | await (h : Nat)
  | cancel (h : Nat)
  | return
deriving DecidableEq

/-- User code may run. -/
def Pc.user : Pc → Bool
  | .outside | .resumed _ _ _ _ | .draining _ => true
  | .next _ | .entered _ _ _ _ => false

/-- The most events a batch has. -/
def kMaxEvents : Nat := 64

def apply : Action → State → Option State
  | .wait events, s =>
      match s.pc with
      | .outside =>
          if events.length ≤ kMaxEvents then
            some { s with
              pc := .next events
              atReturn := s.waits
              ended := fun _ => false }
          else none
      | _ => none
  | .step, s =>
      match s.pc with
      | .next [] => some { s with pc := .outside }
      | .next (.wakeup :: rest) => some { s with pc := .draining rest }
      | .next (.ready fd flags :: rest) => some (s.dispatch fd flags rest)
      | _ => none
  | .complete blocked, s =>
      match s.pc with
      | .entered h fd fetched rest =>
          match (handlers h).kind, blocked with
          | .socket, true =>
              some ((s.register handlers h).returned h fd fetched rest)
          | .socket, false | .connect, false =>
              if s.done h then some (s.returned h fd fetched rest)
              else some { s.finish h with pc := .resumed h fd fetched rest }
          | .connect, true => none
          | .acceptor, _ => some { s with pc := .resumed h fd fetched rest }
      | _ => none
  | .await h, s =>
      if s.pc.user ∧ !s.awaited h then
        let s : State :=
          { s with awaited := Function.update s.awaited h true }
        some (s.register handlers h)
      else none
  | .cancel h, s =>
      if s.pc.user ∧ s.awaited h ∧ (handlers h).kind ≠ .acceptor then
        some (s.cancel h)
      else none
  | .return, s =>
      match s.pc with
      | .resumed h fd fetched rest =>
          match (handlers h).kind with
          | .acceptor =>
              some ((s.register handlers h).returned h fd fetched rest)
          | _ => some (s.returned h fd fetched rest)
      | .draining rest => some { s with pc := .next rest }
      | _ => none

/-- A context nobody waits in. -/
def machine : Machine State Action where
  start s := s = {}
  apply := apply handlers

end Handlers

end AntRpc.Context
