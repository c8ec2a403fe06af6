/-
`ContextControl` (context/context_control.hpp): commands and mailboxes on
their way to the IO thread, and the eventfd that wakes it.

# Producers

`PostCommand` and `Notify` push, exchange `notified_` and write the
eventfd if the flag was not set. Any number of them run at once, those
called by a handler on the IO thread among them: their steps may fall
anywhere between the steps of a drain.

# The IO thread

`DrainMailboxesOnIoThread` reads the eventfd until nothing is left,
clears `notified_` and drains the two queues, each until it is seen
empty. The queues are FIFO lists (`MpscQueue`).

# What is left out

The approximate sizes, which only `PendingCommandCount` reads; a context
whose eventfd could not be created; the fields of a command other than
its type, which are one payload here.

# History

`posted` and `announced` are what was pushed, `handled` and `drained`
what was taken out.
-/
import AntRpc.Lib.Machine

namespace AntRpc.Context.Control

open Lib

/-- `IoCommand::Type`. -/
inductive CommandType where
  | serverStart
  | serverCompleteInbound
  | serverClose
  | channelStart
  | channelSendFrame
  | channelClose
deriving DecidableEq, Repr

def CommandType.value : CommandType → Nat
  | .serverStart => 0
  | .serverCompleteInbound => 1
  | .serverClose => 2
  | .channelStart => 3
  | .channelSendFrame => 4
  | .channelClose => 5

structure IoCommand (α : Type) where
  type : CommandType
  payload : α
deriving DecidableEq, Repr

inductive Dispatcher where
  | server
  | channel
deriving DecidableEq, Repr

/-- Which of `s_server_dispatcher` and `s_channel_dispatcher` are set. -/
structure Config where
  serverDispatcher : Bool
  channelDispatcher : Bool
deriving DecidableEq, Repr

variable {τ α β : Type}

/-- Who a command goes to, if anybody. -/
def Config.dispatcher (cfg : Config) (cmd : IoCommand α) :
    Option Dispatcher :=
  if cmd.type.value ≤ CommandType.serverClose.value then
    if cfg.serverDispatcher then some .server else none
  else if cfg.channelDispatcher then some .channel else none

/-- Where a producer stands after its push. -/
inductive ProducerPc where
  | idle
  | exchange
  | write
deriving DecidableEq, Repr

/-- Where the IO thread stands in `DrainMailboxesOnIoThread`. -/
inductive DrainPc where
  | outside
  | readLoop
  | clear
  | commands
  | mailboxes
deriving DecidableEq, Repr

structure State (τ α β : Type) where
  commands : List (IoCommand α) := []
  mailboxes : List β := []
  notified : Bool := false
  /-- the eventfd's counter -/
  wakeupFd : Nat := 0
  io : DrainPc := .outside
  producers : τ → ProducerPc := fun _ => .idle
  posted : List (IoCommand α) := []
  announced : List β := []
  handled : List (IoCommand α × Option Dispatcher) := []
  drained : List β := []

/-- The largest value an eventfd counter takes. -/
def counterMax : Nat := 2 ^ 64 - 2

/-- `Wakeup()`: a write that would overflow the counter fails. -/
def State.wakeup (s : State τ α β) : State τ α β :=
  if s.wakeupFd < counterMax then { s with wakeupFd := s.wakeupFd + 1 }
  else s

/-- A step of `DrainMailboxesOnIoThread`. -/
def execDrain (cfg : Config) (s : State τ α β) : Option (State τ α β) :=
  match s.io with
  | .outside => none
  | .readLoop =>
      if s.wakeupFd = 0 then some { s with io := .clear }
      else some { s with wakeupFd := 0 }
  | .clear => some { s with notified := false, io := .commands }
  | .commands =>
      match s.commands with
      | [] => some { s with io := .mailboxes }
      | cmd :: rest =>
          some { s with
            commands := rest
            handled := s.handled ++ [(cmd, cfg.dispatcher cmd)] }
  | .mailboxes =>
      match s.mailboxes with
      | [] => some { s with io := .outside }
      | mailbox :: rest =>
          some { s with
            mailboxes := rest
            drained := s.drained ++ [mailbox] }

inductive Action (τ α β : Type) where
  | post (t : τ) (cmd : IoCommand α)
  | notify (t : τ) (mailbox : β)
  | producer (t : τ)
  | wakeup
  | drain
  | io
deriving DecidableEq

variable [DecidableEq τ]

def State.setProducer (s : State τ α β) (t : τ) (p : ProducerPc) :
    State τ α β :=
  { s with producers := Function.update s.producers t p }

/-- The exchange of `notified_` and what follows it. -/
def execProducer (t : τ) (s : State τ α β) : Option (State τ α β) :=
  match s.producers t with
  | .idle => none
  | .exchange =>
      let s' : State τ α β := { s with notified := true }
      some (s'.setProducer t (if s.notified then .idle else .write))
  | .write => some (s.wakeup.setProducer t .idle)

def apply (cfg : Config) (a : Action τ α β) (s : State τ α β) :
    Option (State τ α β) :=
  match a with
  | .post t cmd =>
      if s.producers t = .idle then
        let s' : State τ α β :=
          { s with
            commands := s.commands ++ [cmd]
            posted := s.posted ++ [cmd] }
        some (s'.setProducer t .exchange)
      else none
  | .notify t mailbox =>
      if s.producers t = .idle then
        let s' : State τ α β :=
          { s with
            mailboxes := s.mailboxes ++ [mailbox]
            announced := s.announced ++ [mailbox] }
        some (s'.setProducer t .exchange)
      else none
  | .producer t => execProducer t s
  -- `Stop()` wakes the IO thread without a push
  | .wakeup => some s.wakeup
  | .drain =>
      if s.io = .outside then some { s with io := .readLoop } else none
  | .io => execDrain cfg s

def machine (cfg : Config) : Machine (State τ α β) (Action τ α β) where
  start := (· = {})
  apply := apply cfg

end AntRpc.Context.Control
