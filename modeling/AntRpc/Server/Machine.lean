/-
The server as an interleaving machine: any number of connections over one
`ServerRuntime`, the accept path, and the threads that stop the server
(`BeginGracefulStop`, the force-close timer, `WaitForDrained`).

# Connections

A step of a connection is a step of its IO thread, of a worker, of
service code or of a `RequestClose` caller; it sees the runtime and may
change it.

# Stopping

`Stop` calls `BeginGracefulStop` once (`RpcServer::status_` sees to
that). `ForceCloseLiveConnections`, run by it or by its timer, calls
`RequestClose` on one connection of its snapshot after the other.
`WaitForDrained` is called after `BeginGracefulStop` has returned; its
condition loads the two counters one after the other.
-/
import AntRpc.Lib.Machine
import AntRpc.Server.Worker

namespace AntRpc.Server

open Protocol Lib

-- == connections

/-- What happens next at a connection. -/
inductive ConnAction where
  | io (ch : Choice)
  | dispatch
  | readDone (result : ReadResult)
  | writeDone (written : Int)
  | task (r : Nat)
  | run (r : Nat)
  | finalize (r j : Nat) (ch : Choice) (outcome : ServiceOutcome)
      (alive : Bool)
  | requestClose (reason : ConnectionCloseReason)
  | closer (k : Nat)

/-- The body of the command a mailbox entry stands for. -/
def dispatchCommand : Command → IoOp
  | .start => .close .start
  | .completeInbound r response closeAfter =>
      .close (.complete r response closeAfter)
  | .close => .close .beginClose

/-- A step of connection `n`. -/
def connStep (cfg : ServerConfig) (n : Nat) (rt : Runtime) (c : Conn) :
    ConnAction → Option (Runtime × Conn)
  | .io ch =>
      match c.io with
      | [] => none
      | op :: rest =>
          (execIo cfg n ch rt { c with io := rest } op).map
            fun (rt, c, ops) => (rt, { c with io := ops ++ rest })
  | .dispatch =>
      match c.io, c.mailbox with
      | [], command :: rest =>
          some (rt.add .ioCommandBacklog (-1),
            { c with mailbox := rest, io := [dispatchCommand command] })
      | _, _ => none
  | .readDone result =>
      if c.io = [] ∧ c.activeRead ∧ result.Possible then
        some (rt,
          { (c.receive result).logs .read with
            activeRead := false
            io := [.receive (.readResumed result)] })
      else none
  | .writeDone written =>
      match c.io, c.activeWrite with
      | [], some buffer =>
          if written ≤ buffer.length then
            some (rt,
              { (c.transmit buffer written).logs .write with
                activeWrite := none
                io := [.write (.writeResumed buffer written)] })
          else none
      | _, _ => none
  | .task r =>
      if r < c.requests ∧ (c.calls r).admission = .admitted then
        (execDispatch cfg rt (c.calls r) (c.calls r).dispatch).map
          fun (rt, call) => (rt, c.setCall r call)
      else none
  | .run r =>
      if r < c.requests ∧ (c.calls r).done then
        some (rt, c.setCall r (c.calls r).run)
      else none
  | .finalize r j ch outcome alive =>
      if r < c.requests then
        match (c.calls r).finalizers[j]? with
        | none => none
        | some pc =>
            (execFinalize cfg ch outcome alive rt c r (c.calls r) pc).map
              fun (rt, c, call, pc) =>
                (rt, c.setCall r
                  { call with finalizers := call.finalizers.set j pc })
      else none
  | .requestClose reason =>
      if c.acquired then
        some (rt,
          { c with
            closeRequested := true
            closers := c.closers ++ [.record reason] })
      else none
  | .closer k =>
      match c.closers[k]? with
      | none => none
      | some pc =>
          (execRequestClose rt c pc).map fun (rt, c, pc) =>
            (rt, { c with closers := c.closers.set k pc })

/-- A connection on its own, over a runtime that may be anything at each
step. -/
def connMachine (cfg : ServerConfig) (n : Nat) :
    Machine Conn (Runtime × ConnAction) where
  start c := c = { io := [.accept .loadAccepting] }
  apply a c := (connStep cfg n a.1 c a.2).map (·.2)

-- == stopping

/-- `ForceCloseLiveConnections`: closer `k` of connection `n` is its
`RequestClose`. -/
inductive ForcePc where
  | snapshot
  | next (rest : List Nat)
  | waiting (n k : Nat) (rest : List Nat)
  | finished
deriving DecidableEq

/-- Where `BeginGracefulStop` stands. -/
inductive StopPc where
  | idle
  | storeAccepting
  | loadActive
  | addTimer
  | exchangeTimer
  | force (pc : ForcePc)
  | returned
deriving DecidableEq

/-- Where `WaitForDrained` stands; `sawNoConnections` is between the two
loads of `IsDrained`. -/
inductive JoinPc where
  | idle
  | waiting
  | sawNoConnections
  | returned
deriving DecidableEq

/-- A server. `accepted` counts the sockets that reached the accept
path. -/
structure State where
  rt : Runtime := {}
  accepted : Nat := 0
  conns : Nat → Conn := fun _ => {}
  stop : StopPc := .idle
  timer : ForcePc := .snapshot
  join : JoinPc := .idle

def State.setConn (s : State) (n : Nat) (c : Conn) : State :=
  { s with conns := Function.update s.conns n c }

/-- One step of `ForceCloseLiveConnections`. -/
def execForce (cfg : ServerConfig) (s : State) : ForcePc →
    Option (State × ForcePc)
  | .snapshot => some (s, .next s.rt.connections)
  | .next [] => some (s, .finished)
  | .next (n :: rest) =>
      (connStep cfg n s.rt (s.conns n) (.requestClose .serverStop)).map
        fun (_, c) =>
          (s.setConn n c, .waiting n (s.conns n).closers.length rest)
  | .waiting n k rest =>
      if (s.conns n).closers[k]? = some .done then some (s, .next rest)
      else none
  | .finished => none

/-- One step of `BeginGracefulStop`. -/
def execStop (cfg : ServerConfig) (s : State) : StopPc → Option State
  | .idle => some { s with stop := .storeAccepting }
  | .storeAccepting =>
      some { s with
        rt := { s.rt with accepting := false }
        stop := if cfg.gracefulStopTimeout = 0 then .force .snapshot
          else .loadActive }
  | .loadActive =>
      some { s with
        stop := if s.rt.count .activeConnections = 0 then .returned
          else .addTimer }
  | .addTimer =>
      some { s with rt := { s.rt with timer := .armed }, stop := .exchangeTimer }
  | .exchangeTimer =>
      -- the first call: there is no older timer to cancel
      some { s with rt := { s.rt with timerId := true }, stop := .returned }
  | .force .finished => some { s with stop := .returned }
  | .force pc =>
      (execForce cfg s pc).map fun (s, pc) => { s with stop := .force pc }
  | .returned => none

/-- One step of the force-close timer. -/
def execTimer (cfg : ServerConfig) (s : State) : StopTimer → Option State
  | .armed => some { s with rt := { s.rt with timer := .firing } }
  | .firing =>
      match s.timer with
      | .finished => some { s with rt := { s.rt with timer := .fired } }
      | pc => (execForce cfg s pc).map fun (s, pc) => { s with timer := pc }
  | .none | .canceled | .fired => .none

/-- One step of `WaitForDrained`. -/
def execJoin (s : State) : JoinPc → Option State
  | .idle => if s.stop = .returned then some { s with join := .waiting } else none
  | .waiting =>
      some { s with
        join := if s.rt.count .activeConnections = 0 then .sawNoConnections
          else .waiting }
  | .sawNoConnections =>
      some { s with
        join := if s.rt.count .inFlight = 0 then .returned else .waiting }
  | .returned => none

-- == machine

/-- What happens next. -/
inductive Action where
  | accept
  | conn (n : Nat) (a : ConnAction)
  | stop
  | timer
  | join

def apply (cfg : ServerConfig) : Action → State → Option State
  | .accept, s =>
      let s' : State := { s with accepted := s.accepted + 1 }
      some (s'.setConn s.accepted { io := [.accept .loadAccepting] })
  | .conn n a, s =>
      if n < s.accepted then
        (connStep cfg n s.rt (s.conns n) a).map fun (rt, c) =>
          { s with rt := rt, conns := Function.update s.conns n c }
      else none
  | .stop, s => execStop cfg s s.stop
  | .timer, s => execTimer cfg s s.rt.timer
  | .join, s => execJoin s s.join

/-- A server that has just been started. -/
def machine (cfg : ServerConfig) : Machine State Action where
  start s := s = {}
  apply := apply cfg

end AntRpc.Server
