/-
`Task<T>` (coroutine/task.hpp): coroutines that start when they are
awaited and hand control over directly, without the scheduler.

# Two levels

`Code` is what a coroutine body does, in direct style: it returns,
throws, awaits another task and goes on with its result or exception,
makes a task and drops it, or waits for something outside (a socket, a
timer). `norm` says what such a body comes to: its outcome, or what it
waits for first.

The machine runs the same body the way the compiled coroutines do. Every
call makes a frame with a promise; the frame is suspended at once
(`initial_suspend`). `co_await` on a task stores the awaiting frame as its
continuation and resumes the task (`await_suspend`); at its end the task
resumes its continuation (`FinalAwaiter`), which takes the result or
rethrows the exception (`await_resume`) and destroys the frame with the
temporary that owned it.

# What is left out

Tasks that are stored and awaited later: those of `when_any` are in
WhenAny.lean. A task is awaited where it is made, so `await_ready`, which
asks for an empty or finished task, says no. Frames have numbers, and a
number is not used again.

# History

`given` are the answers from outside, `freed` the frames that were
destroyed, in order. No step reads them.
-/
import AntRpc.Lib.Machine

namespace AntRpc.Coroutine.Task

open Lib

variable {α ε ω β : Type}

-- == direct style

/-- What is left of a coroutine's body. -/
inductive Code (α ε ω β : Type) where
  | ret (v : α)
  | throw (e : ε)
  | await (child : Code α ε ω β) (k : Except ε α → Code α ε ω β)
  | discard (child k : Code α ε ω β)
  | wait (o : ω) (k : β → Code α ε ω β)

/-- What a body comes to. -/
inductive Norm (α ε ω β : Type) where
  | done (r : Except ε α)
  | blocked (o : ω) (k : β → Code α ε ω β)

/-- Run a body in direct style until it waits. -/
def Code.norm : Code α ε ω β → Norm α ε ω β
  | .ret v => .done (.ok v)
  | .throw e => .done (.error e)
  | .await child k =>
      match child.norm with
      | .done r => (k r).norm
      | .blocked o k' => .blocked o fun b => .await (k' b) k
  | .discard _ k => k.norm
  | .wait o k => .blocked o k

/-- Run a body through the answers it gets. -/
def Code.feed (c : Code α ε ω β) : List β → Option (Norm α ε ω β)
  | [] => some c.norm
  | b :: bs =>
      match c.norm with
      | .done _ => none
      | .blocked _ k => (k b).feed bs

-- == frames

/-- Where a frame stands. -/
inductive Point (α ε ω β : Type) where
  | initial (c : Code α ε ω β)
  | running
  | awaiting (child : Nat) (k : Except ε α → Code α ε ω β)
  | blocked (o : ω) (k : β → Code α ε ω β)
  | final

/-- A frame and its `promise_type`. -/
structure Frame (α ε ω β : Type) where
  point : Point α ε ω β
  continuation : Option Nat := none
  result : Option α := none
  exception : Option ε := none

/-- What runs: the body of a frame, a `resume()` of one, or nothing. -/
inductive Control (α ε ω β : Type) where
  | idle
  | exec (f : Nat) (c : Code α ε ω β)
  | resume (f : Nat)

structure State (α ε ω β : Type) where
  frames : Nat → Option (Frame α ε ω β)
  control : Control α ε ω β
  allocated : Nat := 1
  destroyed : Bool := false
  given : List β := []
  freed : List Nat := []

/-- The root task was made and is resumed by its owner. -/
def State.init (c : Code α ε ω β) : State α ε ω β where
  frames := Function.update (fun _ => none) 0 (some { point := .initial c })
  control := .resume 0

def State.setFrame (s : State α ε ω β) (f : Nat) (fr : Frame α ε ω β) :
    State α ε ω β :=
  { s with frames := Function.update s.frames f (some fr) }

/-- `handle.destroy()` of one frame. -/
def State.free (s : State α ε ω β) (f : Nat) : State α ε ω β :=
  { s with frames := Function.update s.frames f none
           freed := s.freed ++ [f] }

/-- `FinalAwaiter::await_suspend`. -/
def Frame.transfer (fr : Frame α ε ω β) : Control α ε ω β :=
  match fr.continuation with
  | some p => .resume p
  | none => .idle

/-- `await_resume`: the exception is rethrown, or the result moved out. -/
def Frame.outcome (fr : Frame α ε ω β) : Option (Except ε α) :=
  match fr.exception with
  | some e => some (.error e)
  | none => fr.result.map .ok

/-- `resume()` of frame `f`, which is suspended. -/
def execResume (s : State α ε ω β) (f : Nat) : Option (State α ε ω β) :=
  match s.frames f with
  | none => none
  | some fr =>
      match fr.point with
      | .initial c =>
          some { s.setFrame f { fr with point := .running } with
            control := .exec f c }
      | .awaiting child k =>
          (s.frames child).bind fun ch => ch.outcome.map fun r =>
            { (s.setFrame f { fr with point := .running }).free child with
              control := .exec f (k r) }
      | _ => none

/-- A step of the body of frame `f`. -/
def execBody (s : State α ε ω β) (f : Nat) :
    Code α ε ω β → Option (State α ε ω β)
  | .ret v => (s.frames f).map fun fr =>
      { s.setFrame f { fr with result := some v, point := .final } with
        control := fr.transfer }
  | .throw e => (s.frames f).map fun fr =>
      { s.setFrame f { fr with exception := some e, point := .final } with
        control := fr.transfer }
  | .await child k => (s.frames f).map fun fr =>
      { (s.setFrame f { fr with point := .awaiting s.allocated k }).setFrame
          s.allocated { point := .initial child, continuation := some f }
        with
        allocated := s.allocated + 1
        control := .resume s.allocated }
  | .discard child k =>
      some { (s.setFrame s.allocated { point := .initial child }).free
          s.allocated with
        allocated := s.allocated + 1
        control := .exec f k }
  | .wait o k => (s.frames f).map fun fr =>
      { s.setFrame f { fr with point := .blocked o k } with
        control := .idle }

/-- `handle.destroy()` with the temporaries of the frame: a frame that
awaits owns the task it awaits, and `~Task` comes before the frame is
given back. -/
def State.destroyFrom (s : State α ε ω β) : Nat → Nat → State α ε ω β
  | 0, _ => s
  | n + 1, f =>
      match s.frames f with
      | none => s
      | some fr =>
          match fr.point with
          | .awaiting child _ => (s.destroyFrom n child).free f
          | _ => s.free f

/-- `complete f b`: what frame `f` waits for is there. `destroy`: the
owner of the root task destroys it. -/
inductive Action (β : Type) where
  | step
  | complete (f : Nat) (b : β)
  | destroy

def machine (c : Code α ε ω β) :
    Machine (State α ε ω β) (Action β) where
  start := (· = State.init c)
  apply
    | .step, s =>
        match s.control with
        | .idle => none
        | .exec f body => execBody s f body
        | .resume f => execResume s f
    | .complete f b, s =>
        match s.control, s.frames f with
        | .idle, some fr =>
            match fr.point with
            | .blocked _ k =>
                some { s.setFrame f { fr with point := .running } with
                  control := .exec f (k b)
                  given := s.given ++ [b] }
            | _ => none
        | _, _ => none
    | .destroy, s =>
        match s.control, s.destroyed with
        | .idle, false =>
            some { s.destroyFrom s.allocated 0 with destroyed := true }
        | _, _ => none

end AntRpc.Coroutine.Task
