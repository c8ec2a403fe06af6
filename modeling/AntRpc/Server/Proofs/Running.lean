/-
`running_` of a server connection is never set again, and whatever comes
of a `RequestClose` that found it set, or of a completion that closes
the connection, runs when it is false.
-/
import AntRpc.Server.Proofs.Steps

namespace AntRpc.Server

open Protocol Lib

variable {cfg : ServerConfig} {n : Nat} {ch : Choice} {rt rt' : Runtime}
  {c c' : Conn} {ops rest : List IoOp} {a : ConnAction}

/-- The call of `RequestClose` that found the connection running. -/
def ClosePc.won : ClosePc → Bool
  | .storePosted | .post => true
  | _ => false

def Command.isClose : Command → Bool
  | .close => true
  | _ => false

/-- Operations that run once the connection is stopped. -/
def IoOp.stopped : IoOp → Bool
  | .close (.requestClose pc) => pc.won
  | .close .beginClose | .close .exitUnstarted => true
  | _ => false

/-- Nothing that comes of a close is there while the connection runs. -/
structure Stopped (c : Conn) : Prop where
  io : c.running = true → c.io.any IoOp.stopped = false
  mailbox : c.running = true → c.mailbox.any Command.isClose = false
  closers : c.running = true → c.closers.any ClosePc.won = false

-- == steps

/-- What an operation does about it. -/
structure StopStep (c c' : Conn) (ops : List IoOp) : Prop where
  running : c'.running = true → c.running = true
  ops : c'.running = true → ops.any IoOp.stopped = false
  mailbox : c'.running = true → c.mailbox.any Command.isClose = false →
    c'.mailbox.any Command.isClose = false
  closers : c'.closers = c.closers

/-- An operation that leaves the mailbox and the closers alone. -/
theorem StopStep.plain (hrun : c'.running = true → c.running = true)
    (hops : ops.any IoOp.stopped = false) (hmail : c'.mailbox = c.mailbox)
    (hclosers : c'.closers = c.closers) : StopStep c c' ops :=
  ⟨hrun, fun _ => hops, fun _ h => hmail ▸ h, hclosers⟩

/-- A step of `RequestClose`. -/
theorem execRequestClose_stop {pc pc' : ClosePc}
    (he : execRequestClose rt c pc = some (rt', c', pc'))
    (hpc : c.running = true → pc.won = false) :
    (c'.running = true → c.running = true)
      ∧ (c'.running = true → pc'.won = false)
      ∧ (c'.running = true → c'.mailbox = c.mailbox)
      ∧ c'.io = c.io ∧ c'.closers = c.closers := by
  cases pc with
  | record reason =>
      cases he
      exact ⟨id, fun _ => rfl, fun _ => rfl, rfl, rfl⟩
  | exchangeRunning =>
      cases he
      exact ⟨nofun, nofun, nofun, rfl, rfl⟩
  | storePosted | post =>
      cases he
      exact ⟨id, fun hrun => (nomatch hpc hrun),
        fun hrun => (nomatch hpc hrun), rfl, rfl⟩
  | done => cases he

/-- Every operation of the IO thread. -/
theorem IoStep.stop {op : IoOp} (h : IoStep cfg c op c' ops)
    (hop : c.running = true → op.stopped = false) : StopStep c c' ops := by
  cases h with
  | requestClose he =>
      obtain ⟨hrun, hwon, hmail, -, hclosers⟩ := execRequestClose_stop he hop
      refine ⟨hrun, fun h => ?_, fun h hc => hmail h ▸ hc, hclosers⟩
      split
      · rfl
      · rw [List.any_cons, List.any_nil, Bool.or_false]
        exact hwon h
  | postStart =>
      exact ⟨id, fun _ => rfl, fun _ h => by simpa [Command.isClose] using h,
        rfl⟩
  | receiveExit | stopRunning | stopForCompletion =>
      exact ⟨nofun, nofun, nofun, rfl⟩
  | beginClose =>
      exact ⟨id, fun hrun => (nomatch hop hrun), fun _ h => h, rfl⟩
  | _ => exact .plain id rfl rfl rfl

-- == runs

/-- The first operation of a running connection's program. -/
theorem Stopped.head {op : IoOp} (h : Stopped c) (hio : c.io = op :: rest) :
    c.running = true → op.stopped = false := by
  intro hrun
  have hany := h.io hrun
  rw [hio, List.any_cons, Bool.or_eq_false_iff] at hany
  exact hany.1

theorem stopped_step (h : Stopped c) (hs : ConnStep cfg n rt c a rt' c') :
    Stopped c' := by
  cases hs with
  | io hio he =>
      next op rest c₁ ops =>
      have hparts : c.running = true → op.stopped = false
          ∧ rest.any IoOp.stopped = false := by
        intro hrun
        have hio' := h.io hrun
        rw [hio, List.any_cons, Bool.or_eq_false_iff] at hio'
        exact hio'
      obtain ⟨hrun, hops, hmail, hclosers⟩ :=
        (execIo_step he).stop fun hrun => (hparts hrun).1
      refine ⟨fun h' => ?_, fun h' => hmail h' (h.mailbox (hrun h')),
        fun h' => ?_⟩
      · show (ops ++ rest).any IoOp.stopped = false
        rw [List.any_append, hops h', Bool.false_or]
        exact (hparts (hrun h')).2
      · show c₁.closers.any ClosePc.won = false
        rw [hclosers]
        exact h.closers (hrun h')
  | dispatch hio hmail =>
      next command rest =>
      have hparts : c.running = true → command.isClose = false
          ∧ rest.any Command.isClose = false := by
        intro hrun
        have hmail' := h.mailbox hrun
        rw [hmail, List.any_cons, Bool.or_eq_false_iff] at hmail'
        exact hmail'
      refine ⟨fun hrun => ?_, fun hrun => (hparts hrun).2, h.closers⟩
      cases command with
      | close => exact nomatch (hparts hrun).1
      | start | completeInbound _ _ _ => rfl
  | readDone _ _ _ => exact ⟨fun _ => rfl, h.mailbox, h.closers⟩
  | writeDone _ _ _ => exact ⟨fun _ => rfl, h.mailbox, h.closers⟩
  | task _ _ _ | run _ _ => exact ⟨h.io, h.mailbox, h.closers⟩
  | finalize hr hj he =>
      next c₁ _ _ =>
      obtain ⟨hframe, hmail⟩ := execFinalize_frame he
      rw [hframe]
      refine ⟨h.io, fun hrun => ?_, h.closers⟩
      show c₁.mailbox.any Command.isClose = false
      rcases hmail with hmail | ⟨response, closeAfter, hmail⟩
      · rw [hmail]
        exact h.mailbox hrun
      · rw [hmail, List.any_append, h.mailbox hrun]
        rfl
  | requestClose _ =>
      refine ⟨h.io, h.mailbox, fun hrun => ?_⟩
      show (c.closers ++ [_]).any ClosePc.won = false
      rw [List.any_append, h.closers hrun]
      rfl
  | closer hk he =>
      next k pc c₁ pc' =>
      obtain ⟨hrun, hwon, hmail, hio, hclosers⟩ :=
        execRequestClose_stop he fun hrun => by
          have := h.closers hrun
          rw [List.any_eq_false] at this
          exact Bool.eq_false_iff.2 (this _ (List.mem_of_getElem? hk))
      refine ⟨fun h' => ?_, fun h' => ?_, fun h' => ?_⟩
      · show c₁.io.any IoOp.stopped = false
        rw [hio]
        exact h.io (hrun h')
      · show c₁.mailbox.any Command.isClose = false
        rw [hmail h']
        exact h.mailbox (hrun h')
      · show (c₁.closers.set k pc').any ClosePc.won = false
        rw [hclosers, List.any_eq_false]
        intro x hx
        rcases List.mem_or_eq_of_mem_set hx with hx | rfl
        · exact List.any_eq_false.1 (h.closers (hrun h')) x hx
        · rw [hwon h']
          decide

theorem reach_stopped (h : (connMachine cfg n).Reachable c) : Stopped c :=
  reach_invariant ⟨fun _ => rfl, fun _ => rfl, fun _ => rfl⟩
    (fun _ _ _ _ _ _ h _ hs => stopped_step h hs) h

end AntRpc.Server
