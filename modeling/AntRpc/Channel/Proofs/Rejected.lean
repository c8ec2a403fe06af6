/-
A call in flight and a further `StartUnaryCall` on its controller
(rpc/core/channel_core.hpp, rpc/slot_table.hpp).

`StartUnaryCall` stamps the controller with the new correlation id before
`BindActiveSlot` refuses, and the refusal goes through
`SetInlineFailure`: it marks the controller failed and takes its
cancellation callback. Both belong to the call in flight.

# No exception

A further call that comes back while the first is in flight was refused,
and whatever the other threads did meanwhile, the controller is failed,
has no callback and does not have the first call's id any more; only the
registration survives. A response that then comes for the first call is
not parsed, and the call ends with the controller's error
(`further_call_overwrites`).

`CallPc.Refusing` says what a further call has written at each of its
points; `Bound` carries it along a run. What later steps leave of it is
asked of the writes one by one (`Controller.Kept`).
-/
import AntRpc.Channel.Proofs.Calls
import AntRpc.Slot.Proofs.Overload

namespace AntRpc

-- == lasting properties

/-- No write to a controller ends the property: not the binding of a free
controller, nor what the completion of a call writes. Stamping an id and
clearing a registration are left to the writer. -/
structure Controller.Kept (P : Controller → Prop) : Prop where
  bind : ∀ ctl c, ctl.activeSlot = none → P ctl →
    P { ctl with activeSlot := some c }
  fail : ∀ ctl code text, P ctl → P (ctl.setFailed code text)
  take : ∀ ctl, P ctl → P ctl.takeNotifyOnCompletion.1
  respond : ∀ ctl headers attachment, P ctl →
    P { ctl with
      responseHeaders := headers, responseAttachment := attachment }

theorem Controller.kept_active (c : UInt64) :
    Kept fun ctl => ctl.activeSlot = some c where
  bind ctl d hfree h := by
    rw [hfree] at h
    cases h
  fail _ _ _ h := h
  take _ h := h
  respond _ _ _ h := h

theorem Controller.kept_failed : Kept fun ctl => ctl.failed = true where
  bind _ _ _ h := h
  fail _ _ _ _ := rfl
  take _ h := h
  respond _ _ _ h := h

theorem Controller.kept_notified :
    Kept fun ctl => ctl.rpcCompleted = true ∧ ctl.notifyOnCancel = none where
  bind _ _ _ h := h
  fail _ _ _ h := h
  take _ _ := ⟨rfl, rfl⟩
  respond _ _ _ h := h

theorem Controller.kept_id (c : UInt64) :
    Kept fun ctl => ctl.correlationId ≠ c where
  bind _ _ _ h := h
  fail _ _ _ h := h
  take _ h := h
  respond _ _ _ h := h

/-- Clearing a registration clears nothing else. -/
theorem Controller.clearActiveSlot_kept {P : Controller → Prop}
    (hnone : ∀ ctl, P ctl → P { ctl with activeSlot := none })
    (ctl : Controller) (c : UInt64) (h : P ctl) :
    P (ctl.clearActiveSlot c) := by
  unfold clearActiveSlot
  split_ifs
  · exact hnone ctl h
  · exact h

end AntRpc

namespace AntRpc.Slot

variable {P : Controller → Prop} {j : Nat}

theorem update_kept {f : Nat → Controller} {k : Nat} {ctl : Controller}
    (h : P (f j)) (hctl : P (f k) → P ctl) : P (Function.update f k ctl j) := by
  by_cases hj : j = k
  · subst hj
    rw [Function.update_self]
    exact hctl h
  · rwa [Function.update_of_ne hj]

section Responses

variable {h : Heap} (args : CallArgs) (hP : Controller.Kept P)
include hP

theorem applyMeta_kept (r : Response) (hj : P (h.controllers j)) :
    P ((applyMeta args r h).controllers j) := by
  unfold applyMeta
  split
  · exact hj
  · next k _ =>
    refine update_kept hj fun hk => ?_
    -- the error, then the headers and the attachment
    have hrespond : ∀ ctl, P ctl → P (
        let ctl := if r.rpcMeta.headers ≠ []
          then { ctl with responseHeaders := r.rpcMeta.headers } else ctl
        if r.attachment ≠ []
          then { ctl with responseAttachment := r.attachment } else ctl) := by
      intro ctl hctl
      simp only
      split_ifs
      · exact hP.respond ctl _ _ hctl
      · exact hP.respond ctl ctl.responseHeaders _ hctl
      · exact hP.respond ctl _ ctl.responseAttachment hctl
      · exact hctl
    refine hrespond _ ?_
    split_ifs
    · exact hP.fail _ _ _ hk
    · exact hk

theorem parseBody_kept (cfg : TableConfig) (r : Response)
    (hj : P (h.controllers j)) :
    P ((parseBody cfg args r h).1.controllers j) := by
  unfold parseBody
  split
  · exact hj
  · split_ifs
    · simp only
      split_ifs
      · exact hj
      · split
        · exact hj
        · exact update_kept hj (hP.fail _ _ _)
    · exact hj

theorem applyResponse_kept (cfg : TableConfig) (r : Response)
    (hj : P (h.controllers j)) :
    P ((applyResponse cfg args r h).1.controllers j) := by
  have hparsed := parseBody_kept args hP cfg r (applyMeta_kept args hP r hj)
  unfold applyResponse storeRawBody
  cases args.rawRespBody <;> exact hparsed

end Responses

/-- A response that finds a failed controller is not parsed, and the call
ends with the controller's error. -/
theorem applyResponse_failed (cfg : TableConfig) {args : CallArgs}
    {h : Heap} (r : Response) (hctl : args.controller = some j)
    (hfailed : (h.controllers j).failed = true) :
    (applyResponse cfg args r h).1.messages = h.messages
      ∧ ((applyResponse cfg args r h).1.controllers j).failed = true
      ∧ (applyResponse cfg args r h).2
        = ((applyResponse cfg args r h).1.controllers j).errorCode := by
  have hafter := applyResponse_kept args Controller.kept_failed cfg r hfailed
  refine ⟨?_, hafter, ?_⟩
  · have hmeta := applyMeta_kept args Controller.kept_failed r hfailed
    have hmessages : (applyMeta args r h).messages = h.messages := by
      unfold applyMeta
      rw [hctl]
    have hparse : (parseBody cfg args r (applyMeta args r h)).1.messages
        = h.messages := by
      unfold parseBody
      split
      · exact hmessages
      · rw [if_neg]
        · exact hmessages
        · unfold controllerFailed
          rw [hctl]
          simp only [hmeta, Bool.true_eq_false, and_false, not_false_iff]
    unfold applyResponse storeRawBody
    cases args.rawRespBody <;> exact hparse
  · unfold applyResponse at hafter ⊢
    simp only [completionCode, hctl]
    rw [if_pos hafter]

section Table

variable {τ : Type} [DecidableEq τ] {cfg : TableConfig} {s s' : State τ}
  {t : τ} {pc : Pc}

omit [DecidableEq τ] in
theorem onController_kept {i : UInt32} {f : Controller → Controller}
    (hf : ∀ ctl, P ctl → P (f ctl)) (hj : P (s.heap.controllers j)) :
    P ((s.onController i f).heap.controllers j) := by
  unfold State.onController
  split
  · exact hj
  · exact update_kept hj (hf _)

theorem execHold_kept (hP : Controller.Kept P) {w : Winner} (p : HoldPc)
    (hclear : ∀ ctl, P ctl → P (ctl.clearActiveSlot w.cid))
    (hj : P (s.heap.controllers j)) :
    P ((execHold cfg t w p s).heap.controllers j) := by
  cases p with
  | discardTimer | cancelTimer =>
      show P ((s.cancelDeadlineTimer _).heap.controllers j)
      unfold State.cancelDeadlineTimer
      simp only
      split <;> exact hj
  | discardClear | responseClear | failureClear =>
      exact onController_kept hclear hj
  | failureApply => exact onController_kept (fun ctl => hP.fail ctl _ _) hj
  | responseApply r => exact applyResponse_kept _ hP cfg r hj
  | takeNotify code item =>
      simp only [execHold]
      split
      · exact hj
      · exact update_kept hj (hP.take _)
  | pushFreeSlot item => cases item <;> exact hj
  | responseCount | readTask | recordCompletion | unregister | clearFields
  | clearTimer | storeFree | releaseLiveSlot | subInFlight => exact hj

/-- A step of the table. -/
theorem exec_kept (hP : Controller.Kept P)
    (hclear : ∀ w p, pc = .hold w p →
      ∀ ctl, P ctl → P (ctl.clearActiveSlot w.cid))
    (hs : exec cfg t pc s = some s') (hj : P (s.heap.controllers j)) :
    P (s'.heap.controllers j) := by
  by_cases hhold : ∃ w p, pc = .hold w p
  · obtain ⟨w, p, rfl⟩ := hhold
    cases hs
    exact execHold_kept hP p (hclear w p rfl) hj
  · by_cases hdispatch : ∃ w d, pc = .dispatch w d
    · obtain ⟨w, d, rfl⟩ := hdispatch
      rwa [(execDispatch_scheduled hs).1]
    · rwa [(exec_outside hs (fun w p h => hhold ⟨w, p, h⟩)
        (fun w d h => hdispatch ⟨w, d, h⟩)).1]

-- == ids

/-- The id an `AllocateSlot` is about to give out, or has given, does not
name cell `i`. -/
def Thread.Avoids (i : UInt32) : Thread → Prop
  | .running (.alloc _ (.addInFlight slot _)) => slot ≠ i
  | .returned (.allocated _ c) => c = 0 ∨ getSlotId c ≠ i
  | _ => True

omit [DecidableEq τ] in
theorem Thread.Doing.avoids {th : Thread} {job : Job} {i : UInt32}
    (h : th.Doing job) (hjob : ∀ args, job ≠ .allocate args) :
    th.Avoids i := by
  cases th with
  | idle => trivial
  | running pc =>
      cases pc with
      | alloc args p => exact absurd h.symm (hjob args)
      | _ => trivial
  | returned r =>
      cases r with
      | allocated args c => exact absurd h (hjob args)
      | _ => trivial

omit [DecidableEq τ] in
theorem enter_avoids (op : Op) (i : UInt32) : (enter cfg op).Avoids i := by
  cases op with
  | allocateSlot args maxInFlight =>
      simp only [enter]
      split_ifs
      · exact Or.inl rfl
      · trivial
  | _ => exact (enter_doing cfg _).avoids (by rintro _ ⟨⟩)

/-- A cell that is in use is not allocated. -/
theorem exec_avoids {i : UInt32} (hi : Inv cfg s)
    (hok : ThreadOk s.view t (.running pc)) (hs : exec cfg t pc s = some s')
    (hlive : (s.word i).state.Live) (h : (Thread.running pc).Avoids i) :
    (s'.threads t).Avoids i := by
  by_cases halloc : ∃ args p, pc = .alloc args p
  · obtain ⟨args, p, rfl⟩ := halloc
    cases hs
    cases p with
    | storeArming slot version =>
        simp only [execAlloc, goto_thread]
        rintro rfl
        have hnow : (s.view slot).life.now = .live :=
          (hi.cells slot).live_of_state hlive
        have htakes : (s.view slot).life.now = .allocating t := hok.1.now
        rw [hnow] at htakes
        cases htakes
    | addInFlight slot version =>
        simp only [execAlloc, ret_thread]
        refine Or.inr ?_
        rw [getSlotId_make]
        exact h
    | casActive limit current =>
        simp only [execAlloc]
        split_ifs
        · rw [goto_thread]
          trivial
        · rw [goto_thread]
          trivial
        · rw [ret_thread]
          exact Or.inl rfl
    | popFreeSlot =>
        simp only [execAlloc]
        split_ifs <;> rw [goto_thread] <;> trivial
    | undoActive =>
        simp only [execAlloc, ret_thread]
        exact Or.inl rfl
    | loadActive | loadVersion | storeFields | resetTimer =>
        simp only [execAlloc, goto_thread]
        trivial
  · refine (exec_doing hok hs).avoids fun args hjob => ?_
    obtain ⟨p, rfl⟩ := Pc.alloc_of_job hjob
    exact halloc ⟨args, p, rfl⟩

omit [DecidableEq τ] in
theorem Moves.avoids {a : Action τ} {th th' : Thread} {i : UInt32}
    (h : Moves cfg t a th th') : th'.Avoids i := by
  cases h with
  | call op => exact enter_avoids op i
  | retry | fail | skip | collect => trivial

end Table

end AntRpc.Slot

namespace AntRpc.Channel

open Protocol Slot Lib

variable {cfg : ChannelConfig} {s s' : State} {j k n : Nat} {c : UInt64}
  {g : Nat}

-- == what a step writes

/-- The users leave controller `j` alone. -/
def usersLeave (j : Nat) (s : State) (a : Action) : Prop :=
  ∀ heap, a = .user heap → heap.controllers j = s.slots.heap.controllers j

/-- Call `k`, if it stands before `SetCorrelationId` on controller `j`,
does not end the property by it. -/
def StampKeeps (s : State) (j k : Nat) (P : Controller → Prop) : Prop :=
  (s.callers k).pc = .setCorrelationId →
  (s.callers k).input.controller = some j →
  ∀ ctl, P ctl → P { ctl with correlationId := (s.callers k).correlationId }

/-- A step of call `k`. -/
theorem CallerWrites.kept {P : Controller → Prop} {ctl ctl' : Controller}
    (hP : Controller.Kept P) (hstamp : StampKeeps s j k P)
    (hw : CallerWrites (s.callers k) (s.callers k).pc j ctl ctl')
    (h : P ctl) : P ctl' := by
  cases hw with
  | none => exact h
  | stamp hpc hon => exact hstamp hpc hon ctl h
  | bind hfree => exact hP.bind ctl _ hfree h
  | fail => exact hP.fail ctl _ _ h
  | take => exact hP.take ctl h

/-- Every action that leaves the controller to the calls. -/
theorem apply_kept {a : Action} {P : Controller → Prop}
    (hP : Controller.Kept P) (hstamp : ∀ k < s.started, StampKeeps s j k P)
    (hclear : ∀ t w p, s.slots.threads t = .running (.hold w p) →
      ∀ ctl, P ctl → P (ctl.clearActiveSlot w.cid))
    (hok : usersLeave j s a) (hs : apply cfg a s = some s')
    (h : P (s.slots.heap.controllers j)) :
    P (s'.slots.heap.controllers j) := by
  cases apply_tableStep hs with
  | call input hslots hstarted hcallers => rwa [hslots]
  | caller k timer hk hcall =>
      exact ((execCall_step hcall).writes j).kept hP (hstamp k hk) h
  | spurious k current current' hpc hk hslots hstarted hcallers =>
      rwa [hslots]
  | io hf => rwa [hf.heap]
  | user heap hslots hstarted hcallers =>
      rw [hslots]
      show P (heap.controllers j)
      rwa [hok heap rfl]
  | slots a hmay ha hstarted hcallers =>
      generalize hslots : s'.slots = σ at ha
      cases apply_acts ha with
      | @step t pc _ hpc hexec =>
          exact exec_kept hP (fun w p heq => hclear t w p (heq ▸ hpc))
            hexec h
      | move published hmove => exact h
      | client heap metrics => cases hmay

/-- A property that does not speak of the registration. -/
theorem apply_kept_always {a : Action} {P : Controller → Prop}
    (hP : Controller.Kept P)
    (hnone : ∀ ctl, P ctl → P { ctl with activeSlot := none })
    (hstamp : ∀ k < s.started, StampKeeps s j k P)
    (hok : usersLeave j s a) (hs : apply cfg a s = some s')
    (h : P (s.slots.heap.controllers j)) :
    P (s'.slots.heap.controllers j) :=
  apply_kept hP hstamp (fun _ w _ _ ctl hctl =>
    ctl.clearActiveSlot_kept hnone w.cid hctl) hok hs h

/-- Every action is a step of the table, or leaves the cells alone. -/
theorem apply_cells {a : Action} (hs : apply cfg a s = some s') :
    (∃ t pc, s.slots.threads t = .running pc
      ∧ Slot.exec cfg.table t pc s.slots = some s'.slots)
    ∨ s'.slots.view = s.slots.view := by
  cases apply_tableStep hs with
  | call input hslots hstarted hcallers => exact Or.inr (by rw [hslots])
  | caller k timer hk hcall => exact Or.inr (execCall_step hcall).client.view
  | spurious k current current' hpc hk hslots hstarted hcallers =>
      exact Or.inr (by rw [hslots])
  | io hf => exact Or.inr hf.slots.view
  | user heap hslots hstarted hcallers => exact Or.inr (by rw [hslots]; rfl)
  | slots a hmay ha hstarted hcallers =>
      generalize hslots : s'.slots = σ at ha
      cases apply_acts ha with
      | @step t pc _ hpc hexec => exact Or.inl ⟨t, pc, hpc, hexec⟩
      | move published hmove => exact Or.inr rfl
      | client heap metrics => cases hmay

/-- A started call keeps its arguments and comes no closer to
`SetCorrelationId`. -/
theorem apply_caller {a : Action} (hk : k < s.started)
    (hs : apply cfg a s = some s') :
    (s'.callers k).input = (s.callers k).input
      ∧ ((s'.callers k).pc.unstamped = true →
        (s.callers k).pc.unstamped = true) := by
  cases apply_tableStep hs with
  | call input hslots hstarted hcallers =>
      rw [hcallers, Function.update_of_ne (by omega)]
      exact ⟨rfl, id⟩
  | caller k' timer hk' hcall =>
      by_cases hkk : k = k'
      · subst hkk
        exact ⟨(execCall_step hcall).input, (execCall_step hcall).unstamped⟩
      · rw [(execCall_step hcall).others k hkk]
        exact ⟨rfl, id⟩
  | spurious k' current current' hpc hk' hslots hstarted hcallers =>
      rw [hcallers, Function.update_apply]
      split
      · next heq =>
        subst heq
        exact ⟨rfl, fun h => by cases h⟩
      · exact ⟨rfl, id⟩
  | io hf =>
      rw [hf.callers]
      exact ⟨rfl, id⟩
  | user heap hslots hstarted hcallers | slots a hmay ha hstarted hcallers =>
      rw [hcallers]
      exact ⟨rfl, id⟩

/-- Calls are started one by one, from the top. -/
theorem apply_started {a : Action} (hs : apply cfg a s = some s') :
    s'.started = s.started
      ∨ s'.started = s.started + 1
        ∧ ∃ input, s'.callers s.started = { input := input } := by
  cases apply_tableStep hs with
  | call input hslots hstarted hcallers =>
      exact Or.inr ⟨hstarted, input, by rw [hcallers, Function.update_self]⟩
  | caller k timer hk hcall => exact Or.inl (execCall_step hcall).started
  | spurious k current current' hpc hk hslots hstarted hcallers =>
      exact Or.inl hstarted
  | io hf => exact Or.inl hf.started
  | user heap hslots hstarted hcallers | slots a hmay ha hstarted hcallers =>
      exact Or.inl hstarted

-- == refused calls

/-- What `StartUnaryCall` answers, once it is about to return. -/
def CallPc.outcome : CallPc → Option StartOutcome
  | .leave outcome | .returned outcome => some outcome
  | .ranInline => some .failedInline
  | _ => none

/-- The points a further call on the controller of call `c` passes while
that is in flight, with what it has done to the controller so far. `id`
is its own id, 0 until it has one, and `th` its thread in the table. -/
def CallPc.Refusing (c : UInt64) (ctl : Controller) (th : Thread)
    (id : UInt64) : CallPc → Prop
  | .copyDriver | .recordStart | .checkCanceled | .checkRunning
  | .allocateSlot => id = 0
  | .awaitAllocate => id = 0 ∧ th.Avoids (getSlotId c)
  | .setCorrelationId => getSlotId id ≠ getSlotId c
  | .bindActiveSlot | .discardSlot _ _ | .awaitDiscard _ _ =>
      ctl.correlationId ≠ c
  | .setFailed _ _ => id = 0 ∨ ctl.correlationId ≠ c
  | .takeNotify _ =>
      (id = 0 ∨ ctl.correlationId ≠ c) ∧ ctl.failed = true
  | .recordCompletion _ | .leave .failedInline | .returned .failedInline
  | .ranInline =>
      (id = 0 ∨ ctl.correlationId ≠ c) ∧ ctl.failed = true
        ∧ ctl.rpcCompleted = true ∧ ctl.notifyOnCancel = none
  | _ => False

/-- Where further call `k` stands. -/
def Refusing (s : State) (j : Nat) (c : UInt64) (k : Nat) : Prop :=
  (s.callers k).pc.Refusing c (s.slots.heap.controllers j)
    (s.slots.threads (.caller k)) (s.callers k).correlationId

/-- What a refused call wrote is not undone by anybody else. -/
theorem CallPc.Refusing.frame {ctl ctl' : Controller} {th th' : Thread}
    {id : UInt64} {pc : CallPc} (h : pc.Refusing c ctl th id)
    (hid : ctl.correlationId ≠ c → ctl'.correlationId ≠ c)
    (hfailed : ctl.failed = true → ctl'.failed = true)
    (hnotified : ctl.rpcCompleted = true ∧ ctl.notifyOnCancel = none →
      ctl'.rpcCompleted = true ∧ ctl'.notifyOnCancel = none)
    (hth : th.Avoids (getSlotId c) → th'.Avoids (getSlotId c)) :
    pc.Refusing c ctl' th' id := by
  have hdone : ((id = 0 ∨ ctl.correlationId ≠ c) ∧ ctl.failed = true
        ∧ ctl.rpcCompleted = true ∧ ctl.notifyOnCancel = none) →
      (id = 0 ∨ ctl'.correlationId ≠ c) ∧ ctl'.failed = true
        ∧ ctl'.rpcCompleted = true ∧ ctl'.notifyOnCancel = none :=
    fun ⟨h1, h2, h3⟩ => ⟨h1.imp_right hid, hfailed h2, hnotified h3⟩
  cases pc with
  | copyDriver | recordStart | checkCanceled | checkRunning
  | allocateSlot | setCorrelationId => exact h
  | awaitAllocate => exact ⟨h.1, hth h.2⟩
  | bindActiveSlot | discardSlot | awaitDiscard => exact hid h
  | setFailed => exact h.imp_right hid
  | takeNotify => exact ⟨h.1.imp_right hid, hfailed h.2⟩
  | recordCompletion | ranInline => exact hdone h
  | leave outcome | returned outcome =>
      cases outcome with
      | failedInline => exact hdone h
      | _ => exact h.elim
  | _ => exact h.elim

theorem onController_own (s : State) {input : CallInput}
    (f : Controller → Controller) (hon : input.controller = some j) :
    (s.onController input f).slots.heap.controllers j
      = f (s.slots.heap.controllers j) := by
  unfold State.onController
  rw [hon]
  exact Function.update_self ..

/-- Its own step: a bound controller is not bound again, and the call
goes on to `SetInlineFailure`. -/
theorem Refusing.own {timer : Option UInt64} (h : Refusing s j c k)
    (hon : (s.callers k).input.controller = some j)
    (hactive : (s.slots.heap.controllers j).activeSlot = some c)
    (hs : execCall cfg k timer (s.callers k).pc s = some s') :
    Refusing s' j c k := by
  -- the call goes on to `q`, in a state that differs in the rest
  have hgo : ∀ (s₁ : State) (q : CallPc), s₁.callers = s.callers →
      q.Refusing c (s₁.slots.heap.controllers j)
        (s₁.slots.threads (.caller k)) (s.callers k).correlationId →
      Refusing (s₁.callerTo k q) j c k := by
    intro s₁ q hcallers hq
    unfold Refusing
    rw [callerTo_callers, hcallers]
    exact hq
  have hcollect : ∀ {r : Result} {s₁ : State},
      s.collectSlots (.caller k) = some (r, s₁) →
      s.slots.threads (.caller k) = .returned r
        ∧ s₁.slots.heap = s.slots.heap ∧ s₁.callers = s.callers := by
    intro r s₁ hc
    obtain ⟨hr, rfl⟩ := collectSlots_eq hc
    exact ⟨hr, rfl, rfl⟩
  have hinvoke : ∀ {q : CallPc} {op : Op},
      (s.callerTo k q).invokeSlots cfg (.caller k) op = some s' →
      q.Refusing c (s.slots.heap.controllers j) (enter cfg.table op)
        (s.callers k).correlationId → Refusing s' j c k := by
    intro q op hinv hq
    obtain ⟨-, rfl⟩ := invokeSlots_eq hinv
    have hheap : (Slot.invoke cfg.table (.caller k) op
        (s.callerTo k q).slots).heap = s.slots.heap := by
      cases op <;> rfl
    unfold Refusing
    rw [hheap, invoke_thread]
    show ((s.callerTo k q).callers k).pc.Refusing c _ _
      ((s.callerTo k q).callers k).correlationId
    rw [callerTo_callers]
    exact hq
  unfold Refusing at h
  generalize (s.callers k).pc = pc at h hs
  cases pc with
  | copyDriver | recordCompletion =>
      cases hs
      unfold Refusing
      rw [setCaller_callers]
      exact h
  | recordStart =>
      cases hs
      exact hgo _ _ rfl h
  | checkCanceled | checkRunning =>
      simp only [execCall] at hs
      split at hs <;> cases hs
      · exact hgo _ _ rfl (Or.inl h)
      · exact hgo _ _ rfl h
  | allocateSlot =>
      exact hinvoke hs ⟨h, enter_avoids ..⟩
  | awaitAllocate =>
      simp only [execCall] at hs
      split at hs
      · next args d s₁ hcoll =>
        obtain ⟨hr, hheap, hcallers⟩ := hcollect hcoll
        split at hs <;> cases hs
        · exact hgo _ _ hcallers (Or.inl h.1)
        · next hd =>
          unfold Refusing
          rw [setCaller_callers, hcallers, hon]
          have havoids := h.2
          rw [hr] at havoids
          exact havoids.resolve_left hd
      · cases hs
  | setCorrelationId =>
      cases hs
      refine hgo _ _ (onController_callers ..) ?_
      rw [onController_own s _ hon]
      rintro rfl
      exact h rfl
  | bindActiveSlot =>
      simp only [execCall, State.controller?, hon, Option.map_some,
        Controller.bindActiveSlot, hactive, Option.isSome_some, if_true] at hs
      cases hs
      exact hgo _ _ rfl h
  | discardSlot code message =>
      exact hinvoke hs h
  | awaitDiscard code message =>
      simp only [execCall] at hs
      split at hs <;> cases hs
      next hcoll =>
        obtain ⟨-, hheap, hcallers⟩ := hcollect hcoll
        refine hgo _ _ hcallers (Or.inr ?_)
        rw [hheap]
        exact h
  | setFailed code message =>
      cases hs
      refine hgo _ _ (onController_callers ..) ?_
      rw [onController_own s _ hon]
      exact ⟨h, rfl⟩
  | takeNotify code =>
      cases hs
      refine hgo _ _ (onController_callers ..) ?_
      rw [onController_own s _ hon]
      exact ⟨h.1, h.2, rfl, rfl⟩
  | leave outcome =>
      cases hs
      unfold Refusing
      rw [setCaller_callers]
      cases outcome with
      | failedInline => exact h
      | _ => exact h.elim
  | returned outcome =>
      cases outcome with
      | failedInline =>
          cases hs
          unfold Refusing
          rw [setCaller_callers]
          exact h
      | _ => exact h.elim
  | ranInline => cases hs
  | _ => exact h.elim

/-- Anybody's step, while call `c` is in flight and the controller is bound
to it. -/
theorem Refusing.apply {a : Action} (h : Refusing s j c k)
    (hk : k < s.started) (hon : (s.callers k).input.controller = some j)
    (hactive : (s.slots.heap.controllers j).activeSlot = some c)
    (hi : Inv cfg.table s.slots)
    (hlive : (s.slots.word (getSlotId c)).state.Live)
    (hs : Channel.apply cfg a s = some s')
    (hid : (s.slots.heap.controllers j).correlationId ≠ c →
      (s'.slots.heap.controllers j).correlationId ≠ c)
    (hfailed : (s.slots.heap.controllers j).failed = true →
      (s'.slots.heap.controllers j).failed = true)
    (hnotified : (s.slots.heap.controllers j).rpcCompleted = true
        ∧ (s.slots.heap.controllers j).notifyOnCancel = none →
      (s'.slots.heap.controllers j).rpcCompleted = true
        ∧ (s'.slots.heap.controllers j).notifyOnCancel = none) :
    Refusing s' j c k := by
  have hframe : s'.callers k = s.callers k →
      ((s.slots.threads (.caller k)).Avoids (getSlotId c) →
        (s'.slots.threads (.caller k)).Avoids (getSlotId c)) →
      Refusing s' j c k := by
    intro hcaller hth
    unfold Refusing
    rw [hcaller]
    exact CallPc.Refusing.frame h hid hfailed hnotified hth
  cases apply_tableStep hs with
  | call input hslots hstarted hcallers =>
      refine hframe ?_ fun hth => by rwa [hslots]
      rw [hcallers, Function.update_of_ne (by omega)]
  | caller k' timer hk' hcall =>
      by_cases hkk : k = k'
      · subst hkk
        exact h.own hon hactive hcall
      · refine hframe ((execCall_step hcall).others k hkk) fun hth => ?_
        rwa [(execCall_step hcall).client.others fun heq =>
          hkk (Tid.caller.inj heq)]
  | spurious k' current current' hpc hk' hslots hstarted hcallers =>
      have hkk : k ≠ k' := by
        rintro rfl
        unfold Refusing at h
        rw [hpc] at h
        exact h
      refine hframe ?_ fun hth => by rwa [hslots]
      rw [hcallers, Function.update_of_ne hkk]
  | io hf =>
      have hne : Tid.caller k ≠ .io := by rintro ⟨⟩
      refine hframe (by rw [hf.callers]) fun hth => ?_
      rwa [hf.slots.others hne]
  | user heap hslots hstarted hcallers =>
      refine hframe (by rw [hcallers]) fun hth => ?_
      rw [hslots]
      exact hth
  | slots a hmay ha hstarted hcallers =>
      refine hframe (by rw [hcallers]) fun hth => ?_
      generalize s'.slots = σ at ha
      cases apply_acts ha with
      | @step t pc _ hpc hexec =>
          have hok : ThreadOk s.slots.view t (.running pc) :=
            hpc ▸ hi.threads t
          by_cases ht : Tid.caller k = t
          · subst ht
            rw [hpc] at hth
            exact exec_avoids hi hok hexec hlive hth
          · rwa [(effect_exec hi hok hexec).others _ ht]
      | @move t _ th published hmove =>
          show (Function.update s.slots.threads t th (.caller k)).Avoids _
          by_cases ht : Tid.caller k = t
          · rw [ht, Function.update_self]
            exact hmove.avoids
          · rwa [Function.update_of_ne ht]
      | client heap metrics => cases hmay

-- == runs

/-- Allocation `g` of the cell `c` names is still in flight. -/
def StillInFlight (s : State) (c : UInt64) (g : Nat) : Prop :=
  (s.slots.lives (getSlotId c)).gen = g
    ∧ (s.slots.word (getSlotId c)).state = .inFlight

/-- It is over: somebody won it. -/
def Over (s : State) (c : UInt64) (g : Nat) : Prop :=
  ((s.slots.view (getSlotId c)).life.fate g).Taken
    ∨ (s.slots.view (getSlotId c)).life.fate g = .discarded

/-- It was made for controller `j`. -/
def MadeFor (s : State) (j : Nat) (c : UInt64) (g : Nat) : Prop :=
  g ≤ (s.slots.view (getSlotId c)).life.gen
    ∧ ((s.slots.view (getSlotId c)).life.argsOf g).controller = some j

/-- Controller `j` is bound to the call `c` names. The first `n` calls
have stamped it, if they were going to; a later one is on its way to be
refused. -/
structure Bound (s : State) (n j : Nat) (c : UInt64) : Prop where
  active : (s.slots.heap.controllers j).activeSlot = some c
  count : n ≤ s.started
  earlier : ∀ k < n, (s.callers k).input.controller = some j →
    (s.callers k).pc.unstamped = false
  further : ∀ k, n ≤ k → k < s.started →
    (s.callers k).input.controller = some j → Refusing s j c k

theorem StillInFlight.live (h : StillInFlight s c g)
    (hi : Inv cfg.table s.slots) :
    (s.slots.view (getSlotId c)).life.fate g = .live := by
  obtain ⟨rfl, hword⟩ := h
  refine (hi.cells _).live_of_state ?_
  show (s.slots.word _).state.Live
  rw [hword]
  decide

theorem Over.not_inFlight (hi : Inv cfg.table s.slots) (h : Over s c g) :
    ¬ StillInFlight s c g := by
  intro hstill
  unfold Over at h
  rw [hstill.live hi] at h
  rcases h with htaken | hdisc
  · exact htaken
  · cases hdisc

section Steps

variable {a : Action} (hi : Inv cfg.table s.slots)
  (hs : apply cfg a s = some s')
include hi hs

theorem MadeFor.apply (h : MadeFor s j c g) : MadeFor s' j c g := by
  unfold MadeFor
  rcases apply_cells hs with ⟨t, pc, hpc, hexec⟩ | hview
  · have hok : ThreadOk s.slots.view t (.running pc) := hpc ▸ hi.threads t
    have hsim := (effect_exec hi hok hexec).sim (getSlotId c)
    exact ⟨h.1.trans hsim.gen_le, by rw [hsim.argsOf_eq h.1]; exact h.2⟩
  · rw [hview]
    exact h

theorem Over.apply (h : Over s c g) : Over s' c g := by
  unfold Over
  rcases apply_cells hs with ⟨t, pc, hpc, hexec⟩ | hview
  · have hok : ThreadOk s.slots.view t (.running pc) := hpc ▸ hi.threads t
    have hsim := (effect_exec hi hok hexec).sim (getSlotId c)
    rcases h with htaken | hdisc
    · exact (hsim.taken (hi.cells _) htaken).imp id And.right
    · exact Or.inr (hsim.discarded (hi.cells _) hdisc)
  · rw [hview]
    exact h

/-- A call in flight stays in flight until it is won. -/
theorem StillInFlight.apply (h : StillInFlight s c g) :
    StillInFlight s' c g ∨ Over s' c g := by
  obtain ⟨rfl, hword⟩ := h
  rcases apply_cells hs with ⟨t, pc, hpc, hexec⟩ | hview
  · have hok : ThreadOk s.slots.view t (.running pc) := hpc ▸ hi.threads t
    exact (inFlight_exec hi hok hexec hword).imp id Or.inl
  · have hcell := congrFun hview (getSlotId c)
    exact Or.inl ⟨congrArg (·.life.gen) hcell,
      (congrArg (·.word.state) hcell).trans hword⟩

/-- Whatever anybody does, the controller stays bound to the call in
flight, and further calls go on being refused. -/
theorem Bound.apply (hb : Bound s n j c) (hstill : StillInFlight s c g)
    (hok : usersLeave j s a) : Bound s' n j c := by
  have hlive : (s.slots.word (getSlotId c)).state.Live := by
    rw [hstill.2]
    decide
  have hactive := apply_kept (Controller.kept_active c)
    (fun _ _ _ _ _ h => h) (by
      intro t w p hth ctl hctl
      -- whoever holds a cell does not hold this one
      have hne : w.cid ≠ c := by
        rintro rfl
        have hhold : HoldOk s.slots.view t w p := by
          have := hi.threads t
          rwa [hth] at this
        have hnow := (hi.cells (getSlotId w.cid)).live_of_state hlive
        rw [hhold.now] at hnow
        cases hnow
      show (ctl.clearActiveSlot w.cid).activeSlot = some c
      unfold Controller.clearActiveSlot
      rw [if_neg (by rw [hctl]; exact fun h => hne (Option.some.inj h).symm)]
      exact hctl) hok hs hb.active
  have hid := apply_kept_always (Controller.kept_id c) (fun _ h => h) (by
    intro k hk hpc hon ctl _
    by_cases hkn : k < n
    · have hun := hb.earlier k hkn hon
      rw [hpc] at hun
      cases hun
    · have href := hb.further k (by omega) hk hon
      unfold Refusing at href
      rw [hpc] at href
      rintro rfl
      exact href rfl) hok hs
  have hfailed := apply_kept_always Controller.kept_failed (fun _ h => h)
    (fun _ _ _ _ _ h => h) hok hs
  have hnotified := apply_kept_always Controller.kept_notified
    (fun _ h => h) (fun _ _ _ _ _ h => h) hok hs
  refine ⟨hactive, ?_, fun k hk hon => ?_, fun k hk hlt hon => ?_⟩
  · rcases apply_started hs with heq | ⟨heq, -⟩
    · exact heq ▸ hb.count
    · exact heq ▸ hb.count.trans (Nat.le_succ _)
  · obtain ⟨hinput, hpc⟩ := apply_caller (hk.trans_le hb.count) hs
    rw [hinput] at hon
    by_contra hun
    have hold := hb.earlier k hk hon
    rw [hpc (Bool.eq_true_of_not_eq_false hun)] at hold
    cases hold
  · by_cases hks : k < s.started
    · obtain ⟨hinput, -⟩ := apply_caller hks hs
      rw [hinput] at hon
      exact (hb.further k hk hks hon).apply hks hon hb.active hi hlive hs hid
        hfailed hnotified
    · -- a new call
      rcases apply_started hs with heq | ⟨heq, input, hnew⟩
      · omega
      · have hk' : k = s.started := by omega
        subst hk'
        unfold Refusing
        rw [hnew]
        exact rfl

end Steps

section Runs

variable {s₀ : State}

/-- Along a run the call is in flight on a controller that is bound to it,
or it is over. -/
theorem bound_reach (h₀ : (machine cfg).Reachable s₀)
    (hb : Bound s₀ n j c) (hstill : StillInFlight s₀ c g)
    (h : ((machine cfg).startedAt s₀).Reach (usersLeave j) s) :
    (StillInFlight s c g ∧ Bound s n j c) ∨ Over s c g := by
  induction h with
  | start h =>
      cases h
      exact Or.inl ⟨hstill, hb⟩
  | step hreach hok hs ih =>
      have hi := inv_reachable (slots_reachable (h₀.onward hreach))
      rcases ih with ⟨hstill, hb⟩ | hover
      · exact (hstill.apply hi hs).imp_left fun hstill' =>
          ⟨hstill', hb.apply hi hs hstill hok⟩
      · exact Or.inr (hover.apply hi hs)

theorem madeFor_reach {ok : State → Action → Prop}
    (h₀ : (machine cfg).Reachable s₀) (hmade : MadeFor s₀ j c g)
    (h : ((machine cfg).startedAt s₀).Reach ok s) : MadeFor s j c g := by
  induction h with
  | start h =>
      cases h
      exact hmade
  | step hreach hok hs ih =>
      exact ih.apply (inv_reachable (slots_reachable (h₀.onward hreach))) hs

/-- A failed controller stays failed. -/
theorem failed_reach
    (hfailed : (s₀.slots.heap.controllers j).failed = true)
    (h : ((machine cfg).startedAt s₀).Reach (usersLeave j) s) :
    (s.slots.heap.controllers j).failed = true := by
  induction h with
  | start h =>
      cases h
      exact hfailed
  | step hreach hok hs ih =>
      exact apply_kept_always Controller.kept_failed (fun _ h => h)
        (fun _ _ _ _ _ h => h) hok hs ih

/-- A step of a winner, as a step of the channel. -/
theorem apply_hold {t : Tid} {w : Winner} {p : HoldPc}
    (hth : s.slots.threads t = .running (.hold w p))
    (hs : Channel.apply cfg (.slots (.step t)) s = some s') :
    execHold cfg.table t w p s.slots = s'.slots := by
  simp only [Channel.apply, slotsMayTake, if_true, Slot.apply, hth] at hs
  obtain ⟨σ, hσ, rfl⟩ := Option.map_eq_some_iff.mp hs
  exact Option.some.inj hσ

/-- The response to a call whose controller has failed. -/
theorem MadeFor.response {t : Tid} {w : Winner} {r : Response}
    (hmade : MadeFor s j c g) (hi : Inv cfg.table s.slots)
    (hfailed : (s.slots.heap.controllers j).failed = true)
    (hcid : w.cid = c) (hgen : w.gen = g)
    (hth : s.slots.threads t = .running (.hold w (.responseApply r)))
    (hs : Channel.apply cfg (.slots (.step t)) s = some s') :
    s'.slots.heap.messages = s.slots.heap.messages
      ∧ s'.slots.threads t = .running (.hold w
        (.responseCount (s'.slots.heap.controllers j).errorCode)) := by
  subst hcid hgen
  have hhold : HoldOk s.slots.view t w (.responseApply r) := by
    have := hi.threads t
    rwa [hth] at this
  have hctl : (s.slots.args (getSlotId w.cid)).controller = some j :=
    (congrArg CallArgs.controller (hhold.fields rfl)).trans hmade.2
  obtain ⟨hmessages, -, hcode⟩ :=
    applyResponse_failed cfg.table r hctl hfailed
  rw [← apply_hold hth hs]
  refine ⟨hmessages, ?_⟩
  simp only [execHold, goto_thread]
  rw [hcode]
  rfl

/-- What a call that came back wrote. -/
theorem Refusing.done {outcome : StartOutcome} (h : Refusing s j c k)
    (hout : (s.callers k).pc.outcome = some outcome) :
    outcome = .failedInline
      ∧ ((s.callers k).correlationId = 0
        ∨ (s.slots.heap.controllers j).correlationId ≠ c)
      ∧ (s.slots.heap.controllers j).failed = true
      ∧ (s.slots.heap.controllers j).rpcCompleted = true
      ∧ (s.slots.heap.controllers j).notifyOnCancel = none := by
  unfold Refusing at h
  cases hpc : (s.callers k).pc with
  | leave o | returned o =>
      rw [hpc] at h hout
      cases hout
      cases outcome with
      | failedInline => exact ⟨rfl, h⟩
      | _ => exact h.elim
  | ranInline =>
      rw [hpc] at h hout
      cases hout
      exact ⟨rfl, h⟩
  | _ =>
      rw [hpc] at hout
      cases hout

/-- A further call on the controller of a call in flight that comes back
before that is resolved: it was refused, and the controller is still bound
to the first call, but is failed, completed and without its callback, and
if the further call was given an id, it does not have the first call's.
From then on the controller stays failed, and a response to the first call
leaves the response object alone and completes it with the controller's
error. -/
theorem further_call_overwrites {outcome : StartOutcome}
    (h₀ : (machine cfg).Reachable s₀)
    (hword : s₀.slots.word (getSlotId c) = ⟨getVersion c, .inFlight⟩)
    (hctl : (s₀.slots.args (getSlotId c)).controller = some j)
    (hactive : (s₀.slots.heap.controllers j).activeSlot = some c)
    (hearlier : ∀ k < s₀.started, (s₀.callers k).input.controller = some j →
      (s₀.callers k).pc.unstamped = false)
    (h : ((machine cfg).startedAt s₀).Reach (usersLeave j) s)
    (hstill : StillInFlight s c (s₀.slots.lives (getSlotId c)).gen)
    (hk : s₀.started ≤ k) (hlt : k < s.started)
    (hon : (s.callers k).input.controller = some j)
    (hout : (s.callers k).pc.outcome = some outcome) :
    outcome = .failedInline
      ∧ (s.slots.heap.controllers j).activeSlot = some c
      ∧ (s.slots.heap.controllers j).failed = true
      ∧ (s.slots.heap.controllers j).rpcCompleted = true
      ∧ (s.slots.heap.controllers j).notifyOnCancel = none
      ∧ ((s.callers k).correlationId ≠ 0 →
        (s.slots.heap.controllers j).correlationId ≠ c)
      ∧ ∀ s₁, ((machine cfg).startedAt s).Reach (usersLeave j) s₁ →
        (s₁.slots.heap.controllers j).failed = true
        ∧ ∀ t w r s₂, w.cid = c →
          w.gen = (s₀.slots.lives (getSlotId c)).gen →
          s₁.slots.threads t = .running (.hold w (.responseApply r)) →
          apply cfg (.slots (.step t)) s₁ = some s₂ →
          s₂.slots.heap.messages = s₁.slots.heap.messages
            ∧ s₂.slots.threads t = .running (.hold w
              (.responseCount (s₂.slots.heap.controllers j).errorCode)) := by
  have hi₀ := inv_reachable (slots_reachable h₀)
  have hs := h₀.onward h
  have hstill₀ : StillInFlight s₀ c (s₀.slots.lives (getSlotId c)).gen :=
    ⟨rfl, by rw [hword]⟩
  have hmade₀ : MadeFor s₀ j c (s₀.slots.lives (getSlotId c)).gen := by
    obtain ⟨-, -, -, hfields⟩ := (hi₀.cells (getSlotId c)).live
      (hstill₀.live hi₀)
    exact ⟨Nat.le_refl _,
      (congrArg CallArgs.controller hfields).symm.trans hctl⟩
  have hb₀ : Bound s₀ s₀.started j c :=
    ⟨hactive, Nat.le_refl _, hearlier, fun k hk hlt => absurd hk (by omega)⟩
  have hb : Bound s s₀.started j c := by
    rcases bound_reach h₀ hb₀ hstill₀ h with ⟨-, hb⟩ | hover
    · exact hb
    · exact absurd hstill
        (hover.not_inFlight (inv_reachable (slots_reachable hs)))
  obtain ⟨hinline, hid, hfailed, hcompleted, hnotify⟩ :=
    (hb.further k hk hlt hon).done hout
  refine ⟨hinline, hb.active, hfailed, hcompleted, hnotify,
    hid.resolve_left, fun s₁ h₁ => ⟨failed_reach hfailed h₁, ?_⟩⟩
  intro t w r s₂ hcid hgen hth hstep
  exact (madeFor_reach hs (madeFor_reach h₀ hmade₀ h) h₁).response
    (inv_reachable (slots_reachable (hs.onward h₁)))
    (failed_reach hfailed h₁) hcid hgen hth hstep

end Runs

-- == two calls

theorem machine_apply (cfg : ChannelConfig) (a : Action) (s : State) :
    (machine cfg).apply a s = apply cfg a s := rfl

/-- A channel with two cells. -/
def twoCalls : ChannelConfig :=
  { oneCall with table := twoCells, maxInFlight := 2 }

/-- A new connection for `twoCalls`. -/
def twoCallsStart : State := { slots := { table := .init twoCells } }

theorem twoCallsStart_start : (machine twoCalls).start twoCallsStart :=
  ⟨_, ⟨{}, rfl⟩, rfl⟩

/-- `n` steps of `StartUnaryCall` in call `k`. -/
def startSteps (k n : Nat) : List Action :=
  List.replicate n (.caller k (some 1))

/-- Call `k` from its start until it is in flight. -/
def publishSteps (k : Nat) : List Action :=
  startSteps k 5 ++ tableSteps (.caller k) 8 ++ startSteps k 6
    ++ tableSteps (.caller k) 2 ++ startSteps k 6
    ++ tableSteps (.caller k) 3 ++ startSteps k 3

/-- A callback is registered, and call 0 is started on the controller. -/
def firstCall : List Action :=
  .user { controllers := fun _ => { notifyOnCancel := some 5 } }
    :: .call
      { controller := some 0, responseMsg := some 0, executor := some 0 }
    :: publishSteps 0

/-- Call 0 is in flight. -/
def firstState : State := (machine twoCalls).final firstCall twoCallsStart

theorem firstState_reachable : (machine twoCalls).Reachable firstState := by
  unfold firstState
  exact Machine.reachable_final twoCallsStart_start (by decide +kernel)

/-- Call 1 is started on the same controller and refused. -/
def secondCall : List Action :=
  .call { controller := some 0, executor := some 0 }
    :: (startSteps 1 5 ++ tableSteps (.caller 1) 8 ++ startSteps 1 4
      ++ tableSteps (.caller 1) 9 ++ startSteps 1 6)

/-- The users write nothing. -/
def noUsers (_ : State) : Action → Bool
  | .user _ => false
  | _ => true

theorem usersLeave_of_noUsers {s : State} {a : Action} (j : Nat)
    (h : noUsers s a = true) : usersLeave j s a := by
  rintro heap rfl
  cases h

/-- The state it leaves. -/
def refusedState : State :=
  ((machine twoCalls).startedAt firstState).finalWhile noUsers secondCall
    firstState

/-- The response to call 0. -/
def answer : Response := { body := [7] }

/-- Some thread resolves call 0 with it, up to where it schedules the
continuation. -/
def answerSteps : List Action :=
  .slots (.invoke (.resolver 0) (.completeResponseSlot 0x100000000 answer))
    :: tableSteps (.resolver 0) 16

/-- The thread is about to apply the response. -/
def answeringState : State :=
  ((machine twoCalls).startedAt refusedState).finalWhile noUsers
    (answerSteps.take 3) refusedState

/-- The response, and after it. -/
def answeredState : State :=
  (machine twoCalls).final [.slots (.step (.resolver 0))] answeringState

/-- Call 1 is refused and leaves its marks on the controller of call 0, whose
response is not parsed any more. -/
theorem secondCall_overwrites :
    (refusedState.callers 1).correlationId = 0x100000001
      ∧ (refusedState.slots.heap.controllers 0).failed = true
      ∧ (refusedState.slots.heap.controllers 0).correlationId
        ≠ 0x100000000
      ∧ answeredState.slots.heap.messages
        = answeringState.slots.heap.messages := by
  have hrefused : ((machine twoCalls).startedAt firstState).Reach
      (usersLeave 0) refusedState := by
    unfold refusedState
    exact (Machine.reach_finalWhile rfl (by decide +kernel)).weaken
      fun _ _ => usersLeave_of_noUsers 0
  have hanswering : ((machine twoCalls).startedAt refusedState).Reach
      (usersLeave 0) answeringState := by
    unfold answeringState
    exact (Machine.reach_finalWhile rfl (by decide +kernel)).weaken
      fun _ _ => usersLeave_of_noUsers 0
  have hstep : apply twoCalls (.slots (.step (.resolver 0))) answeringState
      = some answeredState := by
    unfold answeredState
    rw [← machine_apply]
    exact Machine.apply_final (by decide +kernel)
  have hcid : (refusedState.callers 1).correlationId = 0x100000001 := by
    decide +kernel
  obtain ⟨-, -, hfailed, -, -, hid, hafter⟩ :=
    further_call_overwrites (c := 0x100000000) (j := 0) (k := 1)
      firstState_reachable (by decide +kernel) (by decide +kernel)
      (by decide +kernel) (by decide +kernel) hrefused
      ⟨by decide +kernel, by decide +kernel⟩ (by decide +kernel)
      (by decide +kernel) (by decide +kernel)
      (show (refusedState.callers 1).pc.outcome = some .failedInline by
        decide +kernel)
  have hgen : 1 = (firstState.slots.lives (getSlotId 0x100000000)).gen := by
    decide +kernel
  have hresponse := (hafter answeringState hanswering).2 (.resolver 0)
    ⟨0x100000000, 1, .complete⟩ answer answeredState rfl hgen
    (by decide +kernel) hstep
  exact ⟨hcid, hfailed, hid (by rw [hcid]; decide), hresponse.1⟩

/-- The refused call leaves its id, its failure and no callback on the
controller of the call in flight; the response is then not parsed, and
the call ends with the refusal's error. -/
theorem secondCall_fails_first :
    (machine twoCalls).Reachable firstState
      ∧ firstState.slots.word 0 = ⟨1, .inFlight⟩
      ∧ firstState.slots.heap.controllers 0
        = { correlationId := 0x100000000, activeSlot := some 0x100000000,
            notifyOnCancel := some 5 }
      ∧ ((machine twoCalls).run secondCall firstState).isSome = true
      ∧ (refusedState.callers 1).pc = .ranInline
      ∧ refusedState.slots.heap.controllers 0
        = { failed := true, errorCode := RPC_EINTERNAL,
            errorText := "RpcController is already bound to an active RPC",
            correlationId := 0x100000001, activeSlot := some 0x100000000,
            rpcCompleted := true }
      ∧ ((machine twoCalls).run answerSteps firstState).map
          (fun s => (s.slots.heap.messages 0,
            (s.slots.heap.controllers 0).failed))
        = some ([7], false)
      ∧ ((machine twoCalls).run answerSteps refusedState).map
          (fun s => (s.slots.heap.messages 0,
            (s.slots.heap.controllers 0).failed))
        = some ([], true) := by
  exact ⟨firstState_reachable, by decide +kernel⟩

end AntRpc.Channel
