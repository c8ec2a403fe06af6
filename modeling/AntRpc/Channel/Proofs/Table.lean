/-
The connection drives its slot table as one of the table's clients may:
every step of the connection is a step of the table's own machine, or
leaves the table alone. So whatever holds of the table in every run holds
of the table inside every connection.
-/
import AntRpc.Channel.Machine
import AntRpc.Slot.Proofs.Stakes

namespace AntRpc.Channel

open Protocol Slot Lib

-- == client steps

/-- What a thread outside the table does to it: write its own objects and
counters, enter an operation, or pick up a result. -/
inductive ClientStep (cfg : TableConfig) (t : Tid) (σ σ' : Slot.State Tid) :
    Prop
  | client (heap : Heap) (metrics : ClientMetrics)
      (h : σ' = { σ with
        heap := heap
        metrics := { metrics with
          activeInFlight := σ.metrics.activeInFlight } })
  | invoke (op : Op) (hidle : σ.threads t = .idle)
      (h : σ' = Slot.invoke cfg t op σ)
  | collect (r : Result) (hr : σ.threads t = .returned r)
      (h : σ' = σ.setThread t .idle)

section ClientStep

variable {cfg : TableConfig} {t : Tid} {σ σ' : Slot.State Tid}

theorem ClientStep.refl : ClientStep cfg t σ σ :=
  .client σ.heap σ.metrics rfl

theorem ClientStep.setMetrics {m : ClientMetrics}
    (h : m.activeInFlight = σ.metrics.activeInFlight) :
    ClientStep cfg t σ { σ with metrics := m } := by
  refine .client σ.heap m ?_
  rw [← h]

theorem ClientStep.apply (h : ClientStep cfg t σ σ') :
    ∃ a, Slot.apply cfg a σ = some σ' := by
  cases h with
  | client heap metrics h => exact ⟨.client heap metrics, by rw [h]; rfl⟩
  | invoke op hidle h =>
      refine ⟨.invoke t op, ?_⟩
      simp only [Slot.apply, hidle]
      rw [h]
  | collect r hr h =>
      refine ⟨.collect t, ?_⟩
      simp only [Slot.apply, hr]
      rw [h]

theorem ClientStep.view (h : ClientStep cfg t σ σ') : σ'.view = σ.view := by
  cases h with
  | client heap metrics h => rw [h]; rfl
  | invoke op hidle h => rw [h]; cases op <;> rfl
  | collect r hr h => rw [h]; rfl

theorem ClientStep.others (h : ClientStep cfg t σ σ') {u : Tid}
    (hu : u ≠ t) : σ'.threads u = σ.threads u := by
  cases h with
  | client heap metrics h => rw [h]
  | invoke op hidle h =>
      rw [h]
      cases op <;> exact Function.update_of_ne hu ..
  | collect r hr h =>
      rw [h]
      exact Function.update_of_ne hu ..

end ClientStep

-- == callers

section Callers

variable {cfg : ChannelConfig} {s s' : State} {k : Nat}

theorem recordCompletion_activeInFlight (m : ClientMetrics) (code : Int32) :
    (m.recordCompletion code).activeInFlight = m.activeInFlight := by
  unfold ClientMetrics.recordCompletion
  simp only
  split_ifs <;> rfl

/-- Entering an operation of the table. -/
theorem invokeSlots_eq {t : Tid} {op : Op}
    (hs : s.invokeSlots cfg t op = some s') :
    s.slots.threads t = .idle
      ∧ s' = { s with slots := Slot.invoke cfg.table t op s.slots } := by
  unfold State.invokeSlots at hs
  split at hs
  · next h =>
    cases hs
    exact ⟨h, rfl⟩
  · cases hs

/-- Picking up a result. -/
theorem collectSlots_eq {t : Tid} {r : Result}
    (hs : s.collectSlots t = some (r, s')) :
    s.slots.threads t = .returned r
      ∧ s' = { s with slots := s.slots.setThread t .idle } := by
  unfold State.collectSlots at hs
  split at hs
  · next h =>
    cases hs
    exact ⟨h, rfl⟩
  · cases hs

theorem ClientStep.of_invokeSlots {s₁ : State} {t : Tid} {op : Op}
    (hs : s₁.invokeSlots cfg t op = some s') (h : s₁.slots = s.slots) :
    ClientStep cfg.table t s.slots s'.slots := by
  obtain ⟨hidle, rfl⟩ := invokeSlots_eq hs
  rw [h] at hidle
  exact .invoke op hidle (by rw [h])

theorem ClientStep.onController (input : CallInput)
    (f : Controller → Controller) (t : Tid) (cfg : TableConfig) :
    ClientStep cfg t s.slots (s.onController input f).slots := by
  unfold State.onController
  split
  · exact .refl
  · exact .client _ s.slots.metrics rfl

@[simp] theorem setCaller_callers (s : State) (k : Nat) (c : Caller) :
    (s.setCaller k c).callers k = c := Function.update_self ..

@[simp] theorem callerTo_callers (s : State) (k : Nat) (pc : CallPc) :
    (s.callerTo k pc).callers k = { s.callers k with pc := pc } :=
  Function.update_self ..

/-- `StartUnaryCall` may still stamp its controller. -/
def CallPc.unstamped : CallPc → Bool
  | .copyDriver | .recordStart | .checkCanceled | .checkRunning
  | .allocateSlot | .awaitAllocate | .setCorrelationId => true
  | _ => false

/-- What a step of `StartUnaryCall` makes of controller `j`. -/
inductive CallerWrites (caller : Caller) (pc : CallPc) (j : Nat)
    (ctl : Controller) : Controller → Prop
  | none : CallerWrites caller pc j ctl ctl
  | stamp (hpc : pc = .setCorrelationId)
      (hon : caller.input.controller = some j) :
      CallerWrites caller pc j ctl
        { ctl with correlationId := caller.correlationId }
  | bind {c : UInt64} (hfree : ctl.activeSlot = .none) :
      CallerWrites caller pc j ctl { ctl with activeSlot := some c }
  | fail {code : Int32} {message : String} :
      CallerWrites caller pc j ctl (ctl.setFailed code message)
  | take : CallerWrites caller pc j ctl ctl.takeNotifyOnCompletion.1

/-- What a step of `StartUnaryCall` at `pc` does: the table is left alone
or used as a client may, and so are the other callers. -/
structure CallStep (cfg : ChannelConfig) (s s' : State) (k : Nat)
    (pc : CallPc) : Prop where
  client : ClientStep cfg.table (.caller k) s.slots s'.slots
  started : s'.started = s.started
  others : ∀ j, j ≠ k → s'.callers j = s.callers j
  input : (s'.callers k).input = (s.callers k).input
  unstamped : (s'.callers k).pc.unstamped = true → pc.unstamped = true
  writes : ∀ j, CallerWrites (s.callers k) pc j
    (s.slots.heap.controllers j) (s'.slots.heap.controllers j)

section CallStep

variable {pc q : CallPc}

/-- The users' objects are left alone. -/
theorem CallStep.quiet {c : Caller}
    (hclient : ClientStep cfg.table (.caller k) s.slots s'.slots)
    (hstarted : s'.started = s.started)
    (hcallers : s'.callers = Function.update s.callers k c)
    (hinput : c.input = (s.callers k).input)
    (hpc : c.pc.unstamped = true → pc.unstamped = true)
    (hheap : s'.slots.heap = s.slots.heap) : CallStep cfg s s' k pc where
  client := hclient
  started := hstarted
  others j hj := by rw [hcallers, Function.update_of_ne hj]
  input := by rw [hcallers, Function.update_self, hinput]
  unstamped := by rw [hcallers, Function.update_self]; exact hpc
  writes j := by rw [hheap]; exact .none

/-- The caller enters an operation of the table. -/
theorem CallStep.invoke {op : Op}
    (hs : (s.callerTo k q).invokeSlots cfg (.caller k) op = some s')
    (hpc : q.unstamped = true → pc.unstamped = true) :
    CallStep cfg s s' k pc := by
  have hclient : ClientStep cfg.table (.caller k) s.slots s'.slots :=
    .of_invokeSlots hs rfl
  obtain ⟨-, rfl⟩ := invokeSlots_eq hs
  exact .quiet hclient rfl rfl rfl hpc (by cases op <;> rfl)

/-- The caller picks up a result. -/
theorem CallStep.collect {r : Result} {s₁ : State} {c : Caller}
    (hs : s.collectSlots (.caller k) = some (r, s₁))
    (hinput : c.input = (s.callers k).input)
    (hpc : c.pc.unstamped = true → pc.unstamped = true) :
    CallStep cfg s (s₁.setCaller k c) k pc := by
  obtain ⟨hr, rfl⟩ := collectSlots_eq hs
  exact .quiet (.collect r hr rfl) rfl rfl hinput hpc rfl

/-- The caller writes its controller. -/
theorem CallStep.onController {f : Controller → Controller}
    (hpc : q.unstamped = true → pc.unstamped = true)
    (hf : ∀ j ctl, (s.callers k).input.controller = some j →
      s.controller? (s.callers k).input = some ctl →
      CallerWrites (s.callers k) pc j ctl (f ctl)) :
    CallStep cfg s ((s.onController (s.callers k).input f).callerTo k q) k
      pc := by
  have hclient : ClientStep cfg.table (.caller k) s.slots
      (s.onController (s.callers k).input f).slots := .onController ..
  unfold State.onController at hclient ⊢
  split at hclient
  · exact .quiet hclient rfl rfl rfl hpc rfl
  · next i hi =>
    refine ⟨hclient, rfl, fun j hj => Function.update_of_ne hj .., ?_, ?_,
      fun j => ?_⟩
    · rw [callerTo_callers]
    · rw [callerTo_callers]
      exact hpc
    · show CallerWrites _ pc j _
        (Function.update s.slots.heap.controllers i _ j)
      by_cases hij : j = i
      · subst hij
        rw [Function.update_self]
        exact hf j _ hi (by unfold State.controller?; rw [hi]; rfl)
      · rw [Function.update_of_ne hij]
        exact .none

end CallStep

/-- A step of `StartUnaryCall`. -/
theorem execCall_step {timer : Option UInt64} {pc : CallPc}
    (hs : execCall cfg k timer pc s = some s') :
    CallStep cfg s s' k pc := by
  cases pc with
  | copyDriver | cancelTimer | releaseBytes | enqueueReserved | readTimeout
  | leave =>
      cases hs
      exact .quiet .refl rfl rfl rfl id rfl
  | recordStart | addGauge =>
      cases hs
      exact .quiet (.setMetrics rfl) rfl rfl rfl id rfl
  | subGauge next =>
      cases hs
      exact .quiet (.setMetrics rfl) rfl rfl rfl (by cases next <;> exact id)
        rfl
  | recordCompletion code =>
      cases hs
      exact .quiet (.setMetrics (recordCompletion_activeInFlight ..)) rfl rfl
        rfl id rfl
  | setCorrelationId =>
      cases hs
      exact .onController (fun _ => rfl) fun j ctl hj _ => .stamp rfl hj
  | setFailed code message =>
      cases hs
      exact .onController id fun _ _ _ _ => .fail
  | takeNotify code =>
      cases hs
      exact .onController id fun _ _ _ _ => .take
  | checkCanceled | checkRunning =>
      simp only [execCall] at hs
      split at hs <;> cases hs <;>
        exact .quiet .refl rfl rfl rfl (fun _ => rfl) rfl
  | loadOutbound | casOutbound current =>
      simp only [execCall] at hs
      split_ifs at hs <;> cases hs <;>
        exact .quiet .refl rfl rfl rfl id rfl
  | addTimer | packFrame =>
      simp only [execCall] at hs
      split at hs <;> cases hs <;> exact .quiet .refl rfl rfl rfl id rfl
  | bindActiveSlot =>
      simp only [execCall] at hs
      split at hs
      · cases hs
        exact .quiet .refl rfl rfl rfl id rfl
      · next ctl hctl =>
        split at hs <;> cases hs
        · exact .quiet .refl rfl rfl rfl id rfl
        · next bound cancelRequested hbind =>
          refine .onController (by split <;> exact id) fun j ctl' _ hctl' => ?_
          rw [hctl] at hctl'
          cases hctl'
          unfold Controller.bindActiveSlot at hbind
          split_ifs at hbind with hfree
          cases hbind
          exact .bind (by simpa using hfree)
  | allocateSlot => exact .invoke hs fun _ => rfl
  | cancelBound | attachTimer | publishSlot | resolvePublish | resolveFail
  | discardSlot => exact .invoke hs id
  | awaitAllocate =>
      simp only [execCall] at hs
      split at hs
      · next hcoll =>
        have hcallers := congrArg State.callers (collectSlots_eq hcoll).2
        split at hs <;> cases hs <;>
          exact .collect hcoll (by rw [hcallers]) fun _ => rfl
      · cases hs
  | awaitPublish | awaitAttach | awaitResolvePublish | awaitCancelBound
  | awaitResolveFail | awaitDiscard =>
      simp only [execCall] at hs
      split at hs <;> cases hs
      all_goals
        next hcoll =>
          have hcallers := congrArg State.callers (collectSlots_eq hcoll).2
          exact .collect hcoll (by rw [hcallers]) id
  | returned o =>
      cases o <;> cases hs
      exact .quiet .refl rfl rfl rfl id rfl
  | ranInline => cases hs

end Callers

-- == the IO thread

section Io

variable {cfg : ChannelConfig} {s s' : State}

/-- A step of the IO thread leaves the callers and the users' objects
alone and uses the table as a client that only resolves. -/
structure IoFrame (cfg : ChannelConfig) (s s' : State) : Prop where
  slots : ClientStep cfg.table .io s.slots s'.slots
  started : s'.started = s.started
  callers : s'.callers = s.callers
  thread : s'.slots.threads .io = s.slots.threads .io
    ∨ s'.slots.threads .io = .idle
    ∨ (s'.slots.threads .io).Doing .resolve
  heap : s'.slots.heap = s.slots.heap

theorem completeRace_frame (result : Int) (s : State) :
    (completeRace result s).slots = s.slots
      ∧ (completeRace result s).started = s.started
      ∧ (completeRace result s).callers = s.callers := by
  unfold completeRace
  split
  · exact ⟨rfl, rfl, rfl⟩
  · simp only
    split <;> exact ⟨rfl, rfl, rfl⟩

theorem execConnect_frame (ch : IoChoice) (op : ConnectOp) :
    IoFrame cfg s (execConnect ch s op) := by
  cases op with
  | completeFirst result =>
      obtain ⟨h1, h2, h3⟩ :=
        completeRace_frame result { s with connectOp := .gone }
      simp only [execConnect]
      exact ⟨by rw [h1]; exact .refl, h2, h3, by rw [h1]; exact Or.inl rfl,
        by rw [h1]⟩
  | timeoutCompleted =>
      obtain ⟨h1, h2, h3⟩ :=
        completeRace_frame (-ETIMEDOUT) { s with connectTimer := .gone }
      simp only [execConnect]
      exact ⟨by rw [h1]; exact .refl, h2, h3, by rw [h1]; exact Or.inl rfl,
        by rw [h1]⟩
  | start | finishConnect | openConnect | armTimeout | joinConnect
  | connected =>
      simp only [execConnect]
      split <;> exact ⟨.refl, rfl, rfl, Or.inl rfl, rfl⟩
  | connectCompleted | startReceiver | endConnect =>
      exact ⟨.refl, rfl, rfl, Or.inl rfl, rfl⟩

theorem IoFrame.invokeSlots {op : Op} (hop : op.job = .resolve)
    (hs : s.invokeSlots cfg .io op = some s') : IoFrame cfg s s' := by
  have hslots := ClientStep.of_invokeSlots hs rfl
  obtain ⟨-, rfl⟩ := invokeSlots_eq hs
  refine ⟨hslots, rfl, rfl, Or.inr (Or.inr ?_), ?_⟩
  · show ((Slot.invoke cfg.table .io op s.slots).threads .io).Doing .resolve
    rw [invoke_thread, ← hop]
    exact enter_doing cfg.table op
  · cases op <;> rfl

theorem IoFrame.receive (r : ReadResult) (ops : List IoOp) :
    IoFrame cfg s ((s.receive r).push ops) := by
  cases r <;> exact ⟨.refl, rfl, rfl, Or.inl rfl, rfl⟩

theorem execReceive_frame {ch : IoChoice} {op : ReceiveOp}
    (hs : execReceive cfg ch s op = some s') : IoFrame cfg s s' := by
  cases op with
  | completeResponse c response => exact .invokeSlots rfl hs
  | endReceive => cases hs; exact ⟨.refl, rfl, rfl, Or.inl rfl, rfl⟩
  | receiveExit | parseFrames recvBuffer =>
      simp only [execReceive] at hs
      split at hs <;> cases hs <;> exact ⟨.refl, rfl, rfl, Or.inl rfl, rfl⟩
  | receiveLoop recvBuffer =>
      simp only [execReceive] at hs
      split at hs
      · split at hs
        · split at hs <;> cases hs
          exact .receive ..
        · cases hs
          exact ⟨.refl, rfl, rfl, Or.inl rfl, rfl⟩
      · cases hs
        exact ⟨.refl, rfl, rfl, Or.inl rfl, rfl⟩
  | readResumed recvBuffer result =>
      cases result with
      | data chunk => cases hs; exact ⟨.refl, rfl, rfl, Or.inl rfl, rfl⟩
      | eof | error =>
          simp only [execReceive] at hs
          split at hs <;> cases hs <;> exact ⟨.refl, rfl, rfl, Or.inl rfl, rfl⟩

theorem execWrite_frame {ch : IoChoice} {op : WriteOp}
    (hs : execWrite ch s op = some s') : IoFrame cfg s s' := by
  cases op with
  | sendFrame c buffer =>
      simp only [execWrite] at hs
      split at hs <;> cases hs <;> exact ⟨.refl, rfl, rfl, Or.inl rfl, rfl⟩
  | startNextWrite =>
      simp only [execWrite] at hs
      split at hs
      · cases hs
        exact ⟨.refl, rfl, rfl, Or.inl rfl, rfl⟩
      · split at hs <;> cases hs <;> exact ⟨.refl, rfl, rfl, Or.inl rfl, rfl⟩
  | writeLoop frame =>
      simp only [execWrite] at hs
      split at hs
      · split at hs
        · split at hs <;> cases hs
          exact ⟨.refl, rfl, rfl, Or.inl rfl, rfl⟩
        · cases hs
          exact ⟨.refl, rfl, rfl, Or.inl rfl, rfl⟩
      · cases hs
        exact ⟨.refl, rfl, rfl, Or.inl rfl, rfl⟩
  | writeResumed frame written =>
      simp only [execWrite] at hs
      split_ifs at hs <;> cases hs <;> exact ⟨.refl, rfl, rfl, Or.inl rfl, rfl⟩
  | writeExit | endWrite => cases hs; exact ⟨.refl, rfl, rfl, Or.inl rfl, rfl⟩

theorem execFailure_frame {ch : IoChoice} {op : FailureOp}
    (hs : execFailure cfg ch s op = some s') : IoFrame cfg s s' := by
  cases op with
  | releaseBytes | exchangeRunning => cases hs; exact ⟨.refl, rfl, rfl, Or.inl rfl, rfl⟩
  | subGauge => cases hs; exact ⟨.setMetrics rfl, rfl, rfl, Or.inl rfl, rfl⟩
  | cancelConnect | shutdownSocket | clearOutbound code message =>
      simp only [execFailure] at hs
      split at hs <;> cases hs <;> exact ⟨.refl, rfl, rfl, Or.inl rfl, rfl⟩
  | cancelRead | cancelWrite =>
      simp only [execFailure] at hs
      split at hs
      · cases hs
        exact ⟨.refl, rfl, rfl, Or.inl rfl, rfl⟩
      · split at hs <;> cases hs <;> exact ⟨.refl, rfl, rfl, Or.inl rfl, rfl⟩
  | failAll code message => exact .invokeSlots rfl hs
  | failSlot c code message => exact .invokeSlots rfl hs
  | awaitSlots | awaitFailAll =>
      obtain ⟨⟨r, s₁⟩, hc, rfl⟩ := Option.map_eq_some_iff.mp hs
      obtain ⟨hr, rfl⟩ := collectSlots_eq hc
      exact ⟨.collect r hr rfl, rfl, rfl,
        Or.inr (Or.inl (setThread_thread ..)), rfl⟩

theorem execClose_frame (op : CloseOp) : IoFrame cfg s (execClose s op) := by
  cases op with
  | tryFinishClose | checkCloseCommand =>
      simp only [execClose]
      split <;> exact ⟨.refl, rfl, rfl, Or.inl rfl, rfl⟩
  | _ => exact ⟨.refl, rfl, rfl, Or.inl rfl, rfl⟩

/-- One operation of the IO thread. -/
theorem execIo_frame {ch : IoChoice} {op : IoOp} {rest : List IoOp}
    (hs : execIo cfg ch op { s with io := rest } = some s') :
    IoFrame cfg s s' := by
  suffices h : IoFrame cfg { s with io := rest } s' from
    ⟨h.slots, h.started, h.callers, h.thread, h.heap⟩
  cases op with
  | connect op => cases hs; exact execConnect_frame ch op
  | receive op => exact execReceive_frame hs
  | write op => exact execWrite_frame hs
  | failure op => exact execFailure_frame hs
  | close op => cases hs; exact execClose_frame op

end Io

-- == refinement

section Refinement

variable {cfg : ChannelConfig} {s s' : State}

theorem execCloser_slots {n : Nat} {wait : CloseWait} {pc : ClosePc}
    (hs : execCloser n wait pc s = some s') :
    s'.slots = s.slots ∧ s'.started = s.started
      ∧ s'.callers = s.callers := by
  cases pc with
  | idle | done => cases hs
  | waitClosed =>
      simp only [execCloser] at hs
      split at hs
      · cases hs
        exact ⟨rfl, rfl, rfl⟩
      · split at hs <;> cases hs
        exact ⟨rfl, rfl, rfl⟩
      · cases hs
        exact ⟨rfl, rfl, rfl⟩
  | _ => cases hs; exact ⟨rfl, rfl, rfl⟩

theorem execInit_slots {timedOut : Bool} {pc : InitPc}
    (hs : execInit timedOut pc s = some s') :
    s'.slots = s.slots ∧ s'.started = s.started
      ∧ s'.callers = s.callers := by
  cases pc with
  | postStart => cases hs; exact ⟨rfl, rfl, rfl⟩
  | waitConnect =>
      simp only [execInit] at hs
      split_ifs at hs <;> cases hs <;> exact ⟨rfl, rfl, rfl⟩
  | closing =>
      simp only [execInit] at hs
      split at hs <;> cases hs
      exact ⟨rfl, rfl, rfl⟩
  | done => cases hs

/-- What an action of the connection is for its callers and its table. -/
inductive TableStep (cfg : ChannelConfig) (s s' : State) : Action → Prop
  | call (input : CallInput) (hslots : s'.slots = s.slots)
      (hstarted : s'.started = s.started + 1)
      (hcallers : s'.callers
        = Function.update s.callers s.started { input := input }) :
      TableStep cfg s s' (.call input)
  | caller (k : Nat) (timer : Option UInt64) (hk : k < s.started)
      (hs : execCall cfg k timer (s.callers k).pc s = some s') :
      TableStep cfg s s' (.caller k timer)
  | spurious (k : Nat) (current current' : Nat)
      (hpc : (s.callers k).pc = .casOutbound current) (hk : k < s.started)
      (hslots : s'.slots = s.slots) (hstarted : s'.started = s.started)
      (hcallers : s'.callers = Function.update s.callers k
        { s.callers k with pc := .casOutbound current' }) :
      TableStep cfg s s' (.spurious k)
  | io {a : Action} (h : IoFrame cfg s s') : TableStep cfg s s' a
  | slots (a : Slot.Action Tid) (hmay : slotsMayTake a = true)
      (hs : Slot.apply cfg.table a s.slots = some s'.slots)
      (hstarted : s'.started = s.started) (hcallers : s'.callers = s.callers) :
      TableStep cfg s s' (.slots a)
  | user (heap : Heap) (hslots : s'.slots = { s.slots with heap := heap })
      (hstarted : s'.started = s.started) (hcallers : s'.callers = s.callers) :
      TableStep cfg s s' (.user heap)

/-- Every action is one of these. -/
theorem apply_tableStep {a : Action} (hs : apply cfg a s = some s') :
    TableStep cfg s s' a := by
  have hquiet : s'.slots = s.slots ∧ s'.started = s.started
      ∧ s'.callers = s.callers → TableStep cfg s s' a := by
    rintro ⟨h1, h2, h3⟩
    exact .io ⟨by rw [h1]; exact .refl, h2, h3, by rw [h1]; exact Or.inl rfl,
      by rw [h1]⟩
  cases a with
  | call input => cases hs; exact .call input rfl rfl rfl
  | caller k timer =>
      simp only [apply] at hs
      split at hs
      · next hk => exact .caller k timer hk hs
      · cases hs
  | spurious k =>
      simp only [apply] at hs
      split at hs
      · next current hpc =>
        split at hs
        · next h =>
          cases hs
          exact .spurious k current _ hpc h.1 rfl rfl rfl
        · cases hs
      · cases hs
  | init timedOut => exact hquiet (execInit_slots hs)
  | close n | dispatch | connectDone result | timeoutFired =>
      simp only [apply] at hs
      split at hs <;> cases hs
      exact hquiet ⟨rfl, rfl, rfl⟩
  | closer n wait => exact hquiet (execCloser_slots hs)
  | io choice =>
      simp only [apply] at hs
      split at hs
      · cases hs
      · exact .io (execIo_frame hs)
  | readDone result =>
      simp only [apply] at hs
      split at hs
      · split at hs <;> cases hs
        cases result <;> exact hquiet ⟨rfl, rfl, rfl⟩
      · cases hs
  | writeDone written =>
      simp only [apply] at hs
      split at hs
      · split at hs <;> cases hs
        exact hquiet ⟨rfl, rfl, rfl⟩
      · cases hs
  | slots a =>
      simp only [apply] at hs
      split at hs
      · next hmay =>
        obtain ⟨slots, hslots, rfl⟩ := Option.map_eq_some_iff.mp hs
        exact .slots a hmay hslots rfl rfl
      · cases hs
  | user heap =>
      cases hs
      exact .user heap rfl rfl rfl

/-- A connection refines its slot table's machine. -/
theorem machine_refines (cfg : ChannelConfig) (ok : State → Action → Prop) :
    (machine cfg).Refines (Slot.machine cfg.table) State.slots ok where
  start := by
    rintro s ⟨slots, hslots, rfl⟩
    exact hslots
  step := by
    intro s s' a _ _ hs
    cases apply_tableStep hs with
    | call input hslots => exact Or.inl hslots
    | caller k timer hk hc => exact Or.inr (execCall_step hc).client.apply
    | spurious k current current' hpc hk hslots => exact Or.inl hslots
    | io h => exact Or.inr h.slots.apply
    | slots a hmay ha => exact Or.inr ⟨a, ha⟩
    | user heap hslots =>
        rw [hslots]
        exact Or.inr ⟨.client heap s.slots.metrics, rfl⟩

theorem slots_reachable {ok : State → Action → Prop}
    (h : (machine cfg).Reach ok s) :
    (Slot.machine cfg.table).Reachable s.slots :=
  (machine_refines cfg ok).reach h

end Refinement

end AntRpc.Channel
