/-
Where `StartUnaryCall` stands says what its call has at stake in the
table (`CallPc.Stake`): nothing, an allocation of its own, one handed
over, or a dead one. The paths that fail inline end with a dead one, the
others with one handed over.

# The exception

`PublishSlot` looks for a connection failure once more after it published.
When it finds one and another thread finished the call meanwhile, its
compare-and-swap fails and it answers `kInvalid`, as for a call that was
never published; `StartUnaryCall` then takes the call for its own again.
`recheckWins` excludes exactly that step.
-/
import AntRpc.Channel.Proofs.Table

namespace AntRpc.Channel

open Protocol Slot Lib

-- == program points

/-- The operation of the table an `await` point waits for. -/
def CallPc.job (c : Caller) (k : Nat) : CallPc → Option Job
  | .awaitAllocate => some (.allocate (c.input.args k))
  | .awaitCancelBound | .awaitResolveFail => some .resolve
  | .awaitAttach => some (.attach c.correlationId)
  | .awaitPublish | .awaitResolvePublish _ _ =>
      some (.publish c.correlationId)
  | .awaitDiscard _ _ => some (.discard c.correlationId)
  | .copyDriver | .recordStart | .checkCanceled | .checkRunning
  | .allocateSlot | .setCorrelationId | .bindActiveSlot | .cancelBound
  | .readTimeout | .addTimer | .attachTimer | .cancelTimer | .packFrame
  | .loadOutbound | .casOutbound _ | .addGauge | .publishSlot
  | .releaseBytes _ | .subGauge _ | .enqueueReserved | .resolvePublish _ _
  | .resolveFail _ _ | .discardSlot _ _ | .setFailed _ _ | .takeNotify _
  | .recordCompletion _ | .leave _ | .returned _ | .ranInline => none

/-- What the call has at stake. Nothing leads to the discarding release:
`PublishSlot` answers `kInvalid` to nobody. -/
def CallPc.Stake (v : Cells Tid) (th : Thread) (k : Nat) (c : UInt64) :
    CallPc → Prop
  | .copyDriver | .recordStart | .checkCanceled | .checkRunning
  | .allocateSlot => Fresh v k
  | .awaitAllocate => AllocStake v k th
  | .setCorrelationId | .bindActiveSlot | .cancelBound | .awaitCancelBound
  | .readTimeout | .addTimer | .attachTimer | .awaitAttach | .cancelTimer
  | .packFrame | .loadOutbound | .casOutbound _ | .addGauge | .publishSlot
  | .resolvePublish _ _ | .discardSlot _ _ => Owns v k c
  | .awaitPublish | .awaitResolvePublish _ _ => PublishStake v k c th
  | .releaseBytes .discard | .subGauge .discard => False
  | .releaseBytes .resolved | .subGauge .resolved | .enqueueReserved
  | .resolveFail _ _ | .awaitResolveFail => Handed v k
  | .awaitDiscard _ _ => DiscardStake v k c th
  | .setFailed _ _ | .takeNotify _ | .recordCompletion _ | .ranInline =>
      Dead v k
  | .leave .failedInline | .returned .failedInline => Dead v k
  | .leave .inFlight | .leave .resolvedBySlot | .returned .inFlight
  | .returned .resolvedBySlot => Handed v k

/-- How many completions `StartUnaryCall` itself has recorded. -/
def CallPc.recorded : CallPc → Nat
  | .leave .failedInline | .returned .failedInline | .ranInline => 1
  | _ => 0

/-- How often its caller has run the continuation. -/
def CallPc.ran : CallPc → Nat
  | .ranInline => 1
  | _ => 0

/-- The thread is idle, or at the job. -/
def Fits : Option Job → Thread → Prop
  | none, th => th = .idle
  | some j, th => th.Doing j

/-- Call `k`, with the cells of the table and its thread in it. -/
structure Caller.Ok (c : Caller) (k : Nat) (v : Cells Tid) (th : Thread) :
    Prop where
  fits : Fits (c.pc.job c k) th
  stake : c.pc.Stake v th k c.correlationId
  completions : c.completions = c.pc.recorded
  inlineRuns : c.inlineRuns = c.pc.ran

/-- Every call and every thread is where it should be. -/
structure CallsOk (s : State) : Prop where
  callers : ∀ k, (s.callers k).Ok k s.slots.view (s.slots.threads (.caller k))
  others : ∀ t, (∀ k, t ≠ .caller k) →
    s.slots.threads t = .idle ∨ (s.slots.threads t).Doing .resolve
  unborn : ∀ k, s.started ≤ k → s.callers k = {}

-- == callers

section Callers

variable {cfg : ChannelConfig} {s s' : State} {k : Nat} {v : Cells Tid}
  {c : Caller} {th : Thread} {r : Result}

theorem enter_allocStake (tc : TableConfig) {args : CallArgs} {n : Nat}
    (htask : args.task = some k) (h : Fresh v k) :
    AllocStake v k (enter tc (.allocateSlot args n)) := by
  simp only [enter]
  split
  · exact ⟨fun _ => h.dead, absurd rfl⟩
  · exact ⟨htask, h⟩

/-- An owned id names a cell of the table. -/
theorem hasSlot_of_owns {tc : TableConfig} {σ : Slot.State Tid}
    (hi : Inv tc σ) {cid : UInt64} (h : Owns σ.view k cid) :
    tc.hasSlot cid = true :=
  decide_eq_true (hi.popped _ h.pos).2

theorem enter_publishStake {tc : TableConfig} {σ : Slot.State Tid}
    (hi : Inv tc σ) {cid : UInt64} (h : Owns σ.view k cid) :
    PublishStake σ.view k cid (enter tc (.publishSlot cid)) := by
  simp only [enter, hasSlot_of_owns hi h, if_true]
  exact h

theorem enter_discardStake {tc : TableConfig} {σ : Slot.State Tid}
    (hi : Inv tc σ) {cid : UInt64} (h : Owns σ.view k cid) :
    DiscardStake σ.view k cid (enter tc (.discardArmingSlot cid)) := by
  simp only [enter, hasSlot_of_owns hi h, if_true]
  exact h

theorem onController_callers (s : State) (input : CallInput)
    (f : Controller → Controller) :
    (s.onController input f).callers = s.callers := by
  unfold State.onController
  split <;> rfl

/-- The caller goes on and stays outside the table. -/
theorem Caller.Ok.goto (h : c.Ok k v th) {p q : CallPc} {c' : Caller}
    (hp : c.pc = p) (hq : c'.pc = q)
    (hid : c'.correlationId = c.correlationId)
    (hjob : p.job c k = none) (hjob' : q.job c' k = none)
    (hstake : p.Stake v th k c.correlationId →
      q.Stake v th k c.correlationId)
    (hcomp : c'.completions = c.completions)
    (hrec : q.recorded = p.recorded)
    (hruns : c'.inlineRuns = c.inlineRuns) (hran : q.ran = p.ran) :
    c'.Ok k v th := by
  obtain ⟨hfits, hst, hc, hr⟩ := h
  rw [hp] at hfits hst hc hr
  rw [hjob] at hfits
  refine ⟨?_, ?_, ?_, ?_⟩
  · rw [hq, hjob']
    exact hfits
  · rw [hq, hid]
    exact hstake hst
  · rw [hq, hcomp, hc, hrec]
  · rw [hq, hruns, hr, hran]

/-- The caller enters an operation of the table. -/
theorem Caller.Ok.enters (h : c.Ok k v th) {p q : CallPc} {tc : TableConfig}
    {op : Op} (hp : c.pc = p) (hjob : q.job { c with pc := q } k = some op.job)
    (hstake : p.Stake v th k c.correlationId →
      q.Stake v (enter tc op) k c.correlationId)
    (hrec : q.recorded = p.recorded) (hran : q.ran = p.ran) :
    Caller.Ok { c with pc := q } k v (enter tc op) := by
  obtain ⟨-, hst, hc, hr⟩ := h
  rw [hp] at hst hc hr
  refine ⟨?_, hstake hst, hc.trans hrec.symm, hr.trans hran.symm⟩
  show Fits (q.job { c with pc := q } k) (enter tc op)
  rw [hjob]
  exact enter_doing tc op

/-- The caller picks up a result. -/
theorem Caller.Ok.collects (h : c.Ok k v (.returned r)) {p q : CallPc}
    {c' : Caller} (hp : c.pc = p) (hq : c'.pc = q)
    (hjob' : q.job c' k = none)
    (hstake : p.Stake v (.returned r) k c.correlationId →
      q.Stake v .idle k c'.correlationId)
    (hcomp : c'.completions = c.completions)
    (hrec : q.recorded = p.recorded)
    (hruns : c'.inlineRuns = c.inlineRuns) (hran : q.ran = p.ran) :
    c'.Ok k v .idle := by
  obtain ⟨-, hst, hc, hr⟩ := h
  rw [hp] at hst hc hr
  refine ⟨?_, ?_, ?_, ?_⟩
  · rw [hq, hjob']
    rfl
  · rw [hq]
    exact hstake hst
  · rw [hq, hcomp, hc, hrec]
  · rw [hq, hruns, hr, hran]

theorem onController_slots (s : State) (input : CallInput)
    (f : Controller → Controller) :
    (s.onController input f).slots.view = s.slots.view
      ∧ (s.onController input f).slots.threads = s.slots.threads := by
  unfold State.onController
  split <;> exact ⟨rfl, rfl⟩

/-- Entering an operation from `pc`. -/
theorem invokeSlots_ok {op : Op} {q : CallPc}
    (hs : (s.callerTo k q).invokeSlots cfg (.caller k) op = some s')
    (h : Caller.Ok { s.callers k with pc := q } k s.slots.view
      (enter cfg.table op)) :
    (s'.callers k).Ok k s'.slots.view (s'.slots.threads (.caller k)) := by
  have hview := (ClientStep.of_invokeSlots (s := s) hs rfl).view
  obtain ⟨-, rfl⟩ := invokeSlots_eq hs
  rw [hview]
  show Caller.Ok ((s.callerTo k q).callers k) k s.slots.view
    ((Slot.invoke cfg.table (.caller k) op s.slots).threads _)
  rw [invoke_thread, callerTo_callers]
  exact h

/-- A caller that has picked up a result. -/
theorem collected_ok {s₁ : State} {f : Caller → Caller}
    (hcoll : s.collectSlots (.caller k) = some (r, s₁))
    (hok : (s.callers k).Ok k s.slots.view (s.slots.threads (.caller k)))
    (h : (s.callers k).Ok k s.slots.view (.returned r) →
      (f (s.callers k)).Ok k s.slots.view .idle) :
    ((s₁.setCaller k (f (s₁.callers k))).callers k).Ok k
      (s₁.setCaller k (f (s₁.callers k))).slots.view
      ((s₁.setCaller k (f (s₁.callers k))).slots.threads (.caller k)) := by
  obtain ⟨hth, rfl⟩ := collectSlots_eq hcoll
  rw [hth] at hok
  rw [setCaller_callers]
  show Caller.Ok _ k s.slots.view
    ((s.slots.setThread (.caller k) .idle).threads (.caller k))
  rw [setThread_thread]
  exact h hok

/-- A caller that goes on with a result. -/
theorem collected_goto {s₁ : State} {p q : CallPc}
    (hcoll : s.collectSlots (.caller k) = some (r, s₁))
    (hok : (s.callers k).Ok k s.slots.view (s.slots.threads (.caller k)))
    (hp : (s.callers k).pc = p)
    (hjob : q.job { s.callers k with pc := q } k = none)
    (hstake : p.Stake s.slots.view (.returned r) k
        (s.callers k).correlationId →
      q.Stake s.slots.view .idle k (s.callers k).correlationId)
    (hrec : q.recorded = p.recorded) (hran : q.ran = p.ran) :
    ((s₁.callerTo k q).callers k).Ok k (s₁.callerTo k q).slots.view
      ((s₁.callerTo k q).slots.threads (.caller k)) :=
  collected_ok (f := fun c => { c with pc := q }) hcoll hok fun h =>
    h.collects hp rfl hjob hstake rfl hrec rfl hran

/-- What `DiscardArmingSlot` left. -/
theorem discarded_stake {cid : UInt64}
    (h : DiscardStake v k cid (.returned r)) : Dead v k := by
  cases r with
  | flag b => exact h
  | allocated | published | response | count => exact h.elim

theorem execCall_awaitAllocate {timer : Option UInt64}
    (hok : (s.callers k).Ok k s.slots.view (s.slots.threads (.caller k)))
    (hpc : (s.callers k).pc = .awaitAllocate)
    (hs : execCall cfg k timer .awaitAllocate s = some s') :
    (s'.callers k).Ok k s'.slots.view (s'.slots.threads (.caller k)) := by
  simp only [execCall] at hs
  split at hs
  · next args c s₁ hcoll =>
    split at hs
    · next hc =>
      cases hs
      exact collected_goto hcoll hok hpc rfl (fun h => h.1 hc) rfl rfl
    · next hc =>
      cases hs
      refine collected_ok (f := fun caller => { caller with
        correlationId := c
        pc := if caller.input.controller.isSome then .setCorrelationId
          else .readTimeout }) hcoll hok fun h => ?_
      by_cases hctl : (s.callers k).input.controller.isSome
      · exact h.collects hpc (if_pos hctl) rfl (fun h => h.2 hc) rfl rfl rfl
          rfl
      · exact h.collects hpc (if_neg hctl) rfl (fun h => h.2 hc) rfl rfl rfl
          rfl
  · cases hs

/-- A step of `StartUnaryCall` that picks up what the table answered. -/
theorem execCall_await {timer : Option UInt64} {j : Job}
    (hok : (s.callers k).Ok k s.slots.view (s.slots.threads (.caller k)))
    (hjob : (s.callers k).pc.job (s.callers k) k = some j)
    (hs : execCall cfg k timer (s.callers k).pc s = some s') :
    (s'.callers k).Ok k s'.slots.view (s'.slots.threads (.caller k)) := by
  generalize hpc : (s.callers k).pc = pc at hjob hs
  cases pc with
  | awaitAllocate => exact execCall_awaitAllocate hok hpc hs
  | awaitCancelBound | awaitResolveFail =>
      simp only [execCall] at hs
      split at hs <;> cases hs
      next hcoll => exact collected_goto hcoll hok hpc rfl id rfl rfl
  | awaitAttach =>
      simp only [execCall] at hs
      split at hs <;> cases hs
      · next hcoll => exact collected_goto hcoll hok hpc rfl id rfl rfl
      · next hcoll => exact collected_goto hcoll hok hpc rfl id rfl rfl
  | awaitPublish =>
      simp only [execCall] at hs
      split at hs <;> cases hs
      · next hcoll =>
        exact collected_goto hcoll hok hpc rfl (fun h => absurd rfl h.2) rfl
          rfl
      · next hcoll => exact collected_goto hcoll hok hpc rfl And.left rfl rfl
      · next hcoll => exact collected_goto hcoll hok hpc rfl And.left rfl rfl
  | awaitResolvePublish code message =>
      simp only [execCall] at hs
      split at hs <;> cases hs
      · next hcoll => exact collected_goto hcoll hok hpc rfl And.left rfl rfl
      · next hcoll => exact collected_goto hcoll hok hpc rfl And.left rfl rfl
  | awaitDiscard code message =>
      simp only [execCall] at hs
      split at hs <;> cases hs
      next hcoll =>
        exact collected_goto hcoll hok hpc rfl discarded_stake rfl rfl
  | _ => cases hjob

/-- A step of `StartUnaryCall` outside the table. -/
theorem execCall_goto {timer : Option UInt64} (hi : Inv cfg.table s.slots)
    (hok : (s.callers k).Ok k s.slots.view (s.slots.threads (.caller k)))
    (hjob : (s.callers k).pc.job (s.callers k) k = none)
    (hs : execCall cfg k timer (s.callers k).pc s = some s') :
    (s'.callers k).Ok k s'.slots.view (s'.slots.threads (.caller k)) := by
  -- a step that shows on nothing but the caller
  have hgo : ∀ {p : CallPc} {c' : Caller} {s₁ : State},
      s₁.slots.view = s.slots.view →
      s₁.slots.threads = s.slots.threads → (s.callers k).pc = p →
      c'.correlationId = (s.callers k).correlationId →
      c'.completions = (s.callers k).completions →
      c'.inlineRuns = (s.callers k).inlineRuns →
      p.job (s.callers k) k = none → c'.pc.job c' k = none →
      (p.Stake s.slots.view (s.slots.threads (.caller k)) k
          (s.callers k).correlationId →
        c'.pc.Stake s.slots.view (s.slots.threads (.caller k)) k
          (s.callers k).correlationId) →
      c'.pc.recorded = p.recorded → c'.pc.ran = p.ran →
      ((s₁.setCaller k c').callers k).Ok k (s₁.setCaller k c').slots.view
        ((s₁.setCaller k c').slots.threads (.caller k)) := by
    intro p c' s₁ hview hth hp hid hcomp hruns hj hj' hst hrec hran
    rw [setCaller_callers]
    show Caller.Ok c' k s₁.slots.view (s₁.slots.threads (.caller k))
    rw [hview, hth]
    exact hok.goto hp rfl hid hj hj' hst hcomp hrec hruns hran
  have hstay : ∀ {s₁ : State} {p q : CallPc}, s₁.slots.view = s.slots.view →
      s₁.slots.threads = s.slots.threads → s₁.callers = s.callers →
      (s.callers k).pc = p → p.job (s.callers k) k = none →
      q.job { s.callers k with pc := q } k = none →
      (p.Stake s.slots.view (s.slots.threads (.caller k)) k
          (s.callers k).correlationId →
        q.Stake s.slots.view (s.slots.threads (.caller k)) k
          (s.callers k).correlationId) →
      q.recorded = p.recorded → q.ran = p.ran →
      ((s₁.callerTo k q).callers k).Ok k (s₁.callerTo k q).slots.view
        ((s₁.callerTo k q).slots.threads (.caller k)) := by
    intro s₁ p q hview hth hcallers hp hj hj' hst hrec hran
    unfold State.callerTo
    rw [hcallers]
    exact hgo hview hth hp rfl rfl rfl hj hj' hst hrec hran
  have hctl : ∀ {f : Controller → Controller} {p q : CallPc},
      (s.callers k).pc = p → p.job (s.callers k) k = none →
      q.job { s.callers k with pc := q } k = none →
      (p.Stake s.slots.view (s.slots.threads (.caller k)) k
          (s.callers k).correlationId →
        q.Stake s.slots.view (s.slots.threads (.caller k)) k
          (s.callers k).correlationId) →
      q.recorded = p.recorded → q.ran = p.ran →
      (((s.onController (s.callers k).input f).callerTo k q).callers k).Ok k
        ((s.onController (s.callers k).input f).callerTo k q).slots.view
        (((s.onController (s.callers k).input f).callerTo k
          q).slots.threads (.caller k)) := by
    intro f p q hp hj hj' hst hrec hran
    obtain ⟨hview, hth⟩ := onController_slots s (s.callers k).input f
    exact hstay hview hth (onController_callers ..) hp hj hj' hst hrec hran
  generalize hpc : (s.callers k).pc = pc at hjob hs
  cases pc with
  | copyDriver | readTimeout =>
      cases hs
      exact hgo rfl rfl hpc rfl rfl rfl rfl rfl id rfl rfl
  | recordStart | cancelTimer | addGauge | enqueueReserved =>
      cases hs
      exact hstay rfl rfl rfl hpc rfl rfl id rfl rfl
  | checkCanceled | checkRunning =>
      simp only [execCall] at hs
      split at hs <;> cases hs
      · exact hstay rfl rfl rfl hpc rfl rfl Fresh.dead rfl rfl
      · exact hstay rfl rfl rfl hpc rfl rfl id rfl rfl
  | allocateSlot =>
      exact invokeSlots_ok hs
        (hok.enters hpc rfl (enter_allocStake _ rfl) rfl rfl)
  | setCorrelationId | setFailed code message | takeNotify code =>
      cases hs
      exact hctl hpc rfl rfl id rfl rfl
  | bindActiveSlot =>
      simp only [execCall] at hs
      split at hs
      · cases hs
        exact hstay rfl rfl rfl hpc rfl rfl id rfl rfl
      · split at hs
        · cases hs
          exact hstay rfl rfl rfl hpc rfl rfl id rfl rfl
        · next bound cancelRequested _ =>
          cases hs
          cases cancelRequested <;> exact hctl hpc rfl rfl id rfl rfl
  | cancelBound | attachTimer | resolveFail code message =>
      exact invokeSlots_ok hs (hok.enters hpc rfl id rfl rfl)
  | addTimer =>
      simp only [execCall] at hs
      split at hs <;> cases hs
      · exact hstay rfl rfl rfl hpc rfl rfl id rfl rfl
      · exact hgo rfl rfl hpc rfl rfl rfl rfl rfl id rfl rfl
  | packFrame =>
      simp only [execCall] at hs
      split at hs <;> cases hs
      · exact hgo rfl rfl hpc rfl rfl rfl rfl rfl id rfl rfl
      · exact hstay rfl rfl rfl hpc rfl rfl id rfl rfl
  | loadOutbound | casOutbound current =>
      simp only [execCall] at hs
      split_ifs at hs <;> cases hs <;>
        exact hstay rfl rfl rfl hpc rfl rfl id rfl rfl
  | publishSlot | resolvePublish code message =>
      exact invokeSlots_ok hs
        (hok.enters hpc rfl (enter_publishStake hi) rfl rfl)
  | discardSlot code message =>
      exact invokeSlots_ok hs
        (hok.enters hpc rfl (enter_discardStake hi) rfl rfl)
  | releaseBytes next =>
      cases hs
      cases next <;> exact hstay rfl rfl rfl hpc rfl rfl id rfl rfl
  | subGauge next =>
      cases hs
      cases next with
      | discard => exact hstay rfl rfl rfl hpc rfl rfl False.elim rfl rfl
      | resolved => exact hstay rfl rfl rfl hpc rfl rfl id rfl rfl
  | recordCompletion code =>
      cases hs
      obtain ⟨hfits, hst, hc, hr⟩ := hok
      rw [hpc] at hfits hst hc hr
      rw [setCaller_callers]
      exact ⟨hfits, hst, congrArg (· + 1) hc, hr⟩
  | leave outcome =>
      cases hs
      cases outcome <;> exact hgo rfl rfl hpc rfl rfl rfl rfl rfl id rfl rfl
  | returned outcome =>
      cases outcome with
      | failedInline =>
          cases hs
          obtain ⟨hfits, hst, hc, hr⟩ := hok
          rw [hpc] at hfits hst hc hr
          rw [setCaller_callers]
          exact ⟨hfits, hst, hc, congrArg (· + 1) hr⟩
      | inFlight | resolvedBySlot => cases hs
  | ranInline => cases hs
  | _ => cases hjob

/-- A step of `StartUnaryCall`. -/
theorem execCall_ok {timer : Option UInt64} (hi : Inv cfg.table s.slots)
    (hok : (s.callers k).Ok k s.slots.view (s.slots.threads (.caller k)))
    (hs : execCall cfg k timer (s.callers k).pc s = some s') :
    (s'.callers k).Ok k s'.slots.view (s'.slots.threads (.caller k)) := by
  cases hjob : (s.callers k).pc.job (s.callers k) k with
  | none => exact execCall_goto hi hok hjob hs
  | some j => exact execCall_await hok hjob hs

end Callers

-- == the table

section TableSteps

variable {tc : TableConfig} {σ σ' : Slot.State Tid} {k : Nat} {c : Caller}
  {pc : Pc} {t : Tid}

/-- A caller inside the table has the stake of its job. -/
theorem Caller.Ok.stake_of_job {v : Cells Tid} (h : c.Ok k v (.running pc)) :
    (∀ args, pc.job = .allocate args → AllocStake v k (.running pc))
      ∧ (∀ cid, pc.job = .publish cid → PublishStake v k cid (.running pc))
      ∧ (∀ cid, pc.job = .discard cid →
          DiscardStake v k cid (.running pc)) := by
  obtain ⟨hfits, hst, -, -⟩ := h
  cases hpc : c.pc with
  | awaitAllocate =>
      rw [hpc] at hfits hst
      have hjob : pc.job = .allocate (c.input.args k) := hfits
      rw [hjob]
      exact ⟨fun _ _ => hst, nofun, nofun⟩
  | awaitPublish | awaitResolvePublish code message =>
      rw [hpc] at hfits hst
      have hjob : pc.job = .publish c.correlationId := hfits
      rw [hjob]
      refine ⟨nofun, fun cid heq => ?_, nofun⟩
      cases heq
      exact hst
  | awaitDiscard code message =>
      rw [hpc] at hfits hst
      have hjob : pc.job = .discard c.correlationId := hfits
      rw [hjob]
      refine ⟨nofun, nofun, fun cid heq => ?_⟩
      cases heq
      exact hst
  | awaitCancelBound | awaitResolveFail =>
      rw [hpc] at hfits
      have hjob : pc.job = .resolve := hfits
      rw [hjob]
      exact ⟨nofun, nofun, nofun⟩
  | awaitAttach =>
      rw [hpc] at hfits
      have hjob : pc.job = .attach c.correlationId := hfits
      rw [hjob]
      exact ⟨nofun, nofun, nofun⟩
  | _ =>
      rw [hpc] at hfits
      cases hfits

/-- A step of one caller is foreign to every other call. -/
theorem Caller.Ok.foreign {k' : Nat} (hshape : (Thread.running pc).Shaped)
    (h : c.Ok k' σ.view (.running pc)) (hne : k' ≠ k) :
    pc.Foreign σ.view k := by
  obtain ⟨halloc, hpublish, hdiscard⟩ := h.stake_of_job
  have howns : ∀ cid, Owns σ.view k' cid →
      ¬ Held σ.view k (getSlotId cid) (σ.view (getSlotId cid)).life.gen :=
    fun cid ho hheld => hne (ho.sole.held.task_unique hheld)
  refine ⟨?_, ?_, ?_⟩
  · rintro ⟨args, rfl, htask⟩
    have htask' : args.task = some k' := (halloc args rfl).1
    rw [htask'] at htask
    exact hne (Option.some.inj htask)
  · rintro i hheld ⟨cid, rfl, ⟨p, rfl, hp⟩ | rfl⟩
    · have hst : p.Stake σ.view k' cid := hpublish cid rfl
      have ho : Owns σ.view k' cid := by
        cases p with
        | registerPublishedSlot | failArming | publish => exact hst
        | unregisterPublishedSlot | deliverPending => exact hst.1
        | takeConnectionFailure | failInFlight => cases hp
      exact howns cid ho hheld
    · exact howns cid (hdiscard cid rfl) hheld
  · rintro ⟨cid, g, after⟩ rfl hheld
    have hafter : after = .discard := hshape.mp rfl
    subst hafter
    have hsole := hdiscard cid rfl
    exact hne (Sole.held hsole |>.task_unique hheld)

/-- A step of another thread. -/
theorem Caller.Ok.frame {th : Thread} (hi : Inv tc σ)
    (hok : ThreadOk σ.view t (.running pc)) (hs : exec tc t pc σ = some σ')
    (hne : Tid.caller k ≠ t) (hth : ThreadOk σ.view (.caller k) th)
    (hf : pc.Foreign σ.view k) (h : c.Ok k σ.view th) : c.Ok k σ'.view th := by
  refine ⟨h.fits, ?_, h.completions, h.inlineRuns⟩
  have hst := h.stake
  have hhanded : Handed σ.view k → Handed σ'.view k :=
    fun hh => Handed.frame hi hok hs hh hf.allocates hf.discards
  cases hpc : c.pc with
  | copyDriver | recordStart | checkCanceled | checkRunning
  | allocateSlot =>
      rw [hpc] at hst
      exact fresh_exec hi hok hs hf.allocates hst
  | awaitAllocate =>
      rw [hpc] at hst
      exact AllocStake.frame hi hok hs hne hth hf hst
  | setCorrelationId | bindActiveSlot | cancelBound | awaitCancelBound
  | readTimeout | addTimer | attachTimer | awaitAttach | cancelTimer
  | packFrame | loadOutbound | casOutbound | addGauge | publishSlot
  | resolvePublish | discardSlot =>
      rw [hpc] at hst
      exact Owns.frame hi hok hs hst hf
  | awaitPublish | awaitResolvePublish =>
      rw [hpc] at hst
      exact PublishStake.frame hi hok hs hf hst
  | releaseBytes next | subGauge next =>
      rw [hpc] at hst
      cases next with
      | discard => exact hst
      | resolved => exact hhanded hst
  | enqueueReserved | resolveFail | awaitResolveFail =>
      rw [hpc] at hst
      exact hhanded hst
  | awaitDiscard =>
      rw [hpc] at hst
      exact DiscardStake.frame hi hok hs hne hth hf hst
  | setFailed | takeNotify | recordCompletion | ranInline =>
      rw [hpc] at hst
      exact Dead.frame hi hok hs hst hf
  | leave outcome | returned outcome =>
      rw [hpc] at hst
      cases outcome with
      | failedInline => exact Dead.frame hi hok hs hst hf
      | inFlight => exact hhanded hst
      | resolvedBySlot => exact hhanded hst

/-- A step of the caller inside the table. -/
theorem Caller.Ok.step (hi : Inv tc σ)
    (hok : ThreadOk σ.view (.caller k) (.running pc))
    (hshape : (Thread.running pc).Shaped)
    (hs : exec tc (.caller k) pc σ = some σ')
    (hrecheck : ∀ cid code message,
      pc = .publish cid (.failInFlight code message) →
      σ.word (getSlotId cid) = ⟨getVersion cid, .inFlight⟩)
    (h : c.Ok k σ.view (.running pc)) :
    c.Ok k σ'.view (σ'.threads (.caller k)) := by
  have hdoing := exec_doing hok hs
  obtain ⟨halloc, hpublish, hdiscard⟩ := h.stake_of_job
  obtain ⟨hfits, hst, hc, hr⟩ := h
  refine ⟨?_, ?_, hc, hr⟩
  · cases hjob : c.pc.job c k with
    | none =>
        rw [hjob] at hfits
        cases hfits
    | some j =>
        rw [hjob] at hfits
        have hj : pc.job = j := hfits
        rw [hj] at hdoing
        exact hdoing
  cases hpc : c.pc with
  | awaitAllocate =>
      rw [hpc] at hfits
      have hjob : pc.job = .allocate (c.input.args k) := hfits
      have hstake := halloc _ hjob
      cases pc with
      | alloc args p => exact AllocStake.step hi hok hs hstake
      | _ => exact hstake.elim
  | awaitPublish | awaitResolvePublish =>
      rw [hpc] at hfits
      have hjob : pc.job = .publish c.correlationId := hfits
      exact PublishStake.step hi hok hs hjob hshape
        (fun code message => hrecheck _ code message) (hpublish _ hjob)
  | awaitDiscard =>
      rw [hpc] at hfits
      have hjob : pc.job = .discard c.correlationId := hfits
      exact DiscardStake.step hi hok hs hjob hshape (hdiscard _ hjob)
  | awaitCancelBound =>
      rw [hpc] at hfits hst
      exact Owns.frame hi hok hs hst (Pc.foreign_of_job (Or.inl hfits) hshape)
  | awaitAttach =>
      rw [hpc] at hfits hst
      exact Owns.frame hi hok hs hst
        (Pc.foreign_of_job (Or.inr ⟨_, hfits⟩) hshape)
  | awaitResolveFail =>
      rw [hpc] at hfits hst
      have hf : pc.Foreign σ.view k :=
        Pc.foreign_of_job (Or.inl hfits) hshape
      exact Handed.frame hi hok hs hst hf.allocates hf.discards
  | _ =>
      rw [hpc] at hfits
      cases hfits

/-- A caller moves inside `FailAllActiveSlots`' loop or retries its
reservation of a slot: its stake does not show it. -/
theorem Caller.Ok.moves {v : Cells Tid} {pc' : Pc}
    (h : c.Ok k v (.running pc))
    (hmove : pc.job = .resolve ∧ pc'.job = .resolve
      ∨ ∃ args limit n n', pc = .alloc args (.casActive limit n)
        ∧ pc' = .alloc args (.casActive limit n')) :
    c.Ok k v (.running pc') := by
  obtain ⟨hfits, hst, hc, hr⟩ := h
  have hjob : pc'.job = pc.job := by
    rcases hmove with ⟨h, h'⟩ | ⟨args, limit, n, n', rfl, rfl⟩
    · rw [h, h']
    · rfl
  have hother : ∀ j, c.pc.job c k = some j → pc.job = j := by
    intro j hj
    rw [hj] at hfits
    exact hfits
  refine ⟨?_, ?_, hc, hr⟩
  · cases hj : c.pc.job c k with
    | none =>
        rw [hj] at hfits
        cases hfits
    | some j => exact hjob.trans (hother j hj)
  cases hpc : c.pc with
  | awaitAllocate =>
      rw [hpc] at hst hother
      rcases hmove with ⟨h, -⟩ | ⟨args, limit, n, n', rfl, rfl⟩
      · cases h.symm.trans (hother _ rfl)
      · exact hst
  | awaitPublish | awaitResolvePublish | awaitDiscard =>
      rw [hpc] at hother
      rcases hmove with ⟨h, -⟩ | ⟨args, limit, n, n', rfl, rfl⟩
      · cases h.symm.trans (hother _ rfl)
      · cases hother _ rfl
  | awaitCancelBound | awaitAttach | awaitResolveFail =>
      rw [hpc] at hst
      exact hst
  | _ =>
      rw [hpc] at hfits
      cases hfits

end TableSteps

-- == every step

/-- The recheck of `PublishSlot` after a connection failure finds its
call still in flight. -/
def recheckWins (s : State) : Action → Bool
  | .slots (.step t) =>
      match s.slots.threads t with
      | .running (.publish c (.failInFlight _ _)) =>
          s.slots.word (getSlotId c) = ⟨getVersion c, .inFlight⟩
      | _ => true
  | _ => true

section EveryStep

variable {cfg : ChannelConfig} {s s' : State}

theorem callsOk_start (hs : Start cfg s) : CallsOk s := by
  obtain ⟨slots, ⟨heap, rfl⟩, rfl⟩ := hs
  refine ⟨fun k => ⟨rfl, ?_, rfl, rfl⟩, fun _ _ => Or.inl rfl,
    fun _ _ => rfl⟩
  rintro i g ⟨hpos, hle, -⟩
  have hle : g ≤ 0 := hle
  omega

/-- Only threads that are no callers move, and no cell shows it. -/
theorem CallsOk.aside (h : CallsOk s) (hview : s'.slots.view = s.slots.view)
    (hcallers : s'.callers = s.callers) (hstarted : s'.started = s.started)
    (hth : ∀ k, s'.slots.threads (.caller k) = s.slots.threads (.caller k))
    (hothers : ∀ t, (∀ k, t ≠ .caller k) →
      s'.slots.threads t = .idle ∨ (s'.slots.threads t).Doing .resolve) :
    CallsOk s' where
  callers k := by
    rw [hview, hcallers, hth k]
    exact h.callers k
  others := hothers
  unborn k hk := by
    rw [hcallers]
    exact h.unborn k (hstarted ▸ hk)

/-- A step inside the table. -/
theorem CallsOk.exec {t : Tid} {pc : Pc} (h : CallsOk s)
    (hi : Inv cfg.table s.slots) (htr : Tracked s.slots)
    (hpc : s.slots.threads t = .running pc)
    (hs : Slot.exec cfg.table t pc s.slots = some s'.slots)
    (hrecheck : recheckWins s (.slots (.step t)) = true)
    (hcallers : s'.callers = s.callers) (hstarted : s'.started = s.started) :
    CallsOk s' := by
  have hok : ThreadOk s.slots.view t (.running pc) := hpc ▸ hi.threads t
  have hshape : (Thread.running pc).Shaped := hpc ▸ htr.shaped t
  have hothers := (effect_exec hi hok hs).others
  refine ⟨?_, ?_, ?_⟩
  · intro k
    rw [hcallers]
    by_cases hk : Tid.caller k = t
    · subst hk
      have hcaller := h.callers k
      rw [hpc] at hcaller
      refine hcaller.step hi hok hshape hs fun cid code message heq => ?_
      simp only [recheckWins, hpc, heq] at hrecheck
      exact of_decide_eq_true hrecheck
    · rw [hothers _ hk]
      refine (h.callers k).frame hi hok hs hk (hi.threads _) ?_
      by_cases ht : ∃ k', t = .caller k'
      · obtain ⟨k', rfl⟩ := ht
        have hcaller := h.callers k'
        rw [hpc] at hcaller
        exact hcaller.foreign hshape fun heq => hk (by rw [heq])
      · have hdoing := h.others t fun k' heq => ht ⟨k', heq⟩
        rw [hpc] at hdoing
        exact Pc.foreign_of_job (Or.inl (hdoing.resolve_left nofun)) hshape
  · intro u hu
    by_cases hut : u = t
    · subst hut
      have hdoing := h.others u hu
      rw [hpc] at hdoing
      have hjob : pc.job = .resolve := hdoing.resolve_left nofun
      exact Or.inr (hjob ▸ exec_doing hok hs)
    · rw [hothers u hut]
      exact h.others u hu
  · intro k hk
    rw [hcallers]
    exact h.unborn k (hstarted ▸ hk)

/-- A thread moves to another point of the same operation. -/
theorem CallsOk.goto {t : Tid} {pc pc' : Pc} (h : CallsOk s)
    (hpc : s.slots.threads t = .running pc)
    (hslots : s'.slots = s.slots.goto t pc')
    (hmove : pc.job = .resolve ∧ pc'.job = .resolve
      ∨ ∃ args limit n n', pc = .alloc args (.casActive limit n)
        ∧ pc' = .alloc args (.casActive limit n'))
    (hcallers : s'.callers = s.callers) (hstarted : s'.started = s.started) :
    CallsOk s' := by
  have hview : s'.slots.view = s.slots.view := by
    rw [hslots]
    rfl
  have hself : s'.slots.threads t = .running pc' := by
    rw [hslots]
    exact goto_thread ..
  have helse : ∀ u, u ≠ t → s'.slots.threads u = s.slots.threads u := by
    intro u hu
    rw [hslots]
    exact Function.update_of_ne hu ..
  refine ⟨?_, ?_, ?_⟩
  · intro k
    rw [hview, hcallers]
    by_cases hk : Tid.caller k = t
    · have hcaller := h.callers k
      rw [hk, hpc] at hcaller
      rw [hk, hself]
      exact hcaller.moves hmove
    · rw [helse _ hk]
      exact h.callers k
  · intro u hu
    by_cases hut : u = t
    · have hdoing := h.others u hu
      rw [hut, hpc] at hdoing
      have hjob : pc.job = .resolve := hdoing.resolve_left nofun
      rw [hut, hself]
      rcases hmove with ⟨-, h'⟩ | ⟨args, limit, n, n', rfl, rfl⟩
      · exact Or.inr h'
      · cases hjob
    · rw [helse u hut]
      exact h.others u hu
  · intro k hk
    rw [hcallers]
    exact h.unborn k (hstarted ▸ hk)

/-- The actions of the table that are nobody else's step. -/
theorem CallsOk.slots {a : Slot.Action Tid} (h : CallsOk s)
    (hi : Inv cfg.table s.slots) (htr : Tracked s.slots)
    (hmay : slotsMayTake a = true)
    (hs : Slot.apply cfg.table a s.slots = some s'.slots)
    (hrecheck : recheckWins s (.slots a) = true)
    (hcallers : s'.callers = s.callers) (hstarted : s'.started = s.started) :
    CallsOk s' := by
  -- a resolver enters or leaves the table
  have hresolver : ∀ (n : Nat) (th : Thread), s'.slots.view = s.slots.view →
      s'.slots.threads = Function.update s.slots.threads (.resolver n) th →
      th = .idle ∨ th.Doing .resolve → CallsOk s' := by
    intro n th hview hth hdo
    refine h.aside hview hcallers hstarted (fun k => ?_) fun t ht => ?_
    · rw [hth]
      exact Function.update_of_ne (show Tid.caller k ≠ .resolver n by simp) ..
    · rw [hth, Function.update_apply]
      split
      · exact hdo
      · exact h.others t ht
  cases a with
  | invoke t op =>
      cases t with
      | resolver n =>
          simp only [Slot.apply] at hs
          split at hs
          · have hslots := (Option.some.inj hs).symm
            have hjob : op.job = .resolve := by
              cases op <;> first | rfl | cases hmay
            refine hresolver n (enter cfg.table op) ?_ ?_ (Or.inr ?_)
            · rw [hslots]
              cases op <;> rfl
            · rw [hslots]
              cases op <;> rfl
            · exact hjob ▸ enter_doing cfg.table op
          · cases hs
      | caller k => cases hmay
      | io => cases hmay
  | step t =>
      simp only [Slot.apply] at hs
      split at hs
      · next pc hpc => exact h.exec hi htr hpc hs hrecheck hcallers hstarted
      · cases hs
  | spurious t =>
      simp only [Slot.apply] at hs
      split at hs
      · next args limit current hpc =>
        split at hs
        · exact h.goto hpc (Option.some.inj hs).symm
            (Or.inr ⟨args, limit, _, _, rfl, rfl⟩) hcallers hstarted
        · cases hs
      · cases hs
  | pick t c =>
      simp only [Slot.apply] at hs
      split at hs
      · next pc hpc =>
        cases pc with
        | failAllNext rest total code message =>
            simp only [execPick] at hs
            split_ifs at hs
            · exact h.goto hpc (Option.some.inj hs).symm
                (Or.inl ⟨rfl, rfl⟩) hcallers hstarted
            · exact h.goto hpc (Option.some.inj hs).symm
                (Or.inl ⟨rfl, rfl⟩) hcallers hstarted
        | _ => cases hs
      · cases hs
  | collect t =>
      cases t with
      | resolver n =>
          simp only [Slot.apply] at hs
          split at hs
          · have hslots := (Option.some.inj hs).symm
            refine hresolver n .idle ?_ ?_ (Or.inl rfl)
            · rw [hslots]
              rfl
            · rw [hslots]
              rfl
          · cases hs
      | caller k => cases hmay
      | io => cases hmay
  | client heap metrics => cases hmay

/-- A step of the IO thread, or one that shows on neither the callers
nor the table. -/
theorem CallsOk.io (h : CallsOk s) (hf : IoFrame cfg s s') : CallsOk s' := by
  refine h.aside hf.slots.view hf.callers hf.started ?_ ?_
  · exact fun k => hf.slots.others (by simp)
  · intro t ht
    by_cases hio : t = .io
    · subst hio
      rcases hf.thread with heq | hdo
      · rw [heq]
        exact h.others .io ht
      · exact hdo
    · rw [hf.slots.others hio]
      exact h.others t ht

/-- A step of a caller. -/
theorem CallsOk.caller {k : Nat} {timer : Option UInt64} (h : CallsOk s)
    (hi : Inv cfg.table s.slots) (hk : k < s.started)
    (hs : execCall cfg k timer (s.callers k).pc s = some s') :
    CallsOk s' := by
  obtain ⟨hc, hstarted, hcallers, -⟩ := execCall_step hs
  refine ⟨?_, ?_, ?_⟩
  · intro j
    by_cases hj : j = k
    · subst hj
      exact execCall_ok hi (h.callers j) hs
    · rw [hc.view, hcallers j hj, hc.others (by simpa using hj)]
      exact h.callers j
  · intro t ht
    rw [hc.others (ht k)]
    exact h.others t ht
  · intro j hj
    rw [hstarted] at hj
    rw [hcallers j (by omega)]
    exact h.unborn j hj

/-- Every action under the condition keeps every call where it should
be. -/
theorem callsOk_apply {a : Action} (h : CallsOk s)
    (hi : Inv cfg.table s.slots) (htr : Tracked s.slots)
    (hok : recheckWins s a = true) (hs : apply cfg a s = some s') : CallsOk s' := by
  cases apply_tableStep hs with
  | call input hslots hstarted hcallers =>
      have hnew : s.callers s.started = {} := h.unborn _ (Nat.le_refl _)
      refine ⟨?_, by rw [hslots]; exact h.others, ?_⟩
      · intro k
        have hk := h.callers k
        rw [hslots, hcallers, Function.update_apply]
        split
        · next heq =>
          rw [heq, hnew] at hk
          rw [heq]
          exact ⟨hk.fits, hk.stake, rfl, rfl⟩
        · exact hk
      · intro k hk
        rw [hstarted] at hk
        rw [hcallers, Function.update_of_ne (by omega)]
        exact h.unborn k (by omega)
  | caller k timer hk hc => exact h.caller hi hk hc
  | spurious k current current' hpc hk hslots hstarted hcallers =>
      refine ⟨?_, by rw [hslots]; exact h.others, ?_⟩
      · intro j
        have hj := h.callers j
        rw [hslots, hcallers, Function.update_apply]
        split
        · next heq =>
          subst heq
          exact hj.goto hpc rfl rfl rfl rfl id rfl rfl rfl rfl
        · exact hj
      · intro j hj
        rw [hstarted] at hj
        rw [hcallers, Function.update_of_ne (by omega)]
        exact h.unborn j hj
  | io hf => exact h.io hf
  | slots a hmay ha hstarted hcallers =>
      exact h.slots hi htr hmay ha hok hcallers hstarted
  | user heap hslots hstarted hcallers =>
      refine h.aside ?_ hcallers hstarted ?_ ?_
      · rw [hslots]
        rfl
      · exact fun k => by rw [hslots]
      · rw [hslots]
        exact h.others

/-- In every run under the condition, every call is where it should
be. -/
theorem callsOk_reach
    (h : (machine cfg).Reach (fun s a => recheckWins s a = true) s) :
    CallsOk s :=
  h.invariant (I := CallsOk) (fun _ hs => callsOk_start hs)
    fun _ _ _ hr hc hok hs =>
      callsOk_apply hc (inv_reachable (slots_reachable hr))
        (tracked_reachable (slots_reachable hr)) hok hs

end EveryStep

end AntRpc.Channel
