/-
Every call of a connection is finished once: by the table, which records
its completion and schedules its continuation, or by `StartUnaryCall`,
which records it and has its caller run the continuation.

The table finishes neither a dead allocation nor any allocation twice, so
the counts follow from what the call has at stake.
-/
import AntRpc.Channel.Proofs.Callers

namespace AntRpc.Channel

open Protocol Slot Lib

-- == counting

/-- How often the table gave the continuation of call `k` to the
executor. -/
def scheduledRuns (s : State) (k : Nat) : Nat :=
  s.slots.scheduled.countP fun e => e.item.task = some k

/-- How often the continuation of call `k` was run, by the executor or by
the caller. -/
def taskRuns (s : State) (k : Nat) : Nat :=
  scheduledRuns s k + (s.callers k).inlineRuns

/-- How often `RecordCompletion` was called for call `k`, by the table or
by `StartUnaryCall`. -/
def completionsRecorded (s : State) (k : Nat) : Nat :=
  s.slots.completed.countP (fun e => e.task = some k)
    + (s.callers k).completions

section Counting

variable {tc : TableConfig} {σ : Slot.State Tid} {k : Nat}

/-- A dead call was neither scheduled nor recorded. -/
theorem dead_uncounted (hi : Inv tc σ) (htr : Tracked σ)
    (h : Dead σ.view k) :
    σ.scheduled.countP (fun e => e.item.task = some k) = 0
      ∧ σ.completed.countP (fun e => e.task = some k) = 0 := by
  -- no allocation of the call has a logged event
  have hfate : ∀ i g, Held σ.view k i g →
      (σ.lives i).dispatches g = 0 ∧ (σ.lives i).records g = 0 := by
    intro i g hheld
    have hdis : (σ.lives i).dispatches g ≤ _ := (hi.cells i).dispatches g
    have hrec : (σ.lives i).records g = _ := (hi.cells i).records g
    have hf : (σ.view i).life.fate g = .discarded
        ∨ (σ.view i).life.fate g = .live := by
      rcases h i g hheld with hd | ⟨rfl, hword⟩
      · exact Or.inl hd
      · exact Or.inr ((hi.cells i).live_of_state hword.live)
    rcases hf with hf | hf <;> rw [hf] at hdis hrec <;>
      exact ⟨Nat.le_zero.mp hdis, hrec⟩
  constructor
  · refine List.countP_eq_zero.mpr fun e he htask => ?_
    obtain ⟨hpos, hle, heq⟩ := htr.logged.tasks e he
    have hzero := (hfate e.slot e.gen
      ⟨hpos, hle, heq.symm.trans (of_decide_eq_true htask)⟩).1
    rw [← htr.logged.scheduled e.slot e.gen, List.countP_eq_zero] at hzero
    exact hzero e he (by simp)
  · refine List.countP_eq_zero.mpr fun e he htask => ?_
    obtain ⟨hpos, hle, heq⟩ := htr.logged.records e he
    have hzero := (hfate e.slot e.gen
      ⟨hpos, hle, heq.symm.trans (of_decide_eq_true htask)⟩).2
    rw [← htr.logged.completed e.slot e.gen, List.countP_eq_zero] at hzero
    exact hzero e he (by simp)

/-- A call with one allocation was scheduled and recorded as often as
that allocation. -/
theorem sole_counted (htr : Tracked σ) {i : UInt32} {g : Nat}
    (h : Sole σ.view k i g) :
    σ.scheduled.countP (fun e => e.item.task = some k)
        = (σ.lives i).dispatches g
      ∧ σ.completed.countP (fun e => e.task = some k)
        = (σ.lives i).records g := by
  have htask : ((σ.lives i).argsOf g).task = some k := h.held.task
  constructor
  · rw [← htr.logged.scheduled i g]
    refine List.countP_congr fun e he => ?_
    obtain ⟨hpos, hle, heq⟩ := htr.logged.tasks e he
    simp only [decide_eq_true_eq]
    constructor
    · exact fun ht => (h e.slot e.gen).mp ⟨hpos, hle, heq.symm.trans ht⟩
    · rintro ⟨rfl, rfl⟩
      exact heq.trans htask
  · rw [← htr.logged.completed i g]
    refine List.countP_congr fun e he => ?_
    obtain ⟨hpos, hle, heq⟩ := htr.logged.records e he
    simp only [decide_eq_true_eq]
    constructor
    · exact fun ht => (h e.slot e.gen).mp ⟨hpos, hle, heq.symm.trans ht⟩
    · rintro ⟨rfl, rfl⟩
      exact heq.trans htask

/-- A call's counts are those of its stake: none for a dead one, at most
one each for any other, and no run without a completion. -/
theorem sole_counts_le (hi : Inv tc σ) (htr : Tracked σ) {i : UInt32}
    {g : Nat} (h : Sole σ.view k i g) :
    σ.scheduled.countP (fun e => e.item.task = some k)
        ≤ σ.completed.countP (fun e => e.task = some k)
      ∧ σ.completed.countP (fun e => e.task = some k) ≤ 1 := by
  obtain ⟨hsched, hcomp⟩ := sole_counted htr h
  rw [hsched, hcomp]
  have hdis : (σ.lives i).dispatches g ≤ _ := (hi.cells i).dispatches g
  have hrec : (σ.lives i).records g = _ := (hi.cells i).records g
  rw [hrec]
  refine ⟨hdis.trans ?_, ?_⟩
  · cases (σ.view i).life.fate g <;>
      simp [Fate.maxDispatches, Fate.recorded]
  · cases (σ.view i).life.fate g with
    | holding t b => cases b <;> simp [Fate.recorded]
    | _ => simp [Fate.recorded]

end Counting

-- == the calls

/-- Call `k` is published and nobody has won it. -/
def InFlight (s : State) (k : Nat) : Prop :=
  ∃ i, Held s.slots.view k i (s.slots.lives i).gen
    ∧ (s.slots.word i).state = .inFlight

/-- A thread is finishing call `k`. -/
def BeingFinished (s : State) (k : Nat) : Prop :=
  ∃ t w, Held s.slots.view k (getSlotId w.cid) w.gen
    ∧ ((∃ p, s.slots.threads t = .running (.hold w p))
      ∨ ∃ d, s.slots.threads t = .running (.dispatch w d))

/-- Call `k` is finished at most once, and by one side only. -/
structure FinishedOnce (s : State) (k : Nat) : Prop where
  /-- The continuation is run at most once. -/
  runs : taskRuns s k ≤ 1
  /-- A completion is recorded at most once. -/
  records : completionsRecorded s k ≤ 1
  /-- A continuation that was run has its completion recorded. -/
  recorded : taskRuns s k = 1 → completionsRecorded s k = 1
  /-- After `kFailedInline` the table never schedules it, and the
  completion is recorded. -/
  inline : (s.callers k).pc = .returned .failedInline
      ∨ (s.callers k).pc = .ranInline →
    scheduledRuns s k = 0 ∧ completionsRecorded s k = 1
  /-- After `kInFlight` or `kResolvedBySlot` only the table runs and
  records it: it is in flight, or being finished, or both are done. -/
  bySlot : ∀ outcome, (s.callers k).pc = .returned outcome →
    outcome ≠ .failedInline →
    (s.callers k).inlineRuns = 0 ∧ (s.callers k).completions = 0
      ∧ (InFlight s k ∨ BeingFinished s k
        ∨ scheduledRuns s k = 1 ∧ completionsRecorded s k = 1)
  /-- `PublishSlot` never answers `kInvalid`. -/
  published : ∀ c, s.slots.threads (.caller k)
    ≠ .returned (.published c .invalid)

section Calls

variable {cfg : ChannelConfig} {s : State} {k : Nat}

/-- A call has at most one allocation, unless it is dead. -/
theorem Caller.Ok.dead_or_sole {c : Caller} {v : Cells Tid} {th : Thread}
    (h : c.Ok k v th) : Dead v k ∨ ∃ i g, Sole v k i g := by
  have hst := h.stake
  have howns : ∀ {cid}, Owns v k cid → Dead v k ∨ ∃ i g, Sole v k i g :=
    fun ho => Or.inl ho.dead
  have hhanded : Handed v k → Dead v k ∨ ∃ i g, Sole v k i g :=
    fun ⟨i, g, hs, _⟩ => Or.inr ⟨i, g, hs⟩
  cases hpc : c.pc with
  | copyDriver | recordStart | checkCanceled | checkRunning
  | allocateSlot =>
      rw [hpc] at hst
      exact Or.inl (Fresh.dead hst)
  | awaitAllocate =>
      rw [hpc] at hst
      cases th with
      | idle => exact hst.elim
      | running pc =>
          cases pc with
          | alloc args p =>
              cases p with
              | loadActive | casActive | popFreeSlot | undoActive =>
                  exact Or.inl (Fresh.dead hst.2)
              | loadVersion | storeFields | resetTimer | storeArming =>
                  exact Or.inr ⟨_, _, hst.2⟩
              | addInFlight => exact howns hst.2
          | _ => exact hst.elim
      | returned r =>
          cases r with
          | allocated args cid =>
              by_cases hc : cid = 0
              · exact Or.inl (hst.1 hc)
              · exact howns (hst.2 hc)
          | _ => exact hst.elim
  | setCorrelationId | bindActiveSlot | cancelBound | awaitCancelBound
  | readTimeout | addTimer | attachTimer | awaitAttach | cancelTimer
  | packFrame | loadOutbound | casOutbound | addGauge | publishSlot
  | resolvePublish | discardSlot =>
      rw [hpc] at hst
      exact howns hst
  | awaitPublish | awaitResolvePublish =>
      rw [hpc] at hst
      cases th with
      | idle => exact hst.elim
      | running pc =>
          cases pc with
          | publish c' p =>
              cases p with
              | registerPublishedSlot | failArming | publish =>
                  exact howns hst
              | unregisterPublishedSlot | deliverPending =>
                  exact howns hst.1
              | takeConnectionFailure | failInFlight => exact hhanded hst
          | hold w p => exact hhanded hst.1
          | dispatch w d => exact hhanded hst.1
          | _ => exact hst.elim
      | returned r =>
          cases r with
          | published c' o => exact hhanded hst.1
          | _ => exact hst.elim
  | releaseBytes next | subGauge next =>
      rw [hpc] at hst
      cases next with
      | discard => exact hst.elim
      | resolved => exact hhanded hst
  | enqueueReserved | resolveFail | awaitResolveFail =>
      rw [hpc] at hst
      exact hhanded hst
  | awaitDiscard =>
      rw [hpc] at hst
      cases th with
      | idle => exact hst.elim
      | running pc =>
          cases pc with
          | discard c' => exact howns hst
          | hold w p => exact Or.inr ⟨_, _, hst⟩
          | _ => exact hst.elim
      | returned r => exact Or.inl (discarded_stake hst)
  | setFailed | takeNotify | recordCompletion | ranInline =>
      rw [hpc] at hst
      exact Or.inl hst
  | leave outcome | returned outcome =>
      rw [hpc] at hst
      cases outcome with
      | failedInline => exact Or.inl hst
      | inFlight => exact hhanded hst
      | resolvedBySlot => exact hhanded hst

/-- A caller that recorded its own completion has a dead stake. -/
theorem Caller.Ok.dead_of_recorded {c : Caller} {v : Cells Tid}
    {th : Thread} (h : c.Ok k v th) (hrec : c.pc.recorded ≠ 0) :
    c.pc.recorded = 1 ∧ Dead v k := by
  have hst := h.stake
  cases hpc : c.pc with
  | leave outcome | returned outcome =>
      rw [hpc] at hst hrec
      cases outcome with
      | failedInline => exact ⟨rfl, hst⟩
      | inFlight | resolvedBySlot => exact absurd rfl hrec
  | ranInline =>
      rw [hpc] at hst
      exact ⟨rfl, hst⟩
  | _ =>
      rw [hpc] at hrec
      exact absurd rfl hrec

/-- `PublishSlot` answers `kInvalid` to no caller. -/
theorem Caller.Ok.not_invalid {c : Caller} {v : Cells Tid} {cid : UInt64}
    (h : c.Ok k v (.returned (.published cid .invalid))) : False := by
  obtain ⟨hfits, hst, -, -⟩ := h
  cases hpc : c.pc with
  | awaitPublish | awaitResolvePublish =>
      rw [hpc] at hst
      exact hst.2 rfl
  | _ =>
      rw [hpc] at hfits
      cases hfits

/-- What became of a call that was handed over. -/
theorem handed_progress (hi : Inv cfg.table s.slots)
    (htr : Tracked s.slots) (hh : Handed s.slots.view k) :
    InFlight s k ∨ BeingFinished s k
      ∨ scheduledRuns s k = 1
        ∧ s.slots.completed.countP (fun e => e.task = some k) = 1 := by
  obtain ⟨i, g, hsole, ⟨rfl, hword⟩ | htaken⟩ := hh
  · exact Or.inl ⟨i, hsole.held, hword⟩
  · cases hf : (s.slots.lives i).fate g with
    | holding t b =>
        obtain ⟨w, p, hth, rfl, rfl⟩ := htr.attended.holding i g t b hf
        exact Or.inr (Or.inl ⟨t, w, hsole.held, Or.inl ⟨p, hth⟩⟩)
    | released t =>
        obtain ⟨w, d, hth, rfl, rfl⟩ := htr.attended.released i g t hf
        exact Or.inr (Or.inl ⟨t, w, hsole.held, Or.inr ⟨d, hth⟩⟩)
    | dispatched =>
        obtain ⟨hsched, hcomp⟩ := sole_counted htr hsole
        have htask : ((s.slots.lives i).argsOf g).task = some k :=
          hsole.held.task
        have hrec : (s.slots.lives i).records g = _ :=
          (hi.cells i).records g
        have hf' : (s.slots.view i).life.fate g = .dispatched := hf
        rw [hf'] at hrec
        refine Or.inr (Or.inr ⟨hsched.trans ?_, hcomp.trans hrec⟩)
        exact htr.delivered i g hf (by rw [htask]; nofun)
    | fresh | allocating | live | discarded =>
        have hf' : (s.slots.view i).life.fate g = _ := hf
        rw [hf'] at htaken
        exact htaken.elim

/-- In every run in which no recheck of `PublishSlot` loses its call,
every call is finished once. -/
theorem calls_finished_once (cfg : ChannelConfig) (s : State)
    (h : (machine cfg).Reach (fun s a => recheckWins s a = true) s)
    (k : Nat) : FinishedOnce s k := by
  have hi := inv_reachable (slots_reachable h)
  have htr := tracked_reachable (slots_reachable h)
  have hok := (callsOk_reach h).callers k
  have hruns := hok.inlineRuns
  have hcomp := hok.completions
  -- what the table has counted
  obtain ⟨hle, hle1⟩ :
      scheduledRuns s k
          ≤ s.slots.completed.countP (fun e => e.task = some k)
        ∧ s.slots.completed.countP (fun e => e.task = some k) ≤ 1 := by
    rcases hok.dead_or_sole with hdead | ⟨i, g, hsole⟩
    · obtain ⟨h1, h2⟩ := dead_uncounted hi htr hdead
      exact ⟨by rw [scheduledRuns, h1]; exact Nat.zero_le _, by rw [h2]; omega⟩
    · exact sole_counts_le hi htr hsole
  have hran : (s.callers k).pc.ran ≤ (s.callers k).pc.recorded := by
    cases (s.callers k).pc <;> simp [CallPc.ran, CallPc.recorded]
  have hsplit : (s.callers k).pc.recorded = 0
      ∨ (s.callers k).pc.recorded = 1 ∧ scheduledRuns s k = 0
        ∧ s.slots.completed.countP (fun e => e.task = some k) = 0 := by
    by_cases hrec : (s.callers k).pc.recorded = 0
    · exact Or.inl hrec
    · obtain ⟨hone, hdead⟩ := hok.dead_of_recorded hrec
      exact Or.inr ⟨hone, dead_uncounted hi htr hdead⟩
  refine ⟨?_, ?_, ?_, ?_, ?_, ?_⟩
  · unfold taskRuns
    omega
  · unfold completionsRecorded
    omega
  · unfold taskRuns completionsRecorded
    omega
  · intro hpc
    have hrec : (s.callers k).pc.recorded = 1 := by
      rcases hpc with hpc | hpc <;> rw [hpc] <;> rfl
    unfold completionsRecorded
    omega
  · intro outcome hpc hne
    have hst := hok.stake
    have hhanded : Handed s.slots.view k := by
      rw [hpc] at hst
      cases outcome with
      | failedInline => exact absurd rfl hne
      | inFlight => exact hst
      | resolvedBySlot => exact hst
    have hrec : (s.callers k).pc.recorded = 0 := by
      rw [hpc]
      cases outcome with
      | failedInline => exact absurd rfl hne
      | inFlight => rfl
      | resolvedBySlot => rfl
    refine ⟨by omega, by omega, ?_⟩
    rcases handed_progress hi htr hhanded with h | h | ⟨h1, h2⟩
    · exact Or.inl h
    · exact Or.inr (Or.inl h)
    · refine Or.inr (Or.inr ⟨h1, ?_⟩)
      unfold completionsRecorded
      omega
  · intro c hth
    rw [hth] at hok
    exact hok.not_invalid

end Calls

-- == two runs

/-- One cell, small limits, a codec that writes one byte. -/
def oneCall : ChannelConfig where
  table := oneCell
  codec := ⟨fun _ => some [0], fun _ => none⟩
  maxFrameBytes := kDefaultMaxRpcFrameBytes
  maxOutboundBytes := 64
  maxInFlight := 1
  defaultRpcTimeout := 1000

/-- A new connection for `oneCall`. -/
def oneCallStart : State := { slots := { table := .init oneCell } }

theorem oneCallStart_start : (machine oneCall).start oneCallStart :=
  ⟨_, ⟨{}, rfl⟩, rfl⟩

/-- `n` steps of `StartUnaryCall` in call 0. -/
def callSteps (n : Nat) : List Action := List.replicate n (.caller 0 none)

/-- `n` steps of a thread inside the table. -/
def tableSteps (t : Tid) (n : Nat) : List Action :=
  List.replicate n (.slots (.step t))

/-- Call 0 runs up to `AllocateSlot` and through it. -/
def allocateRun : List Action :=
  .call { executor := some 0 }
    :: (callSteps 5 ++ tableSteps (.caller 0) 8 ++ callSteps 1)

/-- It finds no timer keeper, publishes and fails itself. -/
def noTimerRun : List Action :=
  allocateRun ++ callSteps 3 ++ tableSteps (.caller 0) 3 ++ callSteps 2
    ++ tableSteps (.caller 0) 15 ++ callSteps 2

/-- The state `noTimerRun` ends in. -/
def noTimerState : State :=
  (machine oneCall).finalWhile recheckWins noTimerRun oneCallStart

theorem noTimerState_finished :
    ((noTimerState.callers 0).pc = .returned .resolvedBySlot
      ∧ scheduledRuns noTimerState 0 = 1)
      ∧ FinishedOnce noTimerState 0 := by
  refine ⟨by decide +kernel, calls_finished_once oneCall noTimerState ?_ 0⟩
  unfold noTimerState
  exact Machine.reach_finalWhile oneCallStart_start (by decide +kernel)

/-- Somebody closes the channel: the `FailAllActiveSlots` of the IO
thread takes the id of call 0 and fails the call. -/
def failAllSteps : List Action :=
  .close 1 :: (List.replicate 4 (.closer 1 .closed)
    ++ .dispatch :: List.replicate 6 (.io .suspend)
    ++ .slots (.step .io) :: .slots (.pick .io 0x100000000)
      :: tableSteps .io 15)

/-- Call 0 publishes its id; `FailAllActiveSlots` takes it, fails the
call and schedules its continuation; then call 0 looks for a connection
failure. -/
def lateRecheckRun : List Action :=
  allocateRun ++ List.replicate 3 (Action.caller 0 (some 1))
    ++ tableSteps (.caller 0) 2 ++ callSteps 6 ++ tableSteps (.caller 0) 2
    ++ failAllSteps ++ tableSteps (.caller 0) 2 ++ callSteps 4
    ++ tableSteps (.caller 0) 1 ++ callSteps 6

/-- The state `lateRecheckRun` ends in. -/
def lateRecheckState : State :=
  (machine oneCall).final lateRecheckRun oneCallStart

/-- The continuation was scheduled by the table and run by the caller,
and the completion was recorded by both. -/
theorem lateRecheck_finishes_twice :
    (machine oneCall).Reachable lateRecheckState
      ∧ (lateRecheckState.callers 0).pc = .ranInline
      ∧ scheduledRuns lateRecheckState 0 = 1
      ∧ taskRuns lateRecheckState 0 = 2
      ∧ completionsRecorded lateRecheckState 0 = 2 := by
  refine ⟨?_, by decide +kernel⟩
  unfold lateRecheckState
  exact Machine.reachable_final oneCallStart_start (by decide +kernel)

end AntRpc.Channel
