/-
The correlation id of a reused cell, and 0 as the failure of
`AllocateSlot`.

# When the id is 0

An id is a version and a cell, and 0 is cell 0 at version 0. Every
allocation of a cell moves its version on by one, modulo 2^32, so the
2^32-th allocation of cell 0 gets the id 0 although the cell is armed and
`active_slots_` raised. The free list is a stack, so a client with one
call at a time allocates cell 0 every time (`Resting.allocate`,
`Armed.discard`).

# When it is not

An allocation that does not find cell 0 at the last version before the
wrap (`versionLeft`) never chooses the id 0, and 0 is then returned
exactly by the allocations that armed nothing.
-/
import AntRpc.Slot.Proofs.Accounts

namespace AntRpc.Slot

open Lib

variable {τ : Type}

-- == the chosen id

/-- The cell and version an allocation has settled on. -/
def AllocPc.chosen : AllocPc → Option (UInt32 × UInt32)
  | .storeFields i v | .resetTimer i v | .storeArming i v
  | .addInFlight i v => some (i, v)
  | .loadActive _ | .casActive _ _ | .popFreeSlot | .undoActive
  | .loadVersion _ => none

/-- The cell, with its version, that the allocation running on `t` moved
to ARMING. -/
def State.armed (s : State τ) (t : τ) : Option (UInt32 × UInt32) :=
  match s.threads t with
  | .running (.alloc _ (.addInFlight i v)) => some (i, v)
  | _ => none

/-- The step does not take cell 0 at the last version before the wrap. -/
def versionLeft (s : State τ) : Action τ → Bool
  | .step t =>
      match s.threads t with
      | .running (.alloc _ (.loadVersion i)) =>
          !(i == 0 && (s.word i).version == 0xFFFFFFFF)
      | _ => true
  | _ => true

theorem makeCorrelationId_eq_zero {v i : UInt32} :
    makeCorrelationId v i = 0 ↔ v = 0 ∧ i = 0 := by
  constructor
  · intro h
    have hv := getVersion_make v i
    have hi := getSlotId_make v i
    rw [h] at hv hi
    exact ⟨hv.symm, hi.symm⟩
  · rintro ⟨rfl, rfl⟩
    rfl

/-- No allocation under way has settled on the id 0. -/
def Chosen (s : State τ) : Prop :=
  ∀ t args p i v, s.threads t = .running (.alloc args p) →
    p.chosen = some (i, v) → makeCorrelationId v i ≠ 0

section Chosen

variable [DecidableEq τ] {s s' : State τ} {t : τ}

/-- An allocation settles on an id once, when it loads the version. -/
theorem execAlloc_chosen {args args' : CallArgs} {p q : AllocPc}
    {i v : UInt32} (hq : (execAlloc t args p s).threads t
      = .running (.alloc args' q)) (hc : q.chosen = some (i, v)) :
    p.chosen = some (i, v)
      ∨ p = .loadVersion i ∧ v = (s.word i).version + 1 := by
  cases p with
  | loadVersion j =>
      rw [execAlloc, goto_thread] at hq
      cases hq
      cases hc
      exact Or.inr ⟨rfl, rfl⟩
  | storeFields j ver | resetTimer j ver | storeArming j ver =>
      rw [execAlloc, goto_thread] at hq
      cases hq
      exact Or.inl hc
  | addInFlight j ver | undoActive =>
      rw [execAlloc, ret_thread] at hq
      cases hq
  | loadActive limit =>
      rw [execAlloc, goto_thread] at hq
      cases hq
      cases hc
  | casActive limit current =>
      simp only [execAlloc] at hq
      split_ifs at hq
      · rw [goto_thread] at hq
        cases hq
        cases hc
      · rw [goto_thread] at hq
        cases hq
        cases hc
      · rw [ret_thread] at hq
        cases hq
  | popFreeSlot =>
      simp only [execAlloc] at hq
      split at hq <;> rw [goto_thread] at hq <;> cases hq <;> cases hc

/-- One step of a running operation that has a version left. -/
theorem chosen_exec {cfg cfg' : TableConfig} (hi : Inv cfg' s) {pc : Pc}
    (hpc : s.threads t = .running pc)
    (hleft : versionLeft s (.step t) = true)
    (hs : exec cfg t pc s = some s') (h : Chosen s) : Chosen s' := by
  have hok : ThreadOk s.view t (.running pc) := hpc ▸ hi.threads t
  intro u args q i v hu hc
  by_cases hut : u = t
  · subst hut
    -- only an allocation goes on as one
    have hdoing := exec_doing hok hs
    rw [hu] at hdoing
    obtain ⟨p, rfl⟩ := Pc.alloc_of_job (Eq.symm hdoing)
    cases hs
    rcases execAlloc_chosen hu hc with hp | ⟨rfl, rfl⟩
    · exact h u args p i v hpc hp
    · intro hzero
      obtain ⟨hv, rfl⟩ := makeCorrelationId_eq_zero.1 hzero
      have hmax : (s.word 0).version = 0xFFFFFFFF := by
        have hneg := congrArg (· - 1) hv
        simp only [add_sub_cancel_right] at hneg
        rw [hneg]
        decide
      simp [versionLeft, hpc, hmax] at hleft
  · exact h u args q i v (((effect_exec hi hok hs).others u hut).symm.trans hu)
      hc

omit [DecidableEq τ] in
/-- A move outside the operations settles on nothing. -/
theorem Moves.not_chosen {cfg : TableConfig} {a : Action τ}
    {th : Thread} {args : CallArgs} {p : AllocPc}
    (h : Moves cfg t a th (.running (.alloc args p))) : p.chosen = none := by
  have henter : ∀ op, enter cfg op = .running (.alloc args p) →
      p.chosen = none := by
    intro op hp
    cases op with
    | failAllActiveSlots code message => cases hp
    | _ =>
        simp only [enter, resolveTerminal] at hp
        split_ifs at hp
        all_goals cases hp
        all_goals rfl
  generalize hth : Thread.running (.alloc args p) = th' at h
  cases h with
  | call op => exact henter op hth.symm
  | retry =>
      cases hth
      rfl
  | fail | skip | collect => cases hth

/-- An action that has a version left. -/
theorem chosen_apply {cfg : TableConfig} {a : Action τ} (hi : Inv cfg s)
    (hc : Chosen s) (hleft : versionLeft s a = true)
    (hs : apply cfg a s = some s') : Chosen s' := by
  cases apply_acts hs with
  | step hpc hs => exact chosen_exec hi hpc hleft hs hc
  | @move t _ th published hm =>
      intro u args p i v hu hp
      by_cases hut : u = t
      · subst hut
        rw [setThread_thread] at hu
        rw [hu] at hm
        rw [hm.not_chosen] at hp
        cases hp
      · exact hc u args p i v ((Function.update_of_ne hut ..).symm.trans hu)
          hp
  | client heap metrics => exact hc

omit [DecidableEq τ] in
theorem chosen_start {cfg : TableConfig} (h : Start cfg s) : Chosen s := by
  obtain ⟨heap, rfl⟩ := h
  intro t args p i v hth
  cases hth

/-- No run with versions left settles on the id 0. -/
theorem chosen_reach {cfg : TableConfig}
    (h : (machine cfg).Reach (fun s a => versionLeft s a = true) s) :
    Chosen s :=
  h.invariant (I := Chosen) (fun _ => chosen_start)
    fun _ _ _ hr hc hleft hs =>
      chosen_apply (inv_reachable (hr.weaken fun _ _ _ => trivial)) hc hleft
        hs

end Chosen

-- == returning

section Returning

variable [DecidableEq τ] {s s' : State τ} {t : τ}

/-- A word becomes ARMING only in the store of an allocation, which then
has the cell to its name. -/
theorem armed_of_word {cfg cfg' : TableConfig} (hi : Inv cfg' s) {pc : Pc}
    (hok : ThreadOk s.view t (.running pc))
    (hs : exec cfg t pc s = some s') {i : UInt32}
    (hne : s'.word i ≠ s.word i) (harm : (s'.word i).state = .arming) :
    s'.armed t = some (i, (s'.word i).version) := by
  have he := effect_exec hi hok hs
  have hnow' : (s'.view i).life.now = .live :=
    ((he.sim i).inv (hi.cells i)).live_of_state
      (show (s'.word i).state.Live from harm ▸ Or.inl rfl)
  have hnow : (s.view i).life.now ≠ .live := by
    intro hlive
    have hword := exec_word hi hok hs (i := i)
      ((hi.cells i).live hlive).2.1
    generalize s'.word i = w at hword hne harm
    cases hword with
    | same => exact hne rfl
    | publish => cases harm
    | defer c r st _ _ _ hst =>
        rcases hst with rfl | rfl <;> cases harm
    | take c st _ _ _ hst | deliver c p st _ _ _ _ hst
    | discard c st _ _ _ hst =>
        cases harm
        exact hst (Or.inl rfl)
  -- the cell turned live in this step, so it was armed in it
  have hlives : ∀ {j : UInt32} {life : CellLife τ},
      s'.lives = Function.update s.lives j life →
      (life.now = .live → (s.lives j).now = .live) → False := by
    intro j life heq hlife
    have h' : (s'.lives i).now = .live := hnow'
    rw [lives_update heq i] at h'
    split at h'
    · next hij => exact hnow (hij ▸ hlife h')
    · exact hnow h'
  cases exec_lives hs with
  | same h _ =>
      refine absurd ?_ hnow
      have h' : (s'.lives i).now = .live := hnow'
      rw [h] at h'
      exact h'
  | pop args _ h =>
      exact (hlives h (by rw [CellLife.pop_now]; rintro ⟨⟩)).elim
  | arm args slot version hpc h =>
      subst hpc
      cases hs
      have hslot : i = slot := by
        by_contra hij
        refine hne ?_
        simp [execAlloc, State.goto, State.setThread, State.turn,
          State.setLife, State.storeLifecycle, State.setSlot, State.word, hij]
      subst hslot
      simp [execAlloc, State.armed, State.goto, State.setThread,
        State.turn, State.setLife, State.storeLifecycle, State.setSlot,
        State.word]
  | seize c after p _ _ h | release w item _ _ h | discard w _ h =>
      exact (hlives h (by rw [CellLife.setFate_now]; rintro ⟨⟩)).elim
  | record w code item _ _ h =>
      refine (hlives h ?_).elim
      rw [CellLife.setFate_now_eq, CellLife.record_gen, if_pos rfl]
      rintro ⟨⟩
  | dispatch w item n _ _ h =>
      refine (hlives h ?_).elim
      rw [CellLife.setFate_now_eq]
      split
      · rintro ⟨⟩
      · exact id

/-- Where a result of `AllocateSlot` comes from: its last step, or a call
that was rejected at once. -/
theorem allocated_of_exec {cfg : TableConfig} {pc : Pc} {args : CallArgs}
    {c : UInt64} (hok : ThreadOk s.view t (.running pc))
    (hs : exec cfg t pc s = some s')
    (hret : s'.threads t = .returned (.allocated args c)) :
    ∃ p, pc = .alloc args p
      ∧ (c = 0 ∧ p.chosen = none
        ∨ ∃ i v, p = .addInFlight i v ∧ c = makeCorrelationId v i) := by
  have hdoing := exec_doing hok hs
  rw [hret] at hdoing
  obtain ⟨p, rfl⟩ := Pc.alloc_of_job (show pc.job = .allocate args from
    hdoing)
  refine ⟨p, rfl, ?_⟩
  cases hs
  cases p with
  | addInFlight i v =>
      rw [execAlloc, ret_thread] at hret
      cases hret
      exact Or.inr ⟨i, v, rfl, rfl⟩
  | undoActive =>
      rw [execAlloc, ret_thread] at hret
      cases hret
      exact Or.inl ⟨rfl, rfl⟩
  | casActive limit current =>
      simp only [execAlloc] at hret
      split_ifs at hret
      · rw [goto_thread] at hret
        cases hret
      · rw [goto_thread] at hret
        cases hret
      · rw [ret_thread] at hret
        cases hret
        exact Or.inl ⟨rfl, rfl⟩
  | popFreeSlot =>
      simp only [execAlloc] at hret
      split at hret <;> rw [goto_thread] at hret <;> cases hret
  | loadActive | loadVersion | storeFields | resetTimer | storeArming =>
      rw [execAlloc, goto_thread] at hret
      cases hret

omit [DecidableEq τ] in
/-- A call that is rejected at once returns 0. -/
theorem Moves.allocated {cfg : TableConfig} {a : Action τ} {th : Thread}
    {args : CallArgs} {c : UInt64}
    (h : Moves cfg t a th (.returned (.allocated args c))) :
    th = .idle ∧ c = 0 := by
  have henter : ∀ op, enter cfg op = .returned (.allocated args c) →
      c = 0 := by
    intro op hp
    cases op with
    | failAllActiveSlots code message => cases hp
    | _ =>
        simp only [enter, resolveTerminal] at hp
        split_ifs at hp
        all_goals cases hp
        all_goals rfl
  generalize hth : Thread.returned (.allocated args c) = th' at h
  cases h with
  | call op => exact ⟨rfl, henter op hth.symm⟩
  | retry | fail | skip | collect => cases hth

/-- **0 means nothing reserved.** In every run in which no allocation
takes cell 0 at the last version before the wrap: whoever moves a cell to
ARMING has it to its name until it returns, the id of a cell so named is
not 0, and a call of `AllocateSlot` returns 0 exactly if it has none to
its name, and the id of the one it has otherwise. -/
theorem allocate_zero_iff (cfg : TableConfig) (s : State τ)
    (h : (machine cfg).Reach (fun s a => versionLeft s a = true) s) :
    (∀ a s' i, apply cfg a s = some s' → s'.word i ≠ s.word i →
        (s'.word i).state = .arming →
        ∃ t, a = .step t ∧ s'.armed t = some (i, (s'.word i).version))
      ∧ (∀ t i v, s.armed t = some (i, v) → makeCorrelationId v i ≠ 0)
      ∧ ∀ a s' t args c, apply cfg a s = some s' →
        s.threads t ≠ .returned (.allocated args c) →
        s'.threads t = .returned (.allocated args c) →
        (c = 0 ↔ s.armed t = none)
          ∧ ∀ i v, s.armed t = some (i, v) → c = makeCorrelationId v i := by
  have hi := inv_reachable (h.weaken fun _ _ _ => trivial)
  have hchosen := chosen_reach h
  have harmed : ∀ t i v, s.armed t = some (i, v) →
      ∃ args, s.threads t = .running (.alloc args (.addInFlight i v)) := by
    intro t i v harm
    unfold State.armed at harm
    split at harm
    · next hth =>
      cases harm
      exact ⟨_, hth⟩
    · cases harm
  have hnonzero : ∀ t i v, s.armed t = some (i, v) →
      makeCorrelationId v i ≠ 0 := by
    intro t i v harm
    obtain ⟨args, hth⟩ := harmed t i v harm
    exact hchosen t args _ i v hth rfl
  refine ⟨?_, hnonzero, ?_⟩
  · intro a s' i hs hne harm
    cases apply_acts hs with
    | @step t _ _ hpc hs =>
        exact ⟨t, rfl, armed_of_word hi (hpc ▸ hi.threads t) hs hne harm⟩
    | move => exact absurd rfl hne
    | client => exact absurd rfl hne
  · intro a s' t args c hs hbefore hret
    cases apply_acts hs with
    | @step u pc _ hpc hs =>
        have hok : ThreadOk s.view u (.running pc) := hpc ▸ hi.threads u
        by_cases hut : t = u
        · subst hut
          obtain ⟨p, rfl, hc⟩ := allocated_of_exec hok hs hret
          rcases hc with ⟨rfl, hp⟩ | ⟨i, v, rfl, rfl⟩
          · have hnone : s.armed t = none := by
              unfold State.armed
              rw [hpc]
              cases p <;> first | rfl | cases hp
            exact ⟨⟨fun _ => hnone, fun _ => rfl⟩,
              fun i v hv => by rw [hnone] at hv; cases hv⟩
          · have hsome : s.armed t = some (i, v) := by
              unfold State.armed
              rw [hpc]
            refine ⟨⟨fun hz => absurd hz (hnonzero t i v hsome),
              fun hn => ?_⟩, fun j w hv => ?_⟩
            · rw [hsome] at hn
              cases hn
            · rw [hsome] at hv
              cases hv
              rfl
        · rw [(effect_exec hi hok hs).others t hut] at hret
          exact absurd hret hbefore
    | @move u _ th published hm =>
        by_cases hut : t = u
        · subst hut
          rw [setThread_thread] at hret
          rw [hret] at hm
          obtain ⟨hidle, rfl⟩ := hm.allocated
          have hnone : s.armed t = none := by
            unfold State.armed
            rw [hidle]
          exact ⟨⟨fun _ => hnone, fun _ => rfl⟩,
            fun i v hv => by rw [hnone] at hv; cases hv⟩
        · exact absurd ((Function.update_of_ne hut ..).symm.trans hret)
            hbefore
    | client heap metrics => exact absurd hret hbefore

end Returning

-- == the wrap

/-- A call with an executor and nothing else. -/
def bareCall : CallArgs := { executor := some 0 }

/-- Thread 0 is idle and the only cell is free at version `v`. -/
structure Resting (v : UInt32) (s : State Nat) : Prop where
  thread : s.threads 0 = .idle
  head : s.table.freeHead = 0
  word : s.word 0 = ⟨v, .free⟩
  active : s.table.activeSlots = 0

/-- Thread 0 has armed the only cell at version `v` and is about to
return its id. -/
structure Armed (v : UInt32) (s : State Nat) : Prop where
  thread : s.threads 0 = .running (.alloc bareCall (.addInFlight 0 v))
  word : s.word 0 = ⟨v, .arming⟩
  active : s.table.activeSlots = 1
  args : s.args 0 = bareCall
  timer : (s.table.slots 0).deadlineTimerId = 0

/-- `AllocateSlot` up to its last step. -/
def allocateRun : List (Action Nat) :=
  .invoke 0 (.allocateSlot bareCall 1) :: List.replicate 7 (.step 0)

/-- The last step of `AllocateSlot`, and `DiscardArmingSlot`. -/
def discardRun (c : UInt64) : List (Action Nat) :=
  .step 0 :: .collect 0 :: .invoke 0 (.discardArmingSlot c)
    :: List.replicate 9 (.step 0) ++ [.collect 0]

/-- The first allocation, about to return. -/
def firstAllocation : State Nat :=
  (machine oneCell).finalWhile versionLeft allocateRun
    { table := .init oneCell }

/-- Its id is the first version of cell 0, and not 0. -/
theorem firstAllocation_nonzero :
    firstAllocation.armed 0 = some (0, 1)
      ∧ makeCorrelationId 1 0 ≠ 0 :=
  ⟨by decide +kernel, (allocate_zero_iff oneCell firstAllocation
    (Machine.reach_finalWhile ⟨{}, rfl⟩ (by decide +kernel))).2.1 0 0 1
      (by decide +kernel)⟩

/-- An allocation takes the free cell at the next version. -/
theorem Resting.allocate {v : UInt32} {s : State Nat} (h : Resting v s) :
    ∃ s', (machine oneCell).run allocateRun s = some s'
      ∧ Armed (v + 1) s' := by
  obtain ⟨hth, hhead, hword, hactive⟩ := h
  unfold State.word at hword
  simp [allocateRun, Machine.run, machine, apply, invoke, enter, exec,
    execAlloc, State.goto, State.setThread, hth, hhead, hword, hactive,
    bareCall, oneCell, State.setActiveSlots, State.setLife, invalidSlot,
    State.word, State.storeArgs, State.setSlot, State.storeTimer,
    State.storeLifecycle, State.turn]
  constructor <;> simp [State.word, State.args, bareCall]

/-- A discard gives the cell back at the same version. -/
theorem Armed.discard {v : UInt32} {s : State Nat} (h : Armed v s) :
    ∃ s', (machine oneCell).run (discardRun (makeCorrelationId v 0)) s
        = some s' ∧ Resting v s' := by
  obtain ⟨hth, hword, hactive, hargs, htimer⟩ := h
  unfold State.word at hword
  unfold State.args at hargs
  simp [discardRun, Machine.run, machine, apply, invoke, enter, exec,
    execAlloc, execHold, State.goto, State.ret, State.setThread, hth, hword,
    hactive, hargs, htimer, oneCell, State.setActiveSlots, State.setLife,
    State.word, State.args, State.storeArgs, State.setSlot,
    State.storeTimer, State.storeLifecycle, State.turn, State.win,
    TableConfig.hasSlot, State.cancelDeadlineTimer, State.onController,
    bareCall, After.won]
  constructor <;> simp [State.word]

/-- Any number of allocations, one after the other. -/
theorem resting_reachable (n : Nat) :
    ∃ s, (machine oneCell).Reachable s ∧ Resting (UInt32.ofNat n) s := by
  induction n with
  | zero =>
      exact ⟨{ table := .init oneCell }, .start ⟨{}, rfl⟩, rfl, rfl, rfl, rfl⟩
  | succ n ih =>
      obtain ⟨s, hr, hrest⟩ := ih
      obtain ⟨s₁, hrun₁, harmed⟩ := hrest.allocate
      obtain ⟨s₂, hrun₂, hrest₂⟩ := harmed.discard
      refine ⟨s₂, Machine.reachable_of_run
        (Machine.reachable_of_run hr hrun₁) hrun₂, ?_⟩
      rw [UInt32.ofNat_add]
      exact hrest₂

/-- The 2^32-th allocation of cell 0 moves it to ARMING, has
`active_slots_` raised, and returns 0. -/
theorem allocate_wraps_to_zero :
    ∃ s s' : State Nat, (machine oneCell).Reachable s
      ∧ apply oneCell (.step 0) s = some s'
      ∧ s.armed 0 = some (0, 0)
      ∧ s'.threads 0 = .returned (.allocated bareCall 0)
      ∧ s'.word 0 = ⟨0, .arming⟩ ∧ s'.table.activeSlots = 1 := by
  obtain ⟨s, hr, hrest⟩ := resting_reachable (2 ^ 32 - 1)
  obtain ⟨s₁, hrun, hth, hword, hactive, -⟩ := hrest.allocate
  have hv : UInt32.ofNat (2 ^ 32 - 1) + 1 = 0 := by decide
  rw [hv] at hth hword
  refine ⟨s₁, execAlloc 0 bareCall (.addInFlight 0 0) s₁,
    Machine.reachable_of_run hr hrun, ?_, ?_, ret_thread .., hword, hactive⟩
  · simp only [apply, hth, exec]
  · unfold State.armed
    rw [hth]

end AntRpc.Slot
