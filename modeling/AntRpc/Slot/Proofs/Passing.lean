/-
What a winner carries from the cell to the executor, as far as the
callback of one controller is concerned.

`FinalizeSlotAndDispatch` takes the callback out of the controller, puts
it into the item for the executor and schedules the item after the cell is
free again. `Thread.holds` is the item on that way, and `Passes` says what
a step of a thread does to it: it is made once, in the step that empties
the controller, and it ends in the queue unless there is nothing to run.
-/
import AntRpc.Slot.Proofs.Winning

namespace AntRpc.Slot

/-- What a winner will schedule, once it has taken the callback. -/
def HoldPc.taken : HoldPc → Option Dispatch
  | .takeNotify _ _ => none
  | p => p.item

/-- The item a thread is about to schedule, and for which allocation. -/
def Thread.holds : Thread → Option Scheduled
  | .running (.hold w p) => p.taken.map (⟨·, getSlotId w.cid, w.gen⟩)
  | .running (.dispatch w d) => some ⟨d, getSlotId w.cid, w.gen⟩
  | _ => none

variable {τ : Type}

/-- What a step of thread `t` does to its item, the queue and
controller `j`. -/
inductive Passes (j : Nat) (s s' : State τ) (t : τ) : Prop
  | keep (hholds : (s'.threads t).holds = (s.threads t).holds)
      (hsched : s'.scheduled = s.scheduled)
      (hctl : (s'.heap.controllers j).notices
        = (s.heap.controllers j).notices)
  | take (e : Scheduled) (hnone : (s.threads t).holds = none)
      (hholds : (s'.threads t).holds = some e)
      (hsched : s'.scheduled = s.scheduled)
      (hle : e.gen ≤ (s.lives e.slot).gen) (hmine : s.mine j e = true)
      (hnotify : e.item.notify = (s.heap.controllers j).notifyOnCancel)
      (hctl : s'.heap.controllers j
        = (s.heap.controllers j).takeNotifyOnCompletion.1)
  | takeOther (e : Scheduled) (hnone : (s.threads t).holds = none)
      (hholds : (s'.threads t).holds = some e)
      (hsched : s'.scheduled = s.scheduled)
      (hle : e.gen ≤ (s.lives e.slot).gen) (hmine : s.mine j e = false)
      (hctl : s'.heap.controllers j = s.heap.controllers j)
  | schedule (e : Scheduled) (hholds : (s.threads t).holds = some e)
      (hnone : (s'.threads t).holds = none)
      (hsched : s'.scheduled = s.scheduled ++ [e])
      (hheap : s'.heap = s.heap)
  | drop (e : Scheduled) (hholds : (s.threads t).holds = some e)
      (hnone : (s'.threads t).holds = none)
      (hsched : s'.scheduled = s.scheduled)
      (hnotify : e.item.notify = none) (hheap : s'.heap = s.heap)

variable [DecidableEq τ] {cfg : TableConfig} {s s' : State τ} {t : τ}
  {pc : Pc} {w : Winner} {p : HoldPc} {j : Nat}

-- == the item made

theorem After.won_holds (a : After) (c : UInt64) : (a.won c).holds = none := by
  cases a <;> rfl

theorem HoldPc.taken_of_opening (h : p.opening = true) : p.taken = none := by
  cases p <;> first | rfl | cases h

/-- Only a winner gives a cell back. -/
theorem exec_not_dispatch {d : Dispatch} (hi : Inv cfg s)
    (hatt : Attended s) (hpc : s.threads t = .running pc)
    (hout : pc.outside = true) (hs : exec cfg t pc s = some s')
    (hth : s'.threads t = .running (.dispatch w d)) : False := by
  have hok : ThreadOk s.view t (.running pc) := hpc ▸ hi.threads t
  have hown : DispatchOk s'.view t w d := by
    have := (effect_exec hi hok hs).own
    rwa [hth] at this
  have hfate : (s'.lives (getSlotId w.cid)).fate w.gen = .released t :=
    hown.fate
  have hold : (s.lives (getSlotId w.cid)).fate w.gen ≠ .released t := by
    intro h
    obtain ⟨w', d', hth', -⟩ := hatt.released _ _ _ h
    rw [hpc] at hth'
    cases hth'
    cases hout
  -- a page turned to something else is not this one
  have hpage : ∀ {i : UInt32} {life : CellLife τ} {g : Nat} {f : Fate τ},
      s'.lives = Function.update s.lives i (life.setFate g f) →
      life.fate = (s.lives i).fate → f ≠ .released t → False := by
    intro i life g f heq hlife hf
    rw [heq, Function.update_apply] at hfate
    split at hfate
    · next hslot =>
      rw [CellLife.setFate_fate] at hfate
      split at hfate
      · exact hf hfate
      · rw [hlife, ← hslot] at hfate
        exact hold hfate
    · exact hold hfate
  cases exec_lives hs with
  | same h hcase =>
      rw [h] at hfate
      exact hold hfate
  | pop args hpop h =>
      rw [h, Function.update_apply] at hfate
      split at hfate
      · next hslot =>
        rw [CellLife.pop_fate] at hfate
        split at hfate
        · cases hfate
        · rw [← hslot] at hfate
          exact hold hfate
      · exact hold hfate
  | arm args slot version harm h => exact hpage h rfl nofun
  | seize c after p' houtside hseize h =>
      rw [hth] at hseize
      cases hseize
  | record w' code item hpc' | release w' item hpc' | discard w' hpc'
  | dispatch w' item n hpc' =>
      rw [hpc'] at hout
      cases hout

/-- A thread that is no winner has nothing to schedule, and its step does
not change that. -/
theorem exec_holds_none (hi : Inv cfg s) (hatt : Attended s)
    (hpc : s.threads t = .running pc) (hout : pc.outside = true)
    (hs : exec cfg t pc s = some s') : (s'.threads t).holds = none := by
  have hok : ThreadOk s.view t (.running pc) := hpc ▸ hi.threads t
  cases hth : s'.threads t with
  | idle | returned r => rfl
  | running pc' =>
      cases pc' with
      | hold w p =>
          have hseizes := exec_seizes hok
            (fun w p h => by rw [h] at hout; cases hout) hs hth
          show p.taken.map _ = none
          rw [HoldPc.taken_of_opening hseizes.opening]
          rfl
      | dispatch w d => exact (exec_not_dispatch hi hatt hpc hout hs hth).elim
      | _ => rfl

-- == the winner

omit [DecidableEq τ] in
theorem onController_notices (i : UInt32) {f : Controller → Controller}
    (hf : ∀ ctl, (f ctl).notices = ctl.notices) :
    ((s.onController i f).heap.controllers j).notices
      = (s.heap.controllers j).notices := by
  unfold State.onController
  split
  · rfl
  · next k _ =>
    show (Function.update s.heap.controllers k _ j).notices = _
    by_cases hj : j = k
    · subst hj
      rw [Function.update_self]
      exact hf _
    · rw [Function.update_of_ne hj]

/-- `TakeNotifyOnCompletion`, if the cell has a controller. -/
theorem execHold_takes {code : Int32} {item : Dispatch}
    (hok : HoldOk s.view t w (.takeNotify code item))
    (hth : s.threads t = .running (.hold w (.takeNotify code item))) :
    Passes j s (execHold cfg t w (.takeNotify code item) s) t := by
  have hnone : (s.threads t).holds = none := by rw [hth]; rfl
  have hfields : s.args (getSlotId w.cid)
      = (s.lives (getSlotId w.cid)).argsOf w.gen := hok.fields rfl
  have hle : w.gen ≤ (s.lives (getSlotId w.cid)).gen := hok.gen.le
  simp only [execHold]
  split
  · next hctl =>
    refine .takeOther ⟨item, getSlotId w.cid, w.gen⟩ hnone ?_ rfl hle ?_ rfl
    · rw [goto_thread]
      rfl
    · simp [State.mine, ← hfields, hctl]
  · next k hctl =>
    by_cases hj : j = k
    · subst hj
      refine .take ⟨{ item with
          notify := (s.heap.controllers j).notifyOnCancel },
        getSlotId w.cid, w.gen⟩ hnone ?_ rfl hle ?_ rfl ?_
      · rw [goto_thread]
        rfl
      · simp [State.mine, ← hfields, hctl]
      · exact Function.update_self ..
    · refine .takeOther ⟨{ item with
          notify := (s.heap.controllers k).notifyOnCancel },
        getSlotId w.cid, w.gen⟩ hnone ?_ rfl hle ?_ ?_
      · rw [goto_thread]
        rfl
      · simp only [State.mine, ← hfields, hctl]
        exact decide_eq_false fun h => hj (Option.some.inj h).symm
      · exact Function.update_of_ne hj ..

/-- A step of a winner. -/
theorem execHold_passes (hok : HoldOk s.view t w p)
    (hth : s.threads t = .running (.hold w p)) :
    Passes j s (execHold cfg t w p s) t := by
  have hholds : (s.threads t).holds
      = p.taken.map (⟨·, getSlotId w.cid, w.gen⟩) := by rw [hth]; rfl
  cases p with
  | takeNotify code item => exact execHold_takes hok hth
  | discardTimer | cancelTimer =>
      refine .keep (by rw [hholds]; exact congrArg _ (goto_thread ..)) ?_ ?_
      all_goals
        simp only [execHold, State.cancelDeadlineTimer]
        split <;> rfl
  | discardClear | responseClear | failureClear =>
      refine .keep (by rw [hholds]; exact congrArg _ (goto_thread ..)) ?_
        (onController_notices _ fun ctl => ?_)
      · show (s.onController _ _).scheduled = _
        unfold State.onController
        split <;> rfl
      · unfold Controller.clearActiveSlot
        split <;> rfl
  | failureApply r =>
      refine .keep (by rw [hholds]; exact congrArg _ (goto_thread ..)) ?_
        (onController_notices _ fun ctl => rfl)
      show (s.onController _ _).scheduled = _
      unfold State.onController
      split <;> rfl
  | responseApply r =>
      refine .keep (by rw [hholds]; exact congrArg _ (goto_thread ..)) rfl ?_
      have hties := applyResponse_ties cfg (s.args (getSlotId w.cid)) r
        s.heap j
      exact congrArg (fun x => (x.1, x.2.2.1, x.2.2.2)) hties
  | pushFreeSlot item =>
      cases item with
      | some d =>
          exact .keep (by rw [hholds]; exact congrArg _ (goto_thread ..)) rfl
            rfl
      | none =>
          refine .keep ?_ rfl rfl
          rw [hholds]
          exact (congrArg _ (setThread_thread ..)).trans (After.won_holds ..)
  | _ =>
      exact .keep (by rw [hholds]; exact congrArg _ (goto_thread ..)) rfl rfl

/-- The end of a winner. -/
theorem execDispatch_passes {d : Dispatch}
    (hth : s.threads t = .running (.dispatch w d))
    (hs : execDispatch t w d s = some s') : Passes j s s' t := by
  have hholds : (s.threads t).holds = some ⟨d, getSlotId w.cid, w.gen⟩ := by
    rw [hth]
    rfl
  have hnone : (s'.threads t).holds = none := by
    rw [execDispatch_thread hs]
    exact After.won_holds ..
  simp only [execDispatch] at hs
  split_ifs at hs with hempty hexec
  · cases hs
    exact .drop _ hholds hnone rfl hempty.2 rfl
  · cases hs
    exact .schedule _ hholds hnone rfl rfl

/-- Every step of the table. -/
theorem exec_passes (hi : Inv cfg s) (hatt : Attended s)
    (hpc : s.threads t = .running pc) (hs : exec cfg t pc s = some s') :
    Passes j s s' t := by
  have hok : ThreadOk s.view t (.running pc) := hpc ▸ hi.threads t
  by_cases hhold : ∃ w p, pc = .hold w p
  · obtain ⟨w, p, rfl⟩ := hhold
    cases hs
    exact execHold_passes hok hpc
  by_cases hdispatch : ∃ w d, pc = .dispatch w d
  · obtain ⟨w, d, rfl⟩ := hdispatch
    exact execDispatch_passes hpc hs
  obtain ⟨hheap, hsched⟩ := exec_outside hs
    (fun w p h => hhold ⟨w, p, h⟩) (fun w d h => hdispatch ⟨w, d, h⟩)
  have hout : pc.outside = true := by
    cases pc with
    | hold w p => exact absurd ⟨w, p, rfl⟩ hhold
    | dispatch w d => exact absurd ⟨w, d, rfl⟩ hdispatch
    | _ => rfl
  refine .keep ?_ hsched (by rw [hheap])
  rw [exec_holds_none hi hatt hpc hout hs, hpc]
  cases pc with
  | hold | dispatch => cases hout
  | _ => rfl

-- == its owner

omit [DecidableEq τ] in
/-- The item a thread is about to schedule is for an allocation that is
not dispatched yet. -/
theorem holds_page {e : Scheduled} (hi : Inv cfg s)
    (h : (s.threads t).holds = some e) :
    0 < e.gen ∧ e.gen ≤ (s.lives e.slot).gen
      ∧ (s.lives e.slot).fate e.gen ≠ .dispatched := by
  have hth := hi.threads t
  cases hrun : s.threads t with
  | idle | returned r =>
      rw [hrun] at h
      cases h
  | running pc =>
      rw [hrun] at h hth
      cases pc with
      | hold w p =>
          have hok : HoldOk s.view t w p := hth
          obtain ⟨d, -, rfl⟩ := Option.map_eq_some_iff.mp h
          obtain ⟨hpos, -, -⟩ := (hi.cells (getSlotId w.cid)).holding _ _
            hok.now
          have hgen : w.gen = (s.lives (getSlotId w.cid)).gen := hok.gen
          refine ⟨by rw [hgen]; exact hpos, hgen.le, ?_⟩
          show (s.lives (getSlotId w.cid)).fate w.gen ≠ _
          rw [hgen]
          intro hd
          have hnow : (s.lives (getSlotId w.cid)).now = .holding t _ :=
            hok.now
          rw [CellLife.now, hd] at hnow
          cases hnow
      | dispatch w d =>
          have hok : DispatchOk s.view t w d := hth
          cases h
          refine ⟨hok.pos, hok.gen, fun hd => ?_⟩
          have hfate : (s.lives (getSlotId w.cid)).fate w.gen = .released t :=
            hok.fate
          rw [hfate] at hd
          cases hd
      | _ => cases h

/-- Whose an item is does not change. -/
theorem mine_exec {e : Scheduled} (hi : Inv cfg s)
    (hpc : s.threads t = .running pc) (hs : exec cfg t pc s = some s')
    (hle : e.gen ≤ (s.lives e.slot).gen) : s'.mine j e = s.mine j e := by
  have hok : ThreadOk s.view t (.running pc) := hpc ▸ hi.threads t
  have hargs : (s'.lives e.slot).argsOf e.gen
      = (s.lives e.slot).argsOf e.gen :=
    ((effect_exec hi hok hs).sim e.slot).argsOf_eq hle
  simp only [State.mine, hargs]

omit [DecidableEq τ] in
/-- A move of a thread alone is not about its item. -/
theorem Moves.holds {a : Action τ} {th th' : Thread}
    (h : Moves cfg t a th th') : th.holds = none ∧ th'.holds = none := by
  have henter : ∀ op, (enter cfg op).holds = none := by
    intro op
    cases op <;> simp only [enter, resolveTerminal] <;>
      repeat (first | split | rfl)
  cases h with
  | call op => exact ⟨rfl, henter op⟩
  | _ => exact ⟨rfl, rfl⟩

-- == one call

/-- Allocation `g` of cell `i` is for a call on controller `j`. -/
structure Calls (j : Nat) (s : State τ) (i : UInt32) (g : Nat) : Prop where
  pos : 0 < g
  le : g ≤ (s.lives i).gen
  controller : ((s.lives i).argsOf g).controller = some j

/-- `AllocateSlot` has not taken a cell yet. -/
def AllocPc.searching : AllocPc → Bool
  | .loadActive _ | .casActive _ _ | .popFreeSlot => true
  | _ => false

/-- The thread is about to take a cell for a call on controller `j`. -/
def Thread.calling (j : Nat) : Thread → Bool
  | .running (.alloc args p) => args.controller = some j && p.searching
  | _ => false

/-- There is one call on controller `j`, or one on its way. -/
structure OneCall (j : Nat) (s : State τ) : Prop where
  one : ∀ i g i' g', Calls j s i g → Calls j s i' g' → i = i' ∧ g = g'
  fresh : ∀ t, (s.threads t).calling j = true → ∀ i g, ¬ Calls j s i g
  alone : ∀ t t', (s.threads t).calling j = true →
    (s.threads t').calling j = true → t = t'

/-- There is none. -/
structure Uncalled (j : Nat) (s : State τ) : Prop where
  threads : ∀ t, (s.threads t).calling j = false
  cells : ∀ i g, ¬ Calls j s i g

omit [DecidableEq τ] in
theorem Uncalled.oneCall (h : Uncalled j s) : OneCall j s where
  one i g _ _ hc := absurd hc (h.cells i g)
  fresh t ht := by
    rw [h.threads t] at ht
    cases ht
  alone t _ ht := by
    rw [h.threads t] at ht
    cases ht

/-- A thread that is about to take a cell has been so, and its step was
not the one that takes it. -/
theorem exec_calling (hok : ThreadOk s.view t (.running pc))
    (hs : exec cfg t pc s = some s')
    (h : (s'.threads t).calling j = true) :
    (Thread.running pc).calling j = true
      ∧ ∀ args, pc ≠ .alloc args .popFreeSlot := by
  have hjob := exec_doing hok hs
  cases hth : s'.threads t with
  | idle | returned r =>
      rw [hth] at h
      cases h
  | running pc' =>
      rw [hth] at h hjob
      cases pc' with
      | alloc args q =>
          change Job.allocate args = pc.job at hjob
          cases pc with
          | alloc args' p =>
              cases hjob
              cases hs
              have hctl : args.controller = some j :=
                of_decide_eq_true (Bool.and_eq_true_iff.mp h).1
              cases p with
              | loadActive limit | casActive limit current =>
                  exact ⟨by simp [Thread.calling, AllocPc.searching, hctl],
                    nofun⟩
              | popFreeSlot =>
                  simp only [execAlloc] at hth
                  split at hth <;> rw [goto_thread] at hth <;> cases hth <;>
                    simp [Thread.calling, AllocPc.searching] at h
              | undoActive | addInFlight slot version =>
                  simp only [execAlloc, ret_thread] at hth
                  cases hth
              | loadVersion slot | storeFields slot version
              | resetTimer slot version | storeArming slot version =>
                  simp only [execAlloc, goto_thread] at hth
                  cases hth
                  simp [Thread.calling, AllocPc.searching] at h
          | hold w p | dispatch w d =>
              cases hafter : w.after <;>
                simp only [Pc.job, After.job, hafter] at hjob <;> cases hjob
          | _ => cases hjob
      | _ => cases h

/-- An allocation on controller `j` was there before, or the step took a
cell for it. -/
theorem calls_exec {i : UInt32} {g : Nat} (hi : Inv cfg s)
    (hok : ThreadOk s.view t (.running pc)) (hs : exec cfg t pc s = some s')
    (h : Calls j s' i g) :
    Calls j s i g ∨ (i = s.table.freeHead ∧ g = (s.lives i).gen + 1
      ∧ ∃ args, pc = .alloc args .popFreeSlot
        ∧ args.controller = some j) := by
  have hsim := (effect_exec hi hok hs).sim i
  obtain ⟨hpos, hle, hctl⟩ := h
  by_cases hg : g ≤ (s.lives i).gen
  · left
    have hargs : (s'.lives i).argsOf g = (s.lives i).argsOf g :=
      hsim.argsOf_eq hg
    exact ⟨hpos, hg, hargs ▸ hctl⟩
  · right
    obtain ⟨args, hpc, hpop⟩ := (exec_lives hs).pop_of_gen (i := i)
      (by omega)
    rw [hpop] at hle hctl
    rw [CellLife.pop_gen] at hle
    have hgen : g = (s.lives i).gen + 1 := by omega
    rw [CellLife.pop_argsOf, if_pos hgen] at hctl
    refine ⟨?_, hgen, args, hpc, hctl⟩
    by_contra hne
    subst hpc
    have hlife : s'.lives i = s.lives i := by
      cases hs
      simp only [execAlloc]
      split
      · rfl
      · exact Function.update_of_ne hne ..
    rw [hlife] at hpop
    have := congrArg CellLife.gen hpop
    simp at this

/-- A step of the table. -/
theorem OneCall.exec (h : OneCall j s) (hi : Inv cfg s)
    (hpc : s.threads t = .running pc) (hs : exec cfg t pc s = some s') :
    OneCall j s' := by
  have hok : ThreadOk s.view t (.running pc) := hpc ▸ hi.threads t
  have hothers := (effect_exec hi hok hs).others
  -- a thread on its way was on its way
  have hback : ∀ u, (s'.threads u).calling j = true →
      (s.threads u).calling j = true := by
    intro u hu
    by_cases hut : u = t
    · subst hut
      rw [hpc]
      exact (exec_calling hok hs hu).1
    · rwa [hothers u hut] at hu
  have hpop : ∀ {args}, pc = .alloc args .popFreeSlot →
      args.controller = some j → (s.threads t).calling j = true := by
    rintro args rfl hctl
    rw [hpc]
    simp [Thread.calling, AllocPc.searching, hctl]
  refine ⟨?_, ?_, ?_⟩
  · intro i g i' g' hc hc'
    rcases calls_exec hi hok hs hc with hold | ⟨hi1, hg1, args, hp, hctl⟩
    · rcases calls_exec hi hok hs hc' with hold' | ⟨-, -, args, hp, hctl⟩
      · exact h.one i g i' g' hold hold'
      · exact absurd hold (h.fresh t (hpop hp hctl) i g)
    · rcases calls_exec hi hok hs hc' with hold' | ⟨hi2, hg2, -⟩
      · exact absurd hold' (h.fresh t (hpop hp hctl) i' g')
      · subst hi1
        subst hi2
        exact ⟨rfl, hg1.trans hg2.symm⟩
  · intro u hu i g hc
    rcases calls_exec hi hok hs hc with hold | ⟨-, -, args, hp, hctl⟩
    · exact h.fresh u (hback u hu) i g hold
    · -- only one was on its way, and it has arrived
      have hut : u = t := h.alone u t (hback u hu) (hpop hp hctl)
      subst hut
      exact (exec_calling hok hs hu).2 args hp
  · intro u u' hu hu'
    exact h.alone u u' (hback u hu) (hback u' hu')

theorem Uncalled.exec (h : Uncalled j s) (hi : Inv cfg s)
    (hpc : s.threads t = .running pc) (hs : exec cfg t pc s = some s') :
    Uncalled j s' := by
  have hok : ThreadOk s.view t (.running pc) := hpc ▸ hi.threads t
  refine ⟨fun u => ?_, fun i g hc => ?_⟩
  · by_cases hut : u = t
    · subst hut
      by_contra hcall
      rw [Bool.not_eq_false] at hcall
      have hold := (exec_calling hok hs hcall).1
      rw [← hpc, h.threads u] at hold
      cases hold
    · rw [(effect_exec hi hok hs).others u hut]
      exact h.threads u
  · rcases calls_exec hi hok hs hc with hold | ⟨-, -, args, hp, hctl⟩
    · exact h.cells i g hold
    · have hold := h.threads t
      rw [hpc, hp] at hold
      simp [Thread.calling, AllocPc.searching, hctl] at hold

end AntRpc.Slot
