/-
What the threads that use the table may rely on while others step: who
can move the word of a live cell (`exec_word`), who can add a chapter to
its story (`exec_lives`), which operation a thread is in until it returns
(`exec_doing`), that the executor and the metrics saw exactly what became
of the allocations (`Logged`, `Delivered`), and that a won cell has its
winner at work (`Attended`).
-/
import AntRpc.Slot.Proofs.Isolation

namespace AntRpc.Slot

variable {τ : Type} [DecidableEq τ]

-- == words

/-- Armed and not published. -/
def SlotState.Unpublished (st : SlotState) : Prop :=
  st = .arming ∨ st = .cancelPending ∨ st = .timeoutPending

theorem SlotState.Unpublished.live {st : SlotState} (h : st.Unpublished) :
    st.Live := by
  rcases h with rfl | rfl | rfl <;> decide

/-- `PublishSlot` is past the compare-and-swap that publishes. -/
def PublishPc.published : PublishPc → Bool
  | .takeConnectionFailure | .failInFlight _ _ => true
  | .registerPublishedSlot | .failArming _ _ | .publish
  | .unregisterPublishedSlot _ | .deliverPending _ _ => false

/-- What a step at `pc` may do to the word `w` of a live cell `i`. -/
inductive WordStep (pc : Pc) (i : UInt32) (w : Lifecycle) :
    Lifecycle → Prop
  | same : WordStep pc i w w
  | publish (c : UInt64) (hpc : pc = .publish c .publish)
      (hi : getSlotId c = i) (hw : w = ⟨getVersion c, .arming⟩) :
      WordStep pc i w ⟨getVersion c, .inFlight⟩
  | defer (c : UInt64) (r : SlotResolution) (st : SlotState)
      (hpc : pc = .resolvePending c r) (hi : getSlotId c = i)
      (hw : w = ⟨getVersion c, .arming⟩)
      (hst : st = .cancelPending ∨ st = .timeoutPending) :
      WordStep pc i w ⟨getVersion c, st⟩
  | take (c : UInt64) (st : SlotState) (hpc : pc.carries = some c)
      (hi : getSlotId c = i) (hw : w = ⟨getVersion c, .inFlight⟩)
      (hst : ¬ st.Live) : WordStep pc i w ⟨getVersion c, st⟩
  | deliver (c : UInt64) (p : PublishPc) (st : SlotState)
      (hpc : pc = .publish c p) (hp : p.published = false)
      (hi : getSlotId c = i) (hw : w.version = getVersion c)
      (hst : ¬ st.Live) : WordStep pc i w ⟨getVersion c, st⟩
  | discard (c : UInt64) (st : SlotState) (hpc : pc = .discard c)
      (hi : getSlotId c = i) (hw : w = ⟨getVersion c, .arming⟩)
      (hst : ¬ st.Live) : WordStep pc i w ⟨getVersion c, st⟩

section Words

variable {s s' : State τ} {t : τ} {i : UInt32}

omit [DecidableEq τ] in
@[simp] theorem word_storeLifecycle (w : Lifecycle) :
    (s.storeLifecycle i w).word i = w := by
  have h := congrArg CellView.word (view_storeLifecycle s i i w)
  rw [if_pos rfl] at h
  exact h

/-- The compare-and-swaps of `PublishSlot`. -/
theorem execPublish_word {c : UInt64} {p : PublishPc} :
    WordStep (.publish c p) (getSlotId c) (s.word (getSlotId c))
      ((execPublish t c p s).word (getSlotId c)) := by
  have hlost : ∀ (s₁ : State τ) (w : Lifecycle),
      (publishLost t c w s₁).word (getSlotId c)
        = s₁.word (getSlotId c) := by
    intro s₁ w
    unfold publishLost
    split
    · split <;> rfl
    · rfl
  have hwin : ∀ (st : SlotState) (o : PublishOutcome) (q : HoldPc),
      ((s.storeLifecycle (getSlotId c) ⟨getVersion c, st⟩).win t c
        (.publish o) q).word (getSlotId c) = ⟨getVersion c, st⟩ :=
    fun st _ _ => word_storeLifecycle ⟨getVersion c, st⟩
  cases p with
  | registerPublishedSlot =>
      simp only [execPublish]
      split <;> exact .same
  | failArming code message =>
      simp only [execPublish]
      split
      · next h =>
        rw [hwin]
        exact .deliver c _ _ rfl rfl rfl (congrArg Lifecycle.version h)
          (by decide)
      · rw [hlost]
        exact .same
  | publish =>
      simp only [execPublish]
      split
      · next h =>
        have hword : ((s.storeLifecycle (getSlotId c)
            ⟨getVersion c, .inFlight⟩).goto t
              (.publish c .takeConnectionFailure)).word (getSlotId c)
            = ⟨getVersion c, .inFlight⟩ := word_storeLifecycle _
        rw [hword]
        exact .publish c rfl rfl h
      · exact .same
  | takeConnectionFailure =>
      simp only [execPublish]
      split <;> exact .same
  | failInFlight code message =>
      simp only [execPublish]
      split
      · next h =>
        rw [hwin]
        exact .take c _ rfl rfl h (by decide)
      · exact .same
  | unregisterPublishedSlot observed =>
      simp only [execPublish]
      rw [hlost]
      exact .same
  | deliverPending st r =>
      simp only [execPublish]
      split
      · next h =>
        rw [hwin]
        exact .deliver c _ _ rfl rfl rfl (congrArg Lifecycle.version h)
          (terminalState_not_live r)
      · exact .same

/-- What a step does to the word of a live cell. -/
theorem exec_word {cfg cfg' : TableConfig} (hi : Inv cfg' s) {pc : Pc}
    (hok : ThreadOk s.view t (.running pc))
    (hs : exec cfg t pc s = some s') (hlive : (s.word i).state.Live) :
    WordStep pc i (s.word i) (s'.word i) := by
  have hnow : (s.lives i).now = .live := (hi.cells i).live_of_state hlive
  have hsame : s'.word i = s.word i →
      WordStep pc i (s.word i) (s'.word i) := by
    intro h
    rw [h]
    exact .same
  have hstore : ∀ w, s'.word i = w → WordStep pc i (s.word i) w →
      WordStep pc i (s.word i) (s'.word i) := fun _ hw h => hw ▸ h
  -- a step for `c` touches at most the cell `c` names
  by_cases helse : ∃ c, pc.carries = some c ∧ i ≠ getSlotId c
  · obtain ⟨c, hc, hne⟩ := helse
    exact hsame ((confined_exec hi hok hc hs).elsewhere i hne).1
  have hhere : ∀ c, pc.carries = some c → i = getSlotId c := fun c hc =>
    not_not.mp fun hne => helse ⟨c, hc, hne⟩
  cases pc with
  | alloc args p =>
      cases hs
      refine hsame ?_
      by_contra hne
      have halloc := (execAlloc_writes hok i (Or.inl hne)).1
      rw [hnow] at halloc
      cases halloc
  | publish c p =>
      obtain rfl := hhere c rfl
      cases hs
      exact execPublish_word
  | discard c =>
      obtain rfl := hhere c rfl
      simp only [exec] at hs
      split at hs <;> cases hs
      · next h =>
        exact hstore ⟨getVersion c, .timedOut⟩ (word_storeLifecycle _)
          (.discard c _ rfl rfl h (by decide))
      · exact .same
  | responseCas c r =>
      obtain rfl := hhere c rfl
      simp only [exec] at hs
      split at hs <;> cases hs
      · next h =>
        exact hstore ⟨getVersion c, .completed⟩ (word_storeLifecycle _)
          (.take c _ rfl rfl h (by decide))
      · exact .same
  | transition c r after =>
      obtain rfl := hhere c rfl
      simp only [exec] at hs
      split at hs <;> cases hs
      · next h =>
        exact hstore ⟨getVersion c, r.terminalState⟩ (word_storeLifecycle _)
          (.take c _ rfl rfl h (terminalState_not_live r))
      · exact .same
  | resolvePending c r =>
      obtain rfl := hhere c rfl
      simp only [exec] at hs
      split at hs
      · cases hs
        exact .same
      · next pending hpending =>
        split at hs <;> cases hs
        · next h =>
          exact hstore ⟨getVersion c, pending⟩ (word_storeLifecycle _)
            (.defer c r _ rfl rfl h (pendingState_eq hpending))
        · exact .same
  | hold w p =>
      obtain rfl := hhere w.cid rfl
      have hhold : (s.lives (getSlotId w.cid)).now = _ := hok.now
      rw [hnow] at hhold
      cases hhold
  | dispatch w d => exact hsame (by
      unfold exec execDispatch at hs
      simp only at hs
      split_ifs at hs <;> cases hs <;> rfl)
  | attachLoad c timerId | failAllTake code message
  | failAllNext rest total code message =>
      simp only [exec] at hs
      split_ifs at hs <;> cases hs <;> exact .same
  | attachStore c timerId =>
      cases hs
      exact hsame (congrArg CellView.word (view_storeTimer s i _ _))
  | responseUnknown c | responseLate c => cases hs; exact .same

end Words

-- == threads

theorem goto_thread (s : State τ) (t : τ) (pc : Pc) :
    (s.goto t pc).threads t = .running pc := Function.update_self ..

theorem ret_thread (s : State τ) (t : τ) (r : Result) :
    (s.ret t r).threads t = .returned r := Function.update_self ..

theorem setThread_thread (s : State τ) (t : τ) (th : Thread) :
    (s.setThread t th).threads t = th := Function.update_self ..

theorem win_thread (s : State τ) (t : τ) (c : UInt64) (after : After)
    (p : HoldPc) : ∃ g, (s.win t c after p).threads t
      = .running (.hold ⟨c, g, after⟩ p) :=
  ⟨_, Function.update_self ..⟩

-- == lives

/-- The thread holds no cell and has none to dispatch. -/
def Pc.outside : Pc → Bool
  | .hold _ _ | .dispatch _ _ => false
  | _ => true

/-- What a step of thread `t` at `pc` adds to the stories of the cells,
and where a thread that holds one goes. -/
inductive LifeStep (t : τ) (pc : Pc) (s : State τ) : State τ → Prop
  | same {s'} (h : s'.lives = s.lives)
      (hpc : pc.outside = true ∨ ∃ w p q, pc = .hold w p
        ∧ s'.threads t = .running (.hold w q)) : LifeStep t pc s s'
  | pop {s'} (args : CallArgs) (hpc : pc = .alloc args .popFreeSlot)
      (h : s'.lives = Function.update s.lives s.table.freeHead
        ((s.lives s.table.freeHead).pop t args)) : LifeStep t pc s s'
  | arm {s'} (args : CallArgs) (slot version : UInt32)
      (hpc : pc = .alloc args (.storeArming slot version))
      (h : s'.lives = (s.turn slot .live).lives) : LifeStep t pc s s'
  | seize {s'} (c : UInt64) (after : After) (p : HoldPc)
      (hpc : pc.outside = true)
      (hth : s'.threads t
        = .running (.hold ⟨c, (s.lives (getSlotId c)).gen, after⟩ p))
      (h : s'.lives = (s.turn (getSlotId c) (.holding t false)).lives) :
      LifeStep t pc s s'
  | record {s'} (w : Winner) (code : Int32) (item : Dispatch)
      (hpc : pc = .hold w (.recordCompletion code item))
      (hth : s'.threads t = .running (.hold w (.unregister item)))
      (h : s'.lives = Function.update s.lives (getSlotId w.cid)
        (((s.lives (getSlotId w.cid)).record
          (s.lives (getSlotId w.cid)).gen).setFate
            (s.lives (getSlotId w.cid)).gen (.holding t true))) :
      LifeStep t pc s s'
  | release {s'} (w : Winner) (item : Dispatch)
      (hpc : pc = .hold w (.pushFreeSlot (some item)))
      (hth : s'.threads t = .running (.dispatch w item))
      (h : s'.lives = (s.turn (getSlotId w.cid) (.released t)).lives) :
      LifeStep t pc s s'
  | discard {s'} (w : Winner) (hpc : pc = .hold w (.pushFreeSlot none))
      (h : s'.lives = (s.turn (getSlotId w.cid) .discarded).lives) :
      LifeStep t pc s s'
  | dispatch {s'} (w : Winner) (item : Dispatch) (n : Nat)
      (hpc : pc = .dispatch w item) (hn : item.task ≠ none → n = 1)
      (h : s'.lives = Function.update s.lives (getSlotId w.cid)
        (((s.lives (getSlotId w.cid)).dispatch w.gen n).setFate w.gen
          .dispatched)) : LifeStep t pc s s'

section Lives

variable {s s' : State τ} {t : τ} {i : UInt32}

theorem lifeStep_win {pc : Pc} {c : UInt64} {w : Lifecycle} {after : After}
    {p : HoldPc} (hpc : pc.outside = true) :
    LifeStep t pc s ((s.storeLifecycle (getSlotId c) w).win t c after p) :=
  .seize c after p hpc (goto_thread ..) rfl

theorem execAlloc_lives {args : CallArgs} {p : AllocPc} :
    LifeStep t (.alloc args p) s (execAlloc t args p s) := by
  cases p with
  | popFreeSlot =>
      simp only [execAlloc]
      split
      · exact .same rfl (Or.inl rfl)
      · exact .pop args rfl rfl
  | storeArming slot version => exact .arm args slot version rfl rfl
  | casActive limit current =>
      simp only [execAlloc]
      split_ifs <;> exact .same rfl (Or.inl rfl)
  | _ => exact .same rfl (Or.inl rfl)

theorem execPublish_lives {c : UInt64} {p : PublishPc} :
    LifeStep t (.publish c p) s (execPublish t c p s) := by
  have hlost : ∀ (s₁ : State τ) (w : Lifecycle), s₁.lives = s.lives →
      (publishLost t c w s₁).lives = s.lives := by
    intro s₁ w h
    unfold publishLost
    split
    · split <;> exact h
    · exact h
  cases p with
  | unregisterPublishedSlot observed =>
      exact .same (hlost _ _ rfl) (Or.inl rfl)
  | failArming code message =>
      simp only [execPublish]
      split
      · exact lifeStep_win rfl
      · exact .same (hlost _ _ rfl) (Or.inl rfl)
  | failInFlight code message | deliverPending st r =>
      simp only [execPublish]
      split
      · exact lifeStep_win rfl
      · exact .same rfl (Or.inl rfl)
  | registerPublishedSlot | publish | takeConnectionFailure =>
      simp only [execPublish]
      split <;> exact .same rfl (Or.inl rfl)

theorem execHold_lives {cfg : TableConfig} {w : Winner} {p : HoldPc} :
    LifeStep t (.hold w p) s (execHold cfg t w p s) := by
  have hgo : ∀ (s₁ : State τ) (q : HoldPc), s₁.lives = s.lives →
      LifeStep t (.hold w p) s (s₁.goto t (.hold w q)) :=
    fun s₁ q h => .same h (Or.inr ⟨w, p, q, rfl, goto_thread ..⟩)
  cases p with
  | recordCompletion code item =>
      exact .record w code item rfl (goto_thread ..) rfl
  | pushFreeSlot item =>
      cases item with
      | some d => exact .release w d rfl (goto_thread ..) rfl
      | none => exact .discard w rfl rfl
  | takeNotify code item =>
      simp only [execHold]
      split <;> exact hgo _ _ rfl
  | discardTimer | cancelTimer item =>
      refine hgo _ _ (funext fun i => ?_)
      exact congrArg CellView.life (view_cancelDeadlineTimer s i _)
  | discardClear | responseClear r | failureClear r | failureApply r =>
      refine hgo _ _ (funext fun i => ?_)
      exact congrArg CellView.life (view_onController s i _ _)
  | _ =>
      exact hgo _ _ rfl

/-- What a step adds to the stories of the cells. -/
theorem exec_lives {cfg : TableConfig} {pc : Pc}
    (hs : exec cfg t pc s = some s') : LifeStep t pc s s' := by
  cases pc with
  | alloc args p => cases hs; exact execAlloc_lives
  | publish c p => cases hs; exact execPublish_lives
  | hold w p => cases hs; exact execHold_lives
  | dispatch w d =>
      unfold exec execDispatch at hs
      simp only at hs
      split_ifs at hs with hnone
      · cases hs
        exact .dispatch w d 0 rfl (absurd hnone.1) rfl
      · cases hs
        exact .dispatch w d 1 rfl (fun _ => rfl) rfl
  | discard c | responseCas c r | transition c r after =>
      simp only [exec] at hs
      split at hs <;> cases hs
      · exact lifeStep_win rfl
      · exact .same rfl (Or.inl rfl)
  | resolvePending c r =>
      simp only [exec] at hs
      split at hs
      · cases hs
        exact .same rfl (Or.inl rfl)
      · split at hs <;> cases hs <;> exact .same rfl (Or.inl rfl)
  | attachLoad c timerId =>
      simp only [exec] at hs
      split_ifs at hs <;> cases hs <;> exact .same rfl (Or.inl rfl)
  | attachStore c timerId | responseUnknown c | responseLate c =>
      cases hs
      exact .same rfl (Or.inl rfl)
  | failAllTake code message =>
      simp only [exec] at hs
      split at hs <;> cases hs <;> exact .same rfl (Or.inl rfl)
  | failAllNext rest total code message =>
      simp only [exec] at hs
      split at hs <;> cases hs
      exact .same rfl (Or.inl rfl)

omit [DecidableEq τ] in
theorem lives_update {j : UInt32} {life : CellLife τ}
    (h : s'.lives = Function.update s.lives j life) (i : UInt32) :
    s'.lives i = if i = j then life else s.lives i := by
  rw [h, Function.update_apply]

omit [DecidableEq τ] in
/-- Only `AllocateSlot` adds an allocation, for its own arguments. -/
theorem LifeStep.pop_of_gen {pc : Pc} (hl : LifeStep t pc s s')
    (hne : (s'.lives i).gen ≠ (s.lives i).gen) :
    ∃ args, pc = .alloc args .popFreeSlot
      ∧ s'.lives i = (s.lives i).pop t args := by
  have hsame : ∀ {j : UInt32} {life : CellLife τ},
      s'.lives = Function.update s.lives j life →
      life.gen = (s.lives j).gen → False := by
    intro j life h hgen
    rw [lives_update h i] at hne
    split at hne
    · next hij => exact hne (by rw [hij]; exact hgen)
    · exact hne rfl
  cases hl with
  | same h => exact absurd (by rw [h]) hne
  | pop args hpc h =>
      refine ⟨args, hpc, ?_⟩
      rw [lives_update h i] at hne ⊢
      split
      · next hij => rw [hij]
      · next hij =>
        rw [if_neg hij] at hne
        exact absurd rfl hne
  | arm _ _ _ _ h | seize _ _ _ _ _ h | record _ _ _ _ _ h
  | release _ _ _ _ h | discard _ _ h | dispatch _ _ _ _ _ h =>
      exact (hsame h rfl).elim

omit [DecidableEq τ] in
/-- Only a discarding winner discards, and its own allocation. -/
theorem LifeStep.discards {pc : Pc} {g : Nat} (hl : LifeStep t pc s s')
    (hold : (s.lives i).fate g ≠ .discarded)
    (hnew : (s'.lives i).fate g = .discarded) :
    ∃ w, pc = .hold w (.pushFreeSlot none) ∧ i = getSlotId w.cid
      ∧ g = (s.lives i).gen := by
  have hpage : ∀ {j : UInt32} {life : CellLife τ} {h : Nat} {f : Fate τ},
      s'.lives = Function.update s.lives j (life.setFate h f) →
      life.fate = (s.lives j).fate → f = .discarded ∧ i = j ∧ g = h := by
    intro j life h f heq hfate
    rw [lives_update heq i] at hnew
    split at hnew
    · next hij =>
      rw [CellLife.setFate_fate] at hnew
      split at hnew
      · next hg => exact ⟨hnew, hij, hg⟩
      · rw [hfate, ← hij] at hnew
        exact absurd hnew hold
    · exact absurd hnew hold
  cases hl with
  | same h =>
      rw [h] at hnew
      exact absurd hnew hold
  | pop args hpc h =>
      rw [lives_update h i] at hnew
      split at hnew
      · next hij =>
        rw [CellLife.pop_fate, ← hij] at hnew
        split at hnew
        · cases hnew
        · exact absurd hnew hold
      · exact absurd hnew hold
  | discard w hpc h =>
      obtain ⟨-, hij, hg⟩ := hpage h rfl
      exact ⟨w, hpc, hij, by rw [hg, hij]⟩
  | arm _ _ _ _ h | seize _ _ _ _ _ h | record _ _ _ _ _ h | release _ _ _ _ h
  | dispatch _ _ _ _ _ h =>
      cases (hpage h rfl).1

end Lives

/-- Every dispatched continuation was scheduled. -/
def Delivered (s : State τ) : Prop :=
  ∀ i g, (s.lives i).fate g = .dispatched →
    ((s.lives i).argsOf g).task ≠ none → (s.lives i).dispatches g = 1

section Delivered

variable {s s' : State τ} {t : τ}

omit [DecidableEq τ] in
/-- A page turned to anything but `dispatched`. -/
theorem Delivered.setFate {j : UInt32} {life : CellLife τ} {h : Nat}
    {f : Fate τ} (hd : Delivered s)
    (heq : s'.lives = Function.update s.lives j (life.setFate h f))
    (hf : f ≠ .dispatched) (hfate : life.fate = (s.lives j).fate)
    (hargs : life.argsOf = (s.lives j).argsOf)
    (hdis : life.dispatches = (s.lives j).dispatches) : Delivered s' := by
  intro i g hg htask
  rw [lives_update heq i] at hg htask ⊢
  split at hg
  · next hij =>
    subst hij
    rw [CellLife.setFate_fate] at hg
    rw [if_pos rfl] at htask ⊢
    split at hg
    · exact absurd hg hf
    · rw [CellLife.setFate_dispatches, hdis]
      rw [CellLife.setFate_argsOf, hargs] at htask
      exact hd i g (hfate ▸ hg) htask
  · next hij =>
    rw [if_neg hij] at htask ⊢
    exact hd i g hg htask

omit [DecidableEq τ] in
theorem LifeStep.delivered {cfg : TableConfig} (hi : Inv cfg s) {pc : Pc}
    (hok : ThreadOk s.view t (.running pc)) (hl : LifeStep t pc s s')
    (hd : Delivered s) : Delivered s' := by
  cases hl with
  | same h =>
      intro i g
      rw [h]
      exact hd i g
  | pop args hpc h =>
      intro i g hg htask
      rw [lives_update h i] at hg htask ⊢
      split at hg
      · next hij =>
        subst hij
        rw [CellLife.pop_fate] at hg
        rw [if_pos rfl] at htask ⊢
        split at hg
        · cases hg
        · next hne =>
          rw [CellLife.pop_argsOf, if_neg hne] at htask
          exact hd _ g hg htask
      · next hij =>
        rw [if_neg hij] at htask ⊢
        exact hd i g hg htask
  | arm _ _ _ _ h | seize _ _ _ _ _ h | record _ _ _ _ _ h | release _ _ _ _ h
  | discard _ _ h =>
      exact hd.setFate h nofun rfl rfl rfl
  | dispatch w item n hpc hn h =>
      subst hpc
      have hok : DispatchOk s.view t w item := hok
      have hzero : (s.lives (getSlotId w.cid)).dispatches w.gen = 0 := by
        have hle := (hi.cells (getSlotId w.cid)).dispatches w.gen
        rw [hok.fate] at hle
        exact Nat.le_zero.mp hle
      intro i g hg htask
      rw [lives_update h i] at hg htask ⊢
      split at hg
      · next hij =>
        subst hij
        rw [if_pos rfl] at htask ⊢
        rw [CellLife.setFate_dispatches, CellLife.dispatch_dispatches]
        by_cases hgw : g = w.gen
        · subst hgw
          have htask' : item.task ≠ none := by
            rw [hok.item.task]
            exact htask
          rw [if_pos rfl, hzero, hn htask']
        · rw [CellLife.setFate_fate, if_neg hgw] at hg
          rw [if_neg hgw]
          exact hd _ g hg htask
      · next hij =>
        rw [if_neg hij] at htask ⊢
        exact hd i g hg htask

end Delivered

/-- Whoever won a cell is still at it, and whoever gave one back is about
to dispatch. -/
structure Attended (s : State τ) : Prop where
  holding : ∀ i g t b, (s.lives i).fate g = .holding t b →
    ∃ w p, s.threads t = .running (.hold w p) ∧ getSlotId w.cid = i
      ∧ w.gen = g
  released : ∀ i g t, (s.lives i).fate g = .released t →
    ∃ w d, s.threads t = .running (.dispatch w d) ∧ getSlotId w.cid = i
      ∧ w.gen = g

section Attended

variable {s s' : State τ} {t : τ}

omit [DecidableEq τ] in
/-- One page of one cell's story is turned. -/
theorem fate_page {j : UInt32} {life : CellLife τ} {h : Nat} {f : Fate τ}
    (heq : s'.lives = Function.update s.lives j (life.setFate h f))
    (hfate : life.fate = (s.lives j).fate) (i : UInt32) (g : Nat) :
    (s'.lives i).fate g
      = if i = j ∧ g = h then f else (s.lives i).fate g := by
  rw [lives_update heq i]
  by_cases hij : i = j
  · subst hij
    rw [if_pos rfl, CellLife.setFate_fate, hfate]
    simp
  · rw [if_neg hij, if_neg fun h => hij h.1]

omit [DecidableEq τ] in
/-- Every step leaves the winners at their cells. -/
theorem LifeStep.attended {pc : Pc} (hok : ThreadOk s.view t (.running pc))
    (hpc : s.threads t = .running pc)
    (hothers : ∀ u, u ≠ t → s'.threads u = s.threads u)
    (hl : LifeStep t pc s s') (h : Attended s) : Attended s' := by
  -- what an unchanged fate asks of the stepping thread
  have hhold : ∀ i g u b, (s.lives i).fate g = .holding u b →
      (∀ w p, pc = .hold w p → getSlotId w.cid = i → w.gen = g →
        ∃ q, s'.threads t = .running (.hold w q)) →
      ∃ w p, s'.threads u = .running (.hold w p) ∧ getSlotId w.cid = i
        ∧ w.gen = g := by
    intro i g u b hf hself
    obtain ⟨w, p, hth, hi, hg⟩ := h.holding i g u b hf
    by_cases hu : u = t
    · subst hu
      have heq : pc = .hold w p := Thread.running.inj (hpc.symm.trans hth)
      obtain ⟨q, hq⟩ := hself w p heq hi hg
      exact ⟨w, q, hq, hi, hg⟩
    · exact ⟨w, p, (hothers u hu).trans hth, hi, hg⟩
  have hreleased : ∀ i g u, (s.lives i).fate g = .released u →
      (∀ w d, pc = .dispatch w d → getSlotId w.cid = i → w.gen = g →
        False) →
      ∃ w d, s'.threads u = .running (.dispatch w d) ∧ getSlotId w.cid = i
        ∧ w.gen = g := by
    intro i g u hf hself
    obtain ⟨w, d, hth, hi, hg⟩ := h.released i g u hf
    by_cases hu : u = t
    · subst hu
      have heq : pc = .dispatch w d := Thread.running.inj (hpc.symm.trans hth)
      exact (hself w d heq hi hg).elim
    · exact ⟨w, d, (hothers u hu).trans hth, hi, hg⟩
  -- a page of a cell the stepping thread does not hold is turned
  have hpage : ∀ {j : UInt32} {life : CellLife τ} {g₀ : Nat} {f : Fate τ},
      s'.lives = Function.update s.lives j (life.setFate g₀ f) →
      life.fate = (s.lives j).fate →
      (∀ u b, f = .holding u b → ∃ w p, s'.threads u = .running (.hold w p)
        ∧ getSlotId w.cid = j ∧ w.gen = g₀) →
      (∀ u, f = .released u → ∃ w d, s'.threads u = .running (.dispatch w d)
        ∧ getSlotId w.cid = j ∧ w.gen = g₀) →
      (∀ w p, pc = .hold w p → getSlotId w.cid = j ∧ w.gen = g₀) →
      (∀ w d, pc = .dispatch w d → getSlotId w.cid = j ∧ w.gen = g₀) →
      Attended s' := by
    intro j life g₀ f heq hfate hnewH hnewR hselfH hselfR
    refine ⟨fun i g u b hf => ?_, fun i g u hf => ?_⟩
    · rw [fate_page heq hfate] at hf
      split at hf
      · next hij =>
        obtain ⟨rfl, rfl⟩ := hij
        exact hnewH u b hf
      · next hij =>
        refine hhold i g u b hf fun w p hw hi hg => ?_
        obtain ⟨hj, hg₀⟩ := hselfH w p hw
        exact absurd ⟨hi.symm.trans hj, hg.symm.trans hg₀⟩ hij
    · rw [fate_page heq hfate] at hf
      split at hf
      · next hij =>
        obtain ⟨rfl, rfl⟩ := hij
        exact hnewR u hf
      · next hij =>
        refine hreleased i g u hf fun w d hw hi hg => ?_
        obtain ⟨hj, hg₀⟩ := hselfR w d hw
        exact absurd ⟨hi.symm.trans hj, hg.symm.trans hg₀⟩ hij
  have houtH : pc.outside = true → ∀ w p, pc ≠ .hold w p := by
    rintro hout w p rfl
    cases hout
  have houtR : pc.outside = true → ∀ w d, pc ≠ .dispatch w d := by
    rintro hout w d rfl
    cases hout
  cases hl with
  | same hlives hcase =>
      refine ⟨fun i g u b hf => ?_, fun i g u hf => ?_⟩
      · rw [hlives] at hf
        refine hhold i g u b hf fun w p hw _ _ => ?_
        rcases hcase with hout | ⟨w', p', q, hw', hq⟩
        · exact absurd hw (houtH hout w p)
        · cases hw.symm.trans hw'
          exact ⟨q, hq⟩
      · rw [hlives] at hf
        refine hreleased i g u hf fun w d hw _ _ => ?_
        rcases hcase with hout | ⟨w', p', q, hw', -⟩
        · exact houtR hout w d hw
        · cases hw.symm.trans hw'
  | pop args hpc' hlives =>
      subst hpc'
      have hfate : ∀ i g, (s'.lives i).fate g = (s.lives i).fate g
          ∨ (s'.lives i).fate g = .allocating t := by
        intro i g
        rw [lives_update hlives i]
        split
        · next hij =>
          rw [CellLife.pop_fate, hij]
          split
          · exact Or.inr rfl
          · exact Or.inl rfl
        · exact Or.inl rfl
      refine ⟨fun i g u b hf => ?_, fun i g u hf => ?_⟩
      · rcases hfate i g with heq | heq <;> rw [heq] at hf
        · exact hhold i g u b hf fun w p hw => absurd hw (houtH rfl w p)
        · cases hf
      · rcases hfate i g with heq | heq <;> rw [heq] at hf
        · exact hreleased i g u hf fun w d hw => absurd hw (houtR rfl w d)
        · cases hf
  | arm args slot version hpc' hlives =>
      subst hpc'
      exact hpage hlives rfl nofun nofun
        (fun w p hw => absurd hw (houtH rfl w p))
        (fun w d hw => absurd hw (houtR rfl w d))
  | seize c after p hout hth hlives =>
      refine hpage hlives rfl ?_ nofun
        (fun w p hw => absurd hw (houtH hout w p))
        (fun w d hw => absurd hw (houtR hout w d))
      intro u b hf
      cases hf
      exact ⟨_, p, hth, rfl, rfl⟩
  | record w code item hpc' hth hlives =>
      subst hpc'
      have hgen : w.gen = (s.lives (getSlotId w.cid)).gen := HoldOk.gen hok
      refine hpage hlives rfl ?_ nofun ?_ nofun
      · intro u b hf
        cases hf
        exact ⟨w, _, hth, rfl, hgen⟩
      · intro w' p' hw
        cases hw
        exact ⟨rfl, hgen⟩
  | release w item hpc' hth hlives =>
      subst hpc'
      have hgen : w.gen = (s.lives (getSlotId w.cid)).gen := HoldOk.gen hok
      refine hpage hlives rfl nofun ?_ ?_ nofun
      · intro u hf
        cases hf
        exact ⟨w, item, hth, rfl, hgen⟩
      · intro w' p' hw
        cases hw
        exact ⟨rfl, hgen⟩
  | discard w hpc' hlives =>
      subst hpc'
      have hgen : w.gen = (s.lives (getSlotId w.cid)).gen := HoldOk.gen hok
      refine hpage hlives rfl nofun nofun ?_ nofun
      intro w' p' hw
      cases hw
      exact ⟨rfl, hgen⟩
  | dispatch w item n hpc' hn hlives =>
      subst hpc'
      refine hpage hlives rfl nofun nofun ?_ ?_
      · intro w' p' hw
        cases hw
      · intro w' d' hw
        cases hw
        exact ⟨rfl, rfl⟩

end Attended

-- == jobs

/-- What a thread is in the table for. -/
inductive Job where
  | allocate (args : CallArgs)
  | publish (c : UInt64)
  | discard (c : UInt64)
  | attach (c : UInt64)
  | resolve
deriving DecidableEq

def Op.job : Op → Job
  | .allocateSlot args _ => .allocate args
  | .publishSlot c => .publish c
  | .discardArmingSlot c => .discard c
  | .attachDeadlineTimer c _ => .attach c
  | .completeResponseSlot _ _ | .timeoutSlot _ _ | .cancelSlot _ _
  | .failSlot _ _ _ | .failAllActiveSlots _ _ => .resolve

/-- Whose winner a thread is. -/
def After.job (c : UInt64) : After → Job
  | .publish _ => .publish c
  | .discard => .discard c
  | .complete | .resolve | .failAll _ _ _ _ => .resolve

/-- The job of a program point. -/
def Pc.job : Pc → Job
  | .alloc args _ => .allocate args
  | .publish c _ => .publish c
  | .discard c => .discard c
  | .attachLoad c _ | .attachStore c _ => .attach c
  | .responseUnknown _ | .responseCas _ _ | .responseLate _
  | .resolvePending _ _ | .transition _ _ _ | .failAllTake _ _
  | .failAllNext _ _ _ _ => .resolve
  | .hold w _ | .dispatch w _ => w.after.job w.cid

/-- A result fits a job. A flag fits three. -/
def Result.fits : Result → Job → Prop
  | .allocated args _, j => j = .allocate args
  | .published c _, j => j = .publish c
  | .flag _, .discard _ | .flag _, .attach _ | .flag _, .resolve => True
  | .flag _, .allocate _ | .flag _, .publish _ => False
  | .response _, j | .count _, j => j = .resolve

/-- The thread is at job `j`, or back from it. -/
def Thread.Doing (j : Job) : Thread → Prop
  | .idle => False
  | .running pc => pc.job = j
  | .returned r => r.fits j

theorem enter_doing (cfg : TableConfig) (op : Op) :
    (enter cfg op).Doing op.job := by
  cases op with
  | failAllActiveSlots code message => rfl
  | _ =>
      simp only [enter, resolveTerminal]
      split_ifs <;> first | rfl | trivial

/-- The winner is a discarding sender. -/
def HoldPc.discarding : HoldPc → Bool
  | .discardTimer | .discardClear => true
  | .responseClear _ | .responseApply _ | .responseCount _
  | .failureClear _ | .failureApply _ | .readTask _ | .takeNotify _ _
  | .recordCompletion _ _ | .unregister _ | .cancelTimer _ => false
  | .clearFields item | .clearTimer item | .storeFree item
  | .releaseLiveSlot item | .subInFlight item | .pushFreeSlot item =>
      item.isNone

/-- A winner discards if and only if it came from `DiscardArmingSlot`. -/
def Thread.Shaped : Thread → Prop
  | .running (.hold w p) => p.discarding = true ↔ w.after = .discard
  | .running (.dispatch w _) => w.after ≠ .discard
  | _ => True

theorem enter_shaped (cfg : TableConfig) (op : Op) :
    (enter cfg op).Shaped := by
  cases op with
  | failAllActiveSlots code message => trivial
  | _ =>
      simp only [enter, resolveTerminal]
      split_ifs <;> trivial

/-- Where a step of `pc` leads its thread: it stays at its job, or is back
from it, and keeps its shape. -/
structure Leads (pc : Pc) (th : Thread) : Prop where
  doing : th.Doing pc.job
  shaped : (Thread.running pc).Shaped → th.Shaped

section Leads

variable {s s' : State τ} {t : τ} {pc : Pc}

theorem Leads.goto {pc' : Pc} (hjob : pc'.job = pc.job)
    (hout : pc'.outside = true) : Leads pc ((s.goto t pc').threads t) := by
  rw [goto_thread]
  refine ⟨hjob, fun _ => ?_⟩
  cases pc' with
  | hold w p | dispatch w d => cases hout
  | _ => trivial

theorem Leads.ret {r : Result} (h : r.fits pc.job) :
    Leads pc ((s.ret t r).threads t) := by
  rw [ret_thread]
  exact ⟨h, fun _ => trivial⟩

theorem Leads.win {c : UInt64} {after : After} {p : HoldPc}
    (hjob : after.job c = pc.job)
    (h : p.discarding = true ↔ after = .discard) :
    Leads pc ((s.win t c after p).threads t) := by
  obtain ⟨g, hg⟩ := win_thread s t c after p
  rw [hg]
  exact ⟨hjob, fun _ => h⟩

theorem Leads.won {w : Winner} (hjob : w.after.job w.cid = pc.job) :
    Leads pc ((s.setThread t (w.after.won w.cid)).threads t) := by
  rw [setThread_thread]
  generalize w.after = a at hjob ⊢
  refine ⟨?_, fun _ => ?_⟩
  · rw [← hjob]
    cases a <;> first | rfl | trivial
  · cases a <;> trivial

theorem publishLost_leads (c : UInt64) (q : PublishPc) (w : Lifecycle) :
    Leads (.publish c q) ((publishLost t c w s).threads t) := by
  unfold publishLost
  split
  · split
    · exact .goto rfl rfl
    · exact .ret rfl
  · exact .ret rfl

theorem execAlloc_leads {args : CallArgs} {p : AllocPc} :
    Leads (.alloc args p) ((execAlloc t args p s).threads t) := by
  cases p with
  | casActive limit current =>
      simp only [execAlloc]
      split_ifs
      · exact .goto rfl rfl
      · exact .goto rfl rfl
      · exact .ret rfl
  | popFreeSlot =>
      simp only [execAlloc]
      split <;> exact .goto rfl rfl
  | undoActive | addInFlight => exact .ret rfl
  | loadActive | loadVersion | storeFields | resetTimer | storeArming =>
      exact .goto rfl rfl

theorem execPublish_leads {c : UInt64} {p : PublishPc} :
    Leads (.publish c p) ((execPublish t c p s).threads t) := by
  cases p with
  | unregisterPublishedSlot observed => exact publishLost_leads ..
  | registerPublishedSlot | publish =>
      simp only [execPublish]
      split <;> exact .goto rfl rfl
  | failArming code message =>
      simp only [execPublish]
      split
      · exact .win rfl ⟨by rintro ⟨⟩, by rintro ⟨⟩⟩
      · exact publishLost_leads ..
  | takeConnectionFailure =>
      simp only [execPublish]
      split
      · exact .ret rfl
      · exact .goto rfl rfl
  | failInFlight code message | deliverPending st r =>
      simp only [execPublish]
      split
      · exact .win rfl ⟨by rintro ⟨⟩, by rintro ⟨⟩⟩
      · exact .ret rfl

theorem execHold_leads {cfg : TableConfig} {w : Winner} {p : HoldPc} :
    Leads (.hold w p) ((execHold cfg t w p s).threads t) := by
  have hgo : ∀ (s₁ : State τ) (q : HoldPc), q.discarding = p.discarding →
      Leads (.hold w p) ((s₁.goto t (.hold w q)).threads t) := by
    intro s₁ q hq
    rw [goto_thread]
    refine ⟨rfl, fun h => ?_⟩
    show q.discarding = true ↔ w.after = .discard
    rw [hq]
    exact h
  cases p with
  | takeNotify code item =>
      simp only [execHold]
      split <;> exact hgo _ _ rfl
  | pushFreeSlot item =>
      cases item with
      | some d =>
          simp only [execHold]
          rw [goto_thread]
          exact ⟨rfl, fun h hafter => absurd (h.mpr hafter) (by rintro ⟨⟩)⟩
      | none => exact .won rfl
  | _ => exact hgo _ _ rfl

theorem exec_leads {cfg : TableConfig}
    (hok : ThreadOk s.view t (.running pc))
    (hs : exec cfg t pc s = some s') : Leads pc (s'.threads t) := by
  cases pc with
  | alloc args p => cases hs; exact execAlloc_leads
  | publish c p => cases hs; exact execPublish_leads
  | hold w p => cases hs; exact execHold_leads
  | dispatch w d =>
      unfold exec execDispatch at hs
      simp only at hs
      split_ifs at hs <;> cases hs <;> exact .won rfl
  | discard c =>
      simp only [exec] at hs
      split at hs <;> cases hs
      · exact .win rfl ⟨fun _ => rfl, fun _ => rfl⟩
      · exact .ret trivial
  | attachLoad c timerId =>
      simp only [exec] at hs
      split_ifs at hs <;> cases hs
      · exact .ret trivial
      · exact .ret trivial
      · exact .goto rfl rfl
  | attachStore c timerId =>
      cases hs
      exact .ret trivial
  | responseCas c r =>
      simp only [exec] at hs
      split at hs <;> cases hs
      · exact .win rfl ⟨by rintro ⟨⟩, by rintro ⟨⟩⟩
      · exact .goto rfl rfl
  | responseUnknown c | responseLate c =>
      cases hs
      exact .ret rfl
  | resolvePending c r =>
      simp only [exec] at hs
      split at hs
      · cases hs
        exact .goto rfl rfl
      · split at hs <;> cases hs
        · exact .ret trivial
        · exact .goto rfl rfl
  | transition c r after =>
      simp only [exec] at hs
      split at hs <;> cases hs
      · cases after with
        | resolve | failAll => exact .win rfl ⟨by rintro ⟨⟩, by rintro ⟨⟩⟩
        | publish | complete | discard => exact hok.elim
      · rw [setThread_thread]
        cases after with
        | resolve | failAll =>
            exact ⟨by first | rfl | trivial, fun _ => trivial⟩
        | publish | complete | discard => exact hok.elim
  | failAllTake code message =>
      simp only [exec] at hs
      split at hs <;> cases hs
      · exact .ret rfl
      · exact .goto rfl rfl
  | failAllNext rest total code message =>
      simp only [exec] at hs
      split at hs <;> cases hs
      exact .ret rfl

/-- A thread stays at its job until it returns from it. -/
theorem exec_doing {cfg : TableConfig}
    (hok : ThreadOk s.view t (.running pc))
    (hs : exec cfg t pc s = some s') : (s'.threads t).Doing pc.job :=
  (exec_leads hok hs).doing

/-- Every step keeps its thread in shape. -/
theorem exec_shaped {cfg : TableConfig}
    (hok : ThreadOk s.view t (.running pc))
    (hshape : (Thread.running pc).Shaped)
    (hs : exec cfg t pc s = some s') : (s'.threads t).Shaped :=
  (exec_leads hok hs).shaped hshape

end Leads

-- == logs

/-- What the executor was given and what the metrics were told are what
became of the allocations. -/
structure Logged (s : State τ) : Prop where
  scheduled : ∀ i g,
    s.scheduled.countP (fun e => e.slot = i ∧ e.gen = g)
      = (s.lives i).dispatches g
  completed : ∀ i g,
    s.completed.countP (fun e => e.slot = i ∧ e.gen = g)
      = (s.lives i).records g
  tasks : ∀ e ∈ s.scheduled, 0 < e.gen ∧ e.gen ≤ (s.lives e.slot).gen
    ∧ e.item.task = ((s.lives e.slot).argsOf e.gen).task
  records : ∀ e ∈ s.completed, 0 < e.gen ∧ e.gen ≤ (s.lives e.slot).gen
    ∧ e.task = ((s.lives e.slot).argsOf e.gen).task

/-- A step that logs nothing. -/
structure SameLog (s s' : State τ) : Prop where
  scheduled : s'.scheduled = s.scheduled
  completed : s'.completed = s.completed
  dispatches : ∀ i, (s'.lives i).dispatches = (s.lives i).dispatches
  records : ∀ i, (s'.lives i).records = (s.lives i).records

section Logs

variable {s s' s₁ : State τ} {t : τ}

omit [DecidableEq τ] in
/-- Allocations are only added and keep their arguments. -/
theorem logged_mono {e : UInt32} {g : Nat} {task : Option Nat}
    (hsim : ∀ i, CellStep t (s.view i) (s'.view i))
    (h : 0 < g ∧ g ≤ (s.lives e).gen
      ∧ task = ((s.lives e).argsOf g).task) :
    0 < g ∧ g ≤ (s'.lives e).gen
      ∧ task = ((s'.lives e).argsOf g).task := by
  obtain ⟨hpos, hle, htask⟩ := h
  have hargs : (s'.lives e).argsOf g = (s.lives e).argsOf g :=
    (hsim e).argsOf_eq hle
  exact ⟨hpos, hle.trans (hsim e).gen_le, by rw [hargs]; exact htask⟩

omit [DecidableEq τ] in
theorem SameLog.logged (hl : SameLog s s') (h : Logged s)
    (hsim : ∀ i, CellStep t (s.view i) (s'.view i)) : Logged s' where
  scheduled i g := by
    rw [hl.scheduled, hl.dispatches]
    exact h.scheduled i g
  completed i g := by
    rw [hl.completed, hl.records]
    exact h.completed i g
  tasks e he := logged_mono hsim (h.tasks e (hl.scheduled ▸ he))
  records e he := logged_mono hsim (h.records e (hl.completed ▸ he))

theorem SameLog.setThread {th : Thread} (h : SameLog s s₁) :
    SameLog s (s₁.setThread t th) :=
  ⟨h.scheduled, h.completed, h.dispatches, h.records⟩

omit [DecidableEq τ] in
theorem SameLog.setLife {i : UInt32} {life : CellLife τ}
    (h : SameLog s s₁) (hd : life.dispatches = (s.lives i).dispatches)
    (hr : life.records = (s.lives i).records) :
    SameLog s (s₁.setLife i life) where
  scheduled := h.scheduled
  completed := h.completed
  dispatches j := by
    unfold State.setLife
    simp only [Function.update_apply]
    split
    · next hj => rw [hj]; exact hd
    · exact h.dispatches j
  records j := by
    unfold State.setLife
    simp only [Function.update_apply]
    split
    · next hj => rw [hj]; exact hr
    · exact h.records j

omit [DecidableEq τ] in
theorem SameLog.refl (s : State τ) : SameLog s s :=
  ⟨rfl, rfl, fun _ => rfl, fun _ => rfl⟩

omit [DecidableEq τ] in
theorem SameLog.turn (h : SameLog s s₁) (i : UInt32) (f : Fate τ) :
    SameLog s (s₁.turn i f) :=
  h.setLife (h.dispatches i) (h.records i)

theorem sameLog_win {c : UInt64} {w : Lifecycle} {after : After}
    {p : HoldPc} {i : UInt32} :
    SameLog s ((s.storeLifecycle i w).win t c after p) := by
  have hstore : SameLog s (s.storeLifecycle i w) :=
    ⟨rfl, rfl, fun _ => rfl, fun _ => rfl⟩
  exact (hstore.turn _ _).setThread

omit [DecidableEq τ] in
theorem sameLog_onController (i : UInt32) (f : Controller → Controller) :
    SameLog s (s.onController i f) := by
  unfold State.onController
  split <;> exact ⟨rfl, rfl, fun _ => rfl, fun _ => rfl⟩

omit [DecidableEq τ] in
theorem sameLog_cancelDeadlineTimer (i : UInt32) :
    SameLog s (s.cancelDeadlineTimer i) := by
  unfold State.cancelDeadlineTimer
  simp only
  split <;> exact ⟨rfl, rfl, fun _ => rfl, fun _ => rfl⟩

theorem sameLog_execAlloc {args : CallArgs} {p : AllocPc} :
    SameLog s (execAlloc t args p s) := by
  cases p with
  | casActive limit current =>
      simp only [execAlloc]
      split_ifs <;> exact ⟨rfl, rfl, fun _ => rfl, fun _ => rfl⟩
  | popFreeSlot =>
      simp only [execAlloc]
      split
      · exact (SameLog.refl s).setThread
      · refine SameLog.setThread (SameLog.setLife (s := s) ?_ rfl rfl)
        exact ⟨rfl, rfl, fun _ => rfl, fun _ => rfl⟩
  | storeArming slot version =>
      refine (SameLog.turn ?_ _ _).setThread
      exact ⟨rfl, rfl, fun _ => rfl, fun _ => rfl⟩
  | _ => exact ⟨rfl, rfl, fun _ => rfl, fun _ => rfl⟩

theorem sameLog_execPublish {c : UInt64} {p : PublishPc} :
    SameLog s (execPublish t c p s) := by
  have hlost : ∀ (s₁ : State τ) (w : Lifecycle), SameLog s s₁ →
      SameLog s (publishLost t c w s₁) := by
    intro s₁ w h
    unfold publishLost
    split
    · split <;> exact h.setThread
    · exact h.setThread
  cases p with
  | unregisterPublishedSlot observed =>
      exact hlost _ _ ⟨rfl, rfl, fun _ => rfl, fun _ => rfl⟩
  | failArming code message =>
      simp only [execPublish]
      split
      · exact sameLog_win
      · exact hlost _ _ (.refl s)
  | failInFlight code message | deliverPending st r =>
      simp only [execPublish]
      split
      · exact sameLog_win
      · exact (SameLog.refl s).setThread
  | registerPublishedSlot | publish | takeConnectionFailure =>
      simp only [execPublish]
      split <;> exact ⟨rfl, rfl, fun _ => rfl, fun _ => rfl⟩

/-- A winner logs its completion and nothing else. -/
theorem sameLog_execHold {cfg : TableConfig} {w : Winner} {p : HoldPc}
    (hp : ∀ code item, p ≠ .recordCompletion code item) :
    SameLog s (execHold cfg t w p s) := by
  cases p with
  | recordCompletion code item => exact absurd rfl (hp code item)
  | discardTimer | cancelTimer item =>
      exact (sameLog_cancelDeadlineTimer _).setThread
  | discardClear | responseClear r | failureClear r | failureApply r =>
      exact (sameLog_onController ..).setThread
  | takeNotify code item =>
      simp only [execHold]
      split <;> exact ⟨rfl, rfl, fun _ => rfl, fun _ => rfl⟩
  | pushFreeSlot item =>
      cases item with
      | some d | none =>
          refine (SameLog.turn ?_ _ _).setThread
          exact ⟨rfl, rfl, fun _ => rfl, fun _ => rfl⟩
  | _ =>
      exact ⟨rfl, rfl, fun _ => rfl, fun _ => rfl⟩

/-- A winner's `RecordCompletion`. -/
theorem logged_record {cfg cfg' : TableConfig} (hi : Inv cfg' s)
    {w : Winner} {code : Int32} {item : Dispatch}
    (hok : HoldOk s.view t w (.recordCompletion code item))
    (hsim : ∀ i, CellStep t (s.view i)
      ((execHold cfg t w (.recordCompletion code item) s).view i))
    (h : Logged s) :
    Logged (execHold cfg t w (.recordCompletion code item) s) := by
  have hgen : w.gen = (s.lives (getSlotId w.cid)).gen := hok.gen
  have hpos : 0 < w.gen := by
    rw [hgen]
    exact ((hi.cells _).holding t _ hok.now).1
  have hlife : ∀ i, (execHold cfg t w (.recordCompletion code item) s).lives i
      = if i = getSlotId w.cid then
          ((s.lives i).record (s.lives i).gen).setFate (s.lives i).gen
            (.holding t true)
        else s.lives i := by
    intro i
    have hv := congrArg CellView.life (view_setLife (τ := τ)
      { s with
        metrics := s.metrics.recordCompletion code
        completed := s.completed
          ++ [⟨item.task, code, getSlotId w.cid, w.gen⟩] } i
      (getSlotId w.cid)
      (((s.lives (getSlotId w.cid)).record
        (s.lives (getSlotId w.cid)).gen).setFate
          (s.lives (getSlotId w.cid)).gen (.holding t true)))
    refine hv.trans ?_
    split
    · next heq => rw [heq]
    · rfl
  refine ⟨?_, ?_, ?_, ?_⟩
  · intro i g
    rw [hlife]
    refine (h.scheduled i g).trans ?_
    split <;> rfl
  · intro i g
    show (s.completed ++ [_]).countP _ = _
    rw [List.countP_append, h.completed i g, hlife, List.countP_singleton]
    by_cases hi' : i = getSlotId w.cid
    · subst hi'
      rw [if_pos rfl]
      show _ = ((s.lives _).record _).records g
      rw [CellLife.record_records, ← hgen]
      by_cases hg : g = w.gen
      · subst hg
        simp
      · have hg' : ¬ w.gen = g := fun heq => hg heq.symm
        simp [hg, hg']
    · have hne : ¬ getSlotId w.cid = i := fun heq => hi' heq.symm
      rw [if_neg hi']
      simp [hne]
  · exact fun e he => logged_mono hsim (h.tasks e he)
  · intro e he
    rcases List.mem_append.mp he with he | he
    · exact logged_mono hsim (h.records e he)
    · obtain rfl := List.mem_singleton.mp he
      refine logged_mono hsim ⟨hpos, Nat.le_of_eq hgen, ?_⟩
      exact (hok.item item rfl).task

/-- A winner's dispatch. -/
theorem logged_dispatch {w : Winner} {d : Dispatch}
    (hok : DispatchOk s.view t w d)
    (hsim : ∀ i, CellStep t (s.view i) (s'.view i))
    (hs : execDispatch t w d s = some s') (h : Logged s) : Logged s' := by
  -- `n` is how often the continuation was scheduled
  obtain ⟨n, hsched, hcomp, hlife⟩ : ∃ n,
      s'.scheduled
        = s.scheduled ++ List.replicate n ⟨d, getSlotId w.cid, w.gen⟩
      ∧ s'.completed = s.completed
      ∧ s'.lives = Function.update s.lives (getSlotId w.cid)
        (((s.lives (getSlotId w.cid)).dispatch w.gen n).setFate w.gen
          .dispatched) := by
    unfold execDispatch at hs
    simp only at hs
    split_ifs at hs <;> cases hs
    · exact ⟨0, (List.append_nil _).symm, rfl, rfl⟩
    · exact ⟨1, rfl, rfl, rfl⟩
  have hcell : ∀ i, s'.lives i = if i = getSlotId w.cid then
      ((s.lives i).dispatch w.gen n).setFate w.gen .dispatched
      else s.lives i := by
    intro i
    rw [hlife, Function.update_apply]
    split
    · next heq => rw [heq]
    · rfl
  refine ⟨?_, ?_, ?_, ?_⟩
  · intro i g
    rw [hsched, List.countP_append, h.scheduled i g, hcell,
      List.countP_replicate]
    by_cases hi : i = getSlotId w.cid
    · subst hi
      rw [if_pos rfl]
      show _ = ((s.lives _).dispatch _ _).dispatches g
      rw [CellLife.dispatch_dispatches]
      by_cases hg : g = w.gen
      · subst hg
        simp
      · have hg' : ¬ w.gen = g := fun heq => hg heq.symm
        simp [hg, hg']
    · have hne : ¬ getSlotId w.cid = i := fun heq => hi heq.symm
      rw [if_neg hi]
      simp [hne]
  · intro i g
    rw [hcomp, h.completed i g, hcell]
    split <;> rfl
  · intro e he
    rw [hsched] at he
    rcases List.mem_append.mp he with he | he
    · exact logged_mono hsim (h.tasks e he)
    · obtain rfl := List.eq_of_mem_replicate he
      exact logged_mono hsim ⟨hok.pos, hok.gen, hok.item.task⟩
  · exact fun e he => logged_mono hsim (h.records e (hcomp ▸ he))

/-- Only completing and dispatching is logged. -/
theorem sameLog_exec {cfg : TableConfig} {pc : Pc}
    (hrec : ∀ w code item, pc ≠ .hold w (.recordCompletion code item))
    (hdis : ∀ w d, pc ≠ .dispatch w d)
    (hs : exec cfg t pc s = some s') : SameLog s s' := by
  cases pc with
  | alloc args p =>
      cases hs
      exact sameLog_execAlloc
  | publish c p =>
      cases hs
      exact sameLog_execPublish
  | dispatch w d => exact absurd rfl (hdis w d)
  | hold w p =>
      cases hs
      exact sameLog_execHold fun code item heq =>
        hrec w code item (congrArg _ heq)
  | discard c | responseCas c r | transition c r after =>
      simp only [exec] at hs
      split at hs <;> cases hs
      · exact sameLog_win
      · exact (SameLog.refl s).setThread
  | resolvePending c r =>
      simp only [exec] at hs
      split at hs
      · cases hs
        exact (SameLog.refl s).setThread
      · split at hs <;> cases hs <;>
          exact ⟨rfl, rfl, fun _ => rfl, fun _ => rfl⟩
  | attachLoad c timerId =>
      simp only [exec] at hs
      split_ifs at hs <;> cases hs <;> exact (SameLog.refl s).setThread
  | attachStore c timerId | responseUnknown c | responseLate c =>
      cases hs
      exact ⟨rfl, rfl, fun _ => rfl, fun _ => rfl⟩
  | failAllTake code message =>
      simp only [exec] at hs
      split at hs <;> cases hs <;>
        exact ⟨rfl, rfl, fun _ => rfl, fun _ => rfl⟩
  | failAllNext rest total code message =>
      simp only [exec] at hs
      split at hs <;> cases hs
      exact (SameLog.refl s).setThread

/-- One step of a running operation. -/
theorem logged_exec {cfg cfg' : TableConfig} (hi : Inv cfg' s) {pc : Pc}
    (hok : ThreadOk s.view t (.running pc))
    (hs : exec cfg t pc s = some s') (h : Logged s) : Logged s' := by
  have hsim := (effect_exec hi hok hs).sim
  by_cases hrec : ∃ w code item, pc = .hold w (.recordCompletion code item)
  · obtain ⟨w, code, item, rfl⟩ := hrec
    cases hs
    exact logged_record hi hok hsim h
  by_cases hdis : ∃ w d, pc = .dispatch w d
  · obtain ⟨w, d, rfl⟩ := hdis
    exact logged_dispatch hok hsim hs h
  · refine (sameLog_exec ?_ ?_ hs).logged h hsim
    · exact fun w code item heq => hrec ⟨w, code, item, heq⟩
    · exact fun w d heq => hdis ⟨w, d, heq⟩

/-- What is recorded stays recorded. -/
theorem completed_exec {cfg : TableConfig} {pc : Pc}
    (hs : exec cfg t pc s = some s') {e : Completion}
    (he : e ∈ s.completed) : e ∈ s'.completed := by
  by_cases hrec : ∃ w code item, pc = .hold w (.recordCompletion code item)
  · obtain ⟨w, code, item, rfl⟩ := hrec
    cases hs
    exact List.mem_append_left _ he
  by_cases hdis : ∃ w d, pc = .dispatch w d
  · obtain ⟨w, d, rfl⟩ := hdis
    simp only [exec, execDispatch] at hs
    split_ifs at hs <;> cases hs <;> exact he
  · rw [(sameLog_exec (fun w code item heq => hrec ⟨w, code, item, heq⟩)
      (fun w d heq => hdis ⟨w, d, heq⟩) hs).completed]
    exact he

end Logs

-- == every run

/-- What the users of the table rely on besides its own invariant. -/
structure Tracked (s : State τ) : Prop where
  logged : Logged s
  delivered : Delivered s
  attended : Attended s
  shaped : ∀ t, (s.threads t).Shaped

omit [DecidableEq τ] in
theorem tracked_start {cfg : TableConfig} {s : State τ}
    (hs : Start cfg s) : Tracked s := by
  obtain ⟨heap, rfl⟩ := hs
  exact ⟨⟨fun _ _ => rfl, fun _ _ => rfl, nofun, nofun⟩, nofun,
    ⟨nofun, nofun⟩, fun _ => trivial⟩

/-- A step that only moves a thread. -/
theorem Tracked.setThread {s s₁ : State τ} {t : τ} {th : Thread}
    (h : Tracked s) (hlives : s₁.lives = s.lives)
    (hsched : s₁.scheduled = s.scheduled)
    (hcomp : s₁.completed = s.completed) (hthreads : s₁.threads = s.threads)
    (hth : th.Shaped)
    (hout : ∀ pc, s.threads t = .running pc → pc.outside = true) :
    Tracked (s₁.setThread t th) where
  logged := by
    obtain ⟨h1, h2, h3, h4⟩ := h.logged
    refine ⟨?_, ?_, ?_, ?_⟩ <;>
      simp only [State.setThread, hlives, hsched, hcomp] <;> assumption
  delivered := by
    have hd := h.delivered
    unfold Delivered at hd ⊢
    simp only [State.setThread, hlives]
    exact hd
  attended := by
    have helse : ∀ u, u ≠ t →
        (s₁.setThread t th).threads u = s.threads u := by
      intro u hu
      simp only [State.setThread, hthreads, Function.update_of_ne hu]
    have hself : ∀ {u pc}, s.threads u = .running pc →
        pc.outside = false → u ≠ t := by
      rintro u pc hpc hin rfl
      rw [hout pc hpc] at hin
      cases hin
    refine ⟨fun i g u b hf => ?_, fun i g u hf => ?_⟩
    · simp only [State.setThread, hlives] at hf
      obtain ⟨w, p, hp, hi, hg⟩ := h.attended.holding i g u b hf
      exact ⟨w, p, (helse u (hself hp rfl)).trans hp, hi, hg⟩
    · simp only [State.setThread, hlives] at hf
      obtain ⟨w, d, hd, hi, hg⟩ := h.attended.released i g u hf
      exact ⟨w, d, (helse u (hself hd rfl)).trans hd, hi, hg⟩
  shaped u := by
    by_cases hu : u = t
    · rw [hu, setThread_thread]
      exact hth
    · simp only [State.setThread, hthreads, Function.update_of_ne hu]
      exact h.shaped u

omit [DecidableEq τ] in
/-- A thread that only moves holds no cell, and asks for nothing odd. -/
theorem Moves.outside_shaped {cfg : TableConfig} {t : τ} {a : Action τ}
    {th th' : Thread} (h : Moves cfg t a th th') :
    (∀ pc, th = .running pc → pc.outside = true) ∧ th'.Shaped := by
  cases h with
  | call op => exact ⟨nofun, enter_shaped cfg op⟩
  | collect r => exact ⟨nofun, trivial⟩
  | retry | fail c | skip c =>
      refine ⟨fun pc hpc => ?_, trivial⟩
      cases hpc
      rfl

/-- Every action keeps the records straight. -/
theorem tracked_apply {cfg : TableConfig} {s s' : State τ} {a : Action τ}
    (hi : Inv cfg s) (h : Tracked s) (hs : apply cfg a s = some s') :
    Tracked s' := by
  cases apply_acts hs with
  | @step t pc _ hpc hs =>
      have hok : ThreadOk s.view t (.running pc) := hpc ▸ hi.threads t
      have hothers := (effect_exec hi hok hs).others
      refine ⟨logged_exec hi hok hs h.logged,
        (exec_lives hs).delivered hi hok h.delivered,
        (exec_lives hs).attended hok hpc hothers h.attended, fun u => ?_⟩
      by_cases hu : u = t
      · rw [hu]
        exact exec_shaped hok (hpc ▸ h.shaped t) hs
      · rw [hothers u hu]
        exact h.shaped u
  | move published hm =>
      exact h.setThread rfl rfl rfl rfl hm.outside_shaped.2
        hm.outside_shaped.1
  | client heap metrics =>
      exact ⟨⟨h.logged.1, h.logged.2, h.logged.3, h.logged.4⟩, h.delivered,
        ⟨h.attended.1, h.attended.2⟩, h.shaped⟩

/-- The records are straight in every run. -/
theorem tracked_reachable {cfg : TableConfig} {s : State τ}
    (h : (machine cfg).Reachable s) : Tracked s :=
  h.invariant (I := Tracked) (fun _ hs => tracked_start hs)
    fun _ _ _ hr ht _ hs => tracked_apply (inv_reachable hr) ht hs

end AntRpc.Slot
