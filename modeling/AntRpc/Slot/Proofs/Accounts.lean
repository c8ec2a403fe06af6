/-
Where every cell of the table is, and what its two counters count.

# Places

A cell is in the free list, with an `AllocateSlot` that took it off and
has not armed it, live, or with a finalizer that has not put it back:
always in exactly one of the four (`place_iff`). The free list's
invariant says which cells it links, and the story of a cell
(Slot/Cell.lean) says who has the others.

# Counters

`active_slots_` runs ahead of the live cells by one for every thread that
raised it for a cell that is not live: an allocation after its
compare-and-swap, a finalizer before its `ReleaseLiveSlot`. The gauge is
raised after the cell is armed and lowered after `active_slots_`, so it
lags behind on one side and runs ahead on the other. Each is the number
of live cells plus what the threads hold (`Accounts`), and each step
changes both sides alike (`books_exec`).
-/
import AntRpc.Lib.Ledger
import AntRpc.Slot.Proofs.Stakes

namespace AntRpc.Slot

open Lib

variable {τ : Type}

-- == live cells

/-- The word says that its cell is live, as a truth value. -/
def Lifecycle.live (w : Lifecycle) : Bool := decide w.state.Live

/-- How many cells are live. -/
noncomputable def State.liveCells (s : State τ) : Int :=
  census (fun w => bit w.live) s.word

theorem sparse_word (s : State τ) : Sparse (fun w => bit w.live) s.word :=
  Set.toFinite _

theorem liveCells_eq (s : State τ) :
    s.liveCells = ({i | (s.word i).state.Live}.ncard : Int) := by
  rw [State.liveCells, census_bit (sparse_word s)]
  simp only [Lifecycle.live, decide_eq_true_eq]

theorem liveCells_congr {s s' : State τ} (h : s'.word = s.word) :
    s'.liveCells = s.liveCells := by
  rw [State.liveCells, h, State.liveCells]

/-- A store to a word counts the new state instead of the old one. -/
theorem liveCells_store (s : State τ) (i : UInt32) (w : Lifecycle) :
    (s.storeLifecycle i w).liveCells
      = s.liveCells - bit (s.word i).live + bit w.live := by
  have hword : (s.storeLifecycle i w).word = Function.update s.word i w := by
    funext j
    have h := congrArg CellView.word (view_storeLifecycle s j i w)
    rw [Function.update_apply]
    split
    · next hj =>
      rw [if_pos hj] at h
      exact h
    · next hj =>
      rw [if_neg hj] at h
      exact h
  rw [State.liveCells, hword, census_update (sparse_word s),
    State.liveCells]

theorem word_storeTimer_eq (s : State τ) (i : UInt32) (timerId : UInt64) :
    (s.storeTimer i timerId).word = s.word :=
  funext fun j => congrArg CellView.word (view_storeTimer s j i timerId)

theorem bit_live {w : Lifecycle} (h : w.state.Live) : bit w.live = 1 := by
  rw [Lifecycle.live, decide_eq_true h, bit_true]

theorem bit_dead {w : Lifecycle} (h : ¬ w.state.Live) : bit w.live = 0 := by
  rw [Lifecycle.live, decide_eq_false h, bit_false]

-- == what threads hold

/-- The thread raised `active_slots_` for a cell that is not live. -/
def Thread.reserves : Thread → Bool
  | .running (.alloc _ p) =>
      match p with
      | .popFreeSlot | .undoActive | .loadVersion _ | .storeFields _ _
      | .resetTimer _ _ | .storeArming _ _ => true
      | .loadActive _ | .casActive _ _ | .addInFlight _ _ => false
  | .running (.hold _ p) =>
      match p with
      | .subInFlight _ | .pushFreeSlot _ => false
      | _ => true
  | _ => false

/-- By how much the gauge runs ahead of the live cells on account of the
thread. -/
def Thread.gauges : Thread → Int
  | .running (.alloc _ (.addInFlight _ _)) => -1
  | .running (.hold _ p) =>
      match p with
      | .pushFreeSlot _ => 0
      | _ => 1
  | _ => 0

/-- The limit a running allocation still compares with. -/
def Thread.limit : Thread → Nat
  | .running (.alloc _ (.loadActive limit))
  | .running (.alloc _ (.casActive limit _)) => limit
  | _ => 0

/-- What a step of `t` does to the two counters is what it does to the
live cells and to the share of `t`. Only the limit of `t` lets
`active_slots_` grow. -/
structure Books (t : τ) (s s' : State τ) : Prop where
  active : (s'.table.activeSlots : Int) - s'.liveCells
      - bit (s'.threads t).reserves
    = s.table.activeSlots - s.liveCells - bit (s.threads t).reserves
  gauge : s'.metrics.activeInFlight - s'.liveCells
      - (s'.threads t).gauges
    = s.metrics.activeInFlight - s.liveCells - (s.threads t).gauges
  bound : s'.table.activeSlots
    ≤ max s.table.activeSlots (s.threads t).limit

section Books

variable [DecidableEq τ] {s s₁ s' : State τ} {t : τ} {th : Thread}

/-- The live cells, the counters and the thread change by amounts that
agree, and `active_slots_` does not grow. -/
theorem Books.of (dl da dg : Int) (hda : da ≤ 0)
    (hlive : s₁.liveCells = s.liveCells + dl)
    (hactive : (s₁.table.activeSlots : Int) = s.table.activeSlots + da)
    (hgauge : s₁.metrics.activeInFlight = s.metrics.activeInFlight + dg)
    (hres : bit th.reserves = bit (s.threads t).reserves + da - dl)
    (hgau : th.gauges = (s.threads t).gauges + dg - dl) :
    Books t s (s₁.setThread t th) := by
  have hself : (s₁.setThread t th).threads t = th := setThread_thread ..
  refine ⟨?_, ?_, ?_⟩
  · rw [hself, hres]
    show (s₁.table.activeSlots : Int) - s₁.liveCells - _ = _
    omega
  · rw [hself, hgau]
    show s₁.metrics.activeInFlight - s₁.liveCells - _ = _
    omega
  · show s₁.table.activeSlots ≤ _
    omega

/-- The thread moves, the counters stay. -/
theorem Books.move (hword : s₁.word = s.word)
    (hactive : s₁.table.activeSlots = s.table.activeSlots)
    (hgauge : s₁.metrics.activeInFlight = s.metrics.activeInFlight)
    (hres : th.reserves = (s.threads t).reserves)
    (hgau : th.gauges = (s.threads t).gauges) :
    Books t s (s₁.setThread t th) :=
  .of 0 0 0 le_rfl ((liveCells_congr hword).trans (by omega))
    (by rw [hactive]; omega) (by rw [hgauge]; omega)
    (by rw [hres]; omega) (by rw [hgau]; omega)

/-- A compare-and-swap from a live state to a live state. -/
theorem Books.shift {i : UInt32} {v v' : UInt32} {st st' : SlotState}
    (hw : s.word i = ⟨v, st⟩) (hst : st.Live) (hst' : st'.Live)
    (hres : th.reserves = (s.threads t).reserves)
    (hgau : th.gauges = (s.threads t).gauges) :
    Books t s ((s.storeLifecycle i ⟨v', st'⟩).setThread t th) := by
  refine .of 0 0 0 le_rfl ?_ (Int.add_zero _).symm
    (Int.add_zero _).symm (by rw [hres]; omega) (by rw [hgau]; omega)
  rw [liveCells_store, hw, bit_live hst, bit_live hst']
  omega

/-- A winner takes over what the live cell stood for. -/
theorem Books.win {c : UInt64} {v v' : UInt32} {st st' : SlotState}
    {after : After} {p : HoldPc} (hw : s.word (getSlotId c) = ⟨v, st⟩)
    (hst : st.Live) (hst' : ¬ st'.Live)
    (hres : (s.threads t).reserves = false)
    (hgau : (s.threads t).gauges = 0)
    (hp : ∀ w : Winner, (Thread.running (.hold w p)).reserves = true
      ∧ (Thread.running (.hold w p)).gauges = 1) :
    Books t s ((s.storeLifecycle (getSlotId c) ⟨v', st'⟩).win t c after
      p) := by
  refine .of (-1) 0 0 le_rfl ?_ (Int.add_zero _).symm
    (Int.add_zero _).symm ?_ ?_
  · refine (liveCells_store s (getSlotId c) ⟨v', st'⟩).trans ?_
    rw [hw, bit_live hst, bit_dead hst']
    omega
  · rw [hres, (hp _).1]
    rfl
  · rw [hgau, (hp _).2]
    rfl

/-- `AllocateSlot`. A raised counter can be lowered again. -/
theorem books_execAlloc {cfg : TableConfig} (hi : Inv cfg s)
    {args : CallArgs} {p : AllocPc}
    (hpc : s.threads t = .running (.alloc args p))
    (hok : AllocOk s.view t args p)
    (hpos : (Thread.running (.alloc args p)).reserves = true →
      0 < s.table.activeSlots) :
    Books t s (execAlloc t args p s) := by
  have hmove : ∀ {s₁ : State τ} {th : Thread}, s₁.word = s.word →
      s₁.table.activeSlots = s.table.activeSlots →
      s₁.metrics.activeInFlight = s.metrics.activeInFlight →
      th.reserves = (Thread.running (.alloc args p)).reserves →
      th.gauges = (Thread.running (.alloc args p)).gauges →
      Books t s (s₁.setThread t th) :=
    fun hw ha hg hr hu => .move hw ha hg (hpc ▸ hr) (hpc ▸ hu)
  cases p with
  | loadActive limit => exact hmove rfl rfl rfl rfl rfl
  | casActive limit current =>
      simp only [execAlloc]
      split
      · split
        · next hlt hcur =>
          -- the one step that raises the counter
          have hself : ((s.setActiveSlots (current + 1)).goto t
              (.alloc args .popFreeSlot)).threads t
              = .running (.alloc args .popFreeSlot) := goto_thread ..
          refine ⟨?_, ?_, ?_⟩
          · rw [hself, hpc, hcur]
            show ((current + 1 : Nat) : Int) - s.liveCells - 1
              = current - s.liveCells - 0
            omega
          · rw [hself, hpc]
            rfl
          · rw [hpc]
            exact le_max_of_le_right hlt
        · exact hmove rfl rfl rfl rfl rfl
      · exact hmove rfl rfl rfl rfl rfl
  | popFreeSlot =>
      simp only [execAlloc]
      split <;> exact hmove rfl rfl rfl rfl rfl
  | undoActive =>
      refine .of 0 (-1) 0 (by decide) (Int.add_zero _).symm ?_ (Int.add_zero _).symm
        (hpc ▸ rfl) (hpc ▸ rfl)
      have := hpos rfl
      show ((s.table.activeSlots - 1 : Nat) : Int) = _
      omega
  | loadVersion i => exact hmove rfl rfl rfl rfl rfl
  | storeFields i ver =>
      exact hmove (funext fun j => word_storeArgs s i j args) rfl rfl rfl rfl
  | resetTimer i ver =>
      exact hmove (word_storeTimer_eq s i 0) rfl rfl rfl rfl
  | storeArming i ver =>
      have hfree := ((hi.cells i).allocating t hok.1.now).2.1
      refine .of 1 0 0 le_rfl ?_ (Int.add_zero _).symm (Int.add_zero _).symm
        (hpc ▸ rfl) (hpc ▸ rfl)
      refine (liveCells_store s i ⟨ver, .arming⟩).trans ?_
      have hdead : ¬ (s.word i).state.Live := by
        rw [show (s.word i).state = .free from hfree]
        exact SlotState.free_not_live
      rw [bit_dead hdead, bit_live (w := ⟨ver, .arming⟩) (Or.inl rfl)]
      omega
  | addInFlight i ver =>
      exact .of 0 0 1 le_rfl (Int.add_zero _).symm (Int.add_zero _).symm rfl
        (hpc ▸ rfl) (hpc ▸ rfl)

theorem failed_not_live : ¬ SlotState.Live .failed := by decide

/-- The tail of a publisher that lost its compare-and-swap. -/
theorem books_publishLost {c : UInt64} {observed : Lifecycle}
    (hword : s₁.word = s.word)
    (hactive : s₁.table.activeSlots = s.table.activeSlots)
    (hgauge : s₁.metrics.activeInFlight = s.metrics.activeInFlight)
    (hres : (s.threads t).reserves = false)
    (hgau : (s.threads t).gauges = 0) :
    Books t s (publishLost t c observed s₁) := by
  unfold publishLost
  split
  · split <;> exact .move hword hactive hgauge hres.symm hgau.symm
  · exact .move hword hactive hgauge hres.symm hgau.symm

/-- `PublishSlot`. -/
theorem books_execPublish {c : UInt64} {p : PublishPc} (hp : p.Sound)
    (hpc : s.threads t = .running (.publish c p)) :
    Books t s (execPublish t c p s) := by
  have hres : (s.threads t).reserves = false := by rw [hpc]; rfl
  have hgau : (s.threads t).gauges = 0 := by rw [hpc]; rfl
  cases p with
  | registerPublishedSlot | takeConnectionFailure =>
      simp only [execPublish]
      split <;> exact .move rfl rfl rfl hres.symm hgau.symm
  | failArming code message =>
      simp only [execPublish]
      split
      · next h =>
        exact .win h (by decide) failed_not_live hres hgau
          fun _ => ⟨rfl, rfl⟩
      · exact books_publishLost rfl rfl rfl hres hgau
  | publish =>
      simp only [execPublish]
      split
      · next h => exact .shift h (by decide) (by decide) hres.symm hgau.symm
      · exact .move rfl rfl rfl hres.symm hgau.symm
  | failInFlight code message =>
      simp only [execPublish]
      split
      · next h =>
        exact .win h (by decide) failed_not_live hres hgau
          fun _ => ⟨rfl, rfl⟩
      · exact .move rfl rfl rfl hres.symm hgau.symm
  | unregisterPublishedSlot observed =>
      exact books_publishLost rfl rfl rfl hres hgau
  | deliverPending st r =>
      simp only [execPublish]
      split
      · next h =>
        have hlive : st.Live := by
          rcases pendingResolution_live hp with rfl | rfl <;> decide
        exact .win h hlive (terminalState_not_live r) hres hgau
          fun _ => ⟨rfl, rfl⟩
      · exact .move rfl rfl rfl hres.symm hgau.symm

/-- What follows a finalizer or a lost transition holds nothing. -/
theorem after_holds_nothing (a : After) (c : UInt64) :
    (a.won c).reserves = false ∧ (a.won c).gauges = 0
      ∧ a.lost.reserves = false ∧ a.lost.gauges = 0 := by
  cases a <;> exact ⟨rfl, rfl, rfl, rfl⟩

/-- A winner, while it holds its cell. -/
theorem books_execHold {cfg cfg' : TableConfig} (hi : Inv cfg' s)
    {w : Winner} {p : HoldPc}
    (hpc : s.threads t = .running (.hold w p)) (hok : HoldOk s.view t w p)
    (hpos : (Thread.running (.hold w p)).reserves = true →
      0 < s.table.activeSlots) :
    Books t s (execHold cfg t w p s) := by
  have hmove : ∀ {s₁ : State τ} {th : Thread}, s₁.word = s.word →
      s₁.table.activeSlots = s.table.activeSlots →
      s₁.metrics.activeInFlight = s.metrics.activeInFlight →
      th.reserves = (Thread.running (.hold w p)).reserves →
      th.gauges = (Thread.running (.hold w p)).gauges →
      Books t s (s₁.setThread t th) :=
    fun hw ha hg hr hu => .move hw ha hg (hpc ▸ hr) (hpc ▸ hu)
  -- steps that leave table and metrics alone, or touch what is not counted
  have htimer : ∀ {th : Thread},
      th.reserves = (Thread.running (.hold w p)).reserves →
      th.gauges = (Thread.running (.hold w p)).gauges →
      Books t s ((s.cancelDeadlineTimer (getSlotId w.cid)).setThread t th) := by
    intro th hr hu
    have hword := funext fun j => congrArg CellView.word
      (view_cancelDeadlineTimer s j (getSlotId w.cid))
    refine hmove hword ?_ ?_ hr hu <;>
      (unfold State.cancelDeadlineTimer; simp only; split <;> rfl)
  have hctl : ∀ {th : Thread} (f : Controller → Controller),
      th.reserves = (Thread.running (.hold w p)).reserves →
      th.gauges = (Thread.running (.hold w p)).gauges →
      Books t s ((s.onController (getSlotId w.cid) f).setThread t th) := by
    intro th f hr hu
    have hword := funext fun j => congrArg CellView.word
      (view_onController s j (getSlotId w.cid) f)
    refine hmove hword ?_ ?_ hr hu <;>
      (unfold State.onController; split <;> rfl)
  cases p with
  | discardTimer | cancelTimer item => exact htimer rfl rfl
  | discardClear | responseClear r | failureClear r | failureApply r =>
      exact hctl _ rfl rfl
  | responseApply r | responseCount code | readTask code
  | unregister item => exact hmove rfl rfl rfl rfl rfl
  | takeNotify code item =>
      simp only [execHold]
      split <;> exact hmove rfl rfl rfl rfl rfl
  | recordCompletion code item =>
      refine hmove rfl rfl ?_ rfl rfl
      show (s.metrics.recordCompletion code).activeInFlight = _
      unfold ClientMetrics.recordCompletion
      simp only
      split_ifs <;> rfl
  | clearFields item =>
      exact hmove (funext fun j => word_storeArgs s _ j _) rfl rfl rfl rfl
  | clearTimer item =>
      exact hmove (word_storeTimer_eq s _ _) rfl rfl rfl rfl
  | storeFree item =>
      have hdead := ((hi.cells _).holding t _ hok.now).2.1
      refine .of 0 0 0 le_rfl ?_ (Int.add_zero _).symm (Int.add_zero _).symm
        (hpc ▸ rfl) (hpc ▸ rfl)
      rw [liveCells_store, bit_dead (w := s.word _) hdead,
        bit_dead (w := ⟨_, .free⟩) SlotState.free_not_live]
      omega
  | releaseLiveSlot item =>
      refine .of 0 (-1) 0 (by decide) (Int.add_zero _).symm ?_ (Int.add_zero _).symm
        (hpc ▸ rfl) (hpc ▸ rfl)
      have := hpos rfl
      show ((s.table.activeSlots - 1 : Nat) : Int) = _
      omega
  | subInFlight item =>
      exact .of 0 0 (-1) le_rfl (Int.add_zero _).symm (Int.add_zero _).symm rfl
        (hpc ▸ rfl) (hpc ▸ rfl)
  | pushFreeSlot item =>
      have hword : (s.setSlot (getSlotId w.cid)
          { s.table.slots (getSlotId w.cid) with
            nextFree := s.table.freeHead }).word = s.word := by
        funext j
        have hview : (s.setSlot (getSlotId w.cid)
            { s.table.slots (getSlotId w.cid) with
              nextFree := s.table.freeHead }).view j = s.view j :=
          view_setSlot_same s j _ rfl rfl
        exact congrArg CellView.word hview
      cases item with
      | some d => exact hmove hword rfl rfl rfl rfl
      | none =>
          obtain ⟨hr, hu, -⟩ := after_holds_nothing w.after w.cid
          exact hmove hword rfl rfl hr hu

/-- One step of a running operation. -/
theorem books_exec {cfg cfg' : TableConfig} (hi : Inv cfg' s) {pc : Pc}
    (hpc : s.threads t = .running pc)
    (hpos : (Thread.running pc).reserves = true → 0 < s.table.activeSlots)
    (hs : exec cfg t pc s = some s') : Books t s s' := by
  have hok : ThreadOk s.view t (.running pc) := hpc ▸ hi.threads t
  -- outside `AllocateSlot` and the finalizers a thread holds nothing
  have hmove : ∀ {s₁ : State τ} {th : Thread},
      (Thread.running pc).reserves = false →
      (Thread.running pc).gauges = 0 → s₁.word = s.word →
      s₁.table.activeSlots = s.table.activeSlots →
      s₁.metrics = s.metrics → th.reserves = false → th.gauges = 0 →
      Books t s (s₁.setThread t th) := by
    intro s₁ th hr hu hw ha hg hr' hu'
    refine .move hw ha (congrArg _ hg) ?_ ?_
    · rw [hpc, hr, hr']
    · rw [hpc, hu, hu']
  have hwin : ∀ {c : UInt64} {v : UInt32} {st st' : SlotState} {after : After}
      {p : HoldPc}, (Thread.running pc).reserves = false →
      (Thread.running pc).gauges = 0 →
      s.word (getSlotId c) = ⟨v, st⟩ → st.Live → ¬ st'.Live →
      (∀ w : Winner, (Thread.running (.hold w p)).reserves = true
        ∧ (Thread.running (.hold w p)).gauges = 1) →
      Books t s ((s.storeLifecycle (getSlotId c)
        ⟨getVersion c, st'⟩).win t c after p) :=
    fun hr hu hw hst hst' hp => .win hw hst hst' (hpc ▸ hr) (hpc ▸ hu) hp
  cases pc with
  | alloc args p =>
      cases hs
      exact books_execAlloc hi hpc hok hpos
  | publish c p =>
      cases hs
      exact books_execPublish hok hpc
  | discard c | responseCas c r =>
      simp only [exec] at hs
      split at hs <;> cases hs
      · next h =>
        exact hwin rfl rfl h (by decide) (by decide) fun _ => ⟨rfl, rfl⟩
      · exact hmove rfl rfl rfl rfl rfl rfl rfl
  | attachLoad c timerId | failAllTake code message =>
      simp only [exec] at hs
      split_ifs at hs <;> cases hs <;>
        exact hmove rfl rfl rfl rfl rfl rfl rfl
  | attachStore c timerId =>
      cases hs
      exact hmove rfl rfl (word_storeTimer_eq s _ _) rfl rfl rfl rfl
  | responseUnknown c | responseLate c =>
      cases hs
      exact hmove rfl rfl rfl rfl rfl rfl rfl
  | resolvePending c r =>
      simp only [exec] at hs
      split at hs
      · cases hs
        exact hmove rfl rfl rfl rfl rfl rfl rfl
      · next pending hpending =>
        split at hs <;> cases hs
        · next h =>
          refine .shift h (by decide) (pendingState_live hpending) ?_ ?_ <;>
            rw [hpc] <;> rfl
        · exact hmove rfl rfl rfl rfl rfl rfl rfl
  | transition c r after =>
      simp only [exec] at hs
      split at hs <;> cases hs
      · next h =>
        exact hwin rfl rfl h (by decide) (terminalState_not_live r)
          fun _ => ⟨rfl, rfl⟩
      · obtain ⟨-, -, hr, hu⟩ := after_holds_nothing after c
        exact hmove rfl rfl rfl rfl rfl hr hu
  | hold w p =>
      cases hs
      exact books_execHold hi hpc hok hpos
  | dispatch w item =>
      obtain ⟨hr, hu, -⟩ := after_holds_nothing w.after w.cid
      simp only [exec, execDispatch] at hs
      split_ifs at hs <;> cases hs <;>
        exact hmove rfl rfl rfl rfl rfl hr hu
  | failAllNext rest total code message =>
      simp only [exec] at hs
      split_ifs at hs
      cases hs
      exact hmove rfl rfl rfl rfl rfl rfl rfl

end Books

-- == accounts

/-- What the two counters count: the live cells and what the threads
hold. Finitely many threads are in the table. -/
structure Accounts (s : State τ) : Prop where
  finite : {t | s.threads t ≠ .idle}.Finite
  active : (s.table.activeSlots : Int) = s.liveCells
    + census (fun th => bit th.reserves) s.threads
  gauge : s.metrics.activeInFlight = s.liveCells
    + census Thread.gauges s.threads

section Accounts

variable {s s' : State τ} {t : τ}

theorem Accounts.sparse (h : Accounts s) {w : Thread → Int}
    (hidle : w .idle = 0) : Sparse w s.threads := by
  refine h.finite.subset fun t ht hne => ht ?_
  show w (s.threads t) = 0
  rw [hne]
  exact hidle

/-- A raised counter is not zero. -/
theorem Accounts.active_pos (h : Accounts s)
    (ht : (s.threads t).reserves = true) : 0 < s.table.activeSlots := by
  have hle := le_census (h.sparse (w := fun th => bit th.reserves) rfl)
    (fun _ => bit_nonneg _) t
  have hlive : 0 ≤ s.liveCells := census_nonneg fun _ => bit_nonneg _
  have := h.active
  simp only [ht, bit_true] at hle
  omega

variable [DecidableEq τ]

/-- A step with agreeing books keeps the accounts. -/
theorem Books.accounts (hb : Books t s s') (h : Accounts s)
    (hothers : ∀ u, u ≠ t → s'.threads u = s.threads u) : Accounts s' := by
  have hthreads : s'.threads
      = Function.update s.threads t (s'.threads t) := by
    funext u
    rw [Function.update_apply]
    split
    · next hu => rw [hu]
    · next hu => exact hothers u hu
  refine ⟨?_, ?_, ?_⟩
  · refine (h.finite.insert t).subset fun u hu => ?_
    rcases eq_or_ne u t with rfl | hne
    · exact Set.mem_insert u _
    · exact Set.mem_insert_of_mem t (by rwa [Set.mem_ofPred_eq,
        hothers u hne] at hu)
  · have := hb.active
    have := h.active
    rw [hthreads, census_update (h.sparse rfl)]
    omega
  · have := hb.gauge
    have := h.gauge
    rw [hthreads, census_update (h.sparse rfl)]
    omega

theorem enter_holds_nothing (cfg : TableConfig) (op : Op) :
    (enter cfg op).reserves = false ∧ (enter cfg op).gauges = 0 := by
  cases op with
  | failAllActiveSlots code message => exact ⟨rfl, rfl⟩
  | _ =>
      simp only [enter, resolveTerminal]
      split_ifs <;> exact ⟨rfl, rfl⟩

omit [DecidableEq τ] in
/-- A move outside the operations changes nobody's share. -/
theorem Moves.shares {cfg : TableConfig} {a : Action τ} {th th' : Thread}
    (h : Moves cfg t a th th') :
    th'.reserves = th.reserves ∧ th'.gauges = th.gauges := by
  cases h with
  | call op => exact enter_holds_nothing cfg op
  | retry | fail | skip | collect => exact ⟨rfl, rfl⟩

/-- The books of a thread's action agree. -/
theorem books_apply {cfg : TableConfig} {a : Action τ} (hi : Inv cfg s)
    (h : Accounts s) (ha : a.thread = some t)
    (hs : apply cfg a s = some s') : Books t s s' := by
  cases apply_acts hs with
  | step hpc hs =>
      cases ha
      exact books_exec hi hpc (fun hr => h.active_pos (hpc ▸ hr)) hs
  | move published hm =>
      cases Option.some.inj (hm.thread.symm.trans ha)
      exact .move rfl rfl rfl hm.shares.1 hm.shares.2
  | client heap metrics => cases ha

/-- Every action keeps the accounts. -/
theorem accounts_apply {cfg : TableConfig} {a : Action τ}
    (hi : Inv cfg s) (h : Accounts s) (hs : apply cfg a s = some s') :
    Accounts s' := by
  have he := effect_apply hi hs
  cases ha : a.thread with
  | some t =>
      rw [ha] at he
      exact (books_apply hi h ha hs).accounts h he.others
  | none =>
      cases a with
      | client heap metrics =>
          cases hs
          exact ⟨h.finite, h.active, h.gauge⟩
      | _ => cases ha

/-- The accounts are right in every run. -/
theorem accounts_reachable {cfg : TableConfig}
    (h : (machine cfg).Reachable s) : Accounts s := by
  refine h.invariant (I := Accounts) ?_
    fun _ _ _ hr ha _ hs => accounts_apply (inv_reachable hr) ha hs
  rintro s ⟨heap, rfl⟩
  have hlive : State.liveCells (τ := τ)
      { table := .init cfg, heap := heap } = 0 :=
    census_of_zero fun _ => rfl
  have hidle : ∀ w : Thread → Int, w .idle = 0 →
      census w (fun _ : τ => Thread.idle) = 0 :=
    fun w hw => census_of_zero fun _ => hw
  refine ⟨?_, ?_, ?_⟩
  · simp
  · rw [hlive, hidle _ rfl]
    rfl
  · rw [hlive, hidle _ rfl]
    rfl

end Accounts

-- == limits

/-- The limit a call of `AllocateSlot` is made with. -/
def Action.limit : Action τ → Nat
  | .invoke _ (.allocateSlot _ maxInFlight) => maxInFlight
  | _ => 0

/-- Neither the counter nor what it is still compared with exceeds
`m`. -/
structure Limited (m : Nat) (s : State τ) : Prop where
  active : s.table.activeSlots ≤ m
  threads : ∀ t, (s.threads t).limit ≤ m

section Limits

variable [DecidableEq τ] {s s' : State τ} {t : τ} {m : Nat}

omit [DecidableEq τ] in
/-- Only an allocation is at the job of allocating. -/
theorem Pc.alloc_of_job {pc : Pc} {args : CallArgs}
    (h : pc.job = .allocate args) : ∃ p, pc = .alloc args p := by
  cases pc with
  | alloc args' p =>
      cases h
      exact ⟨p, rfl⟩
  | hold w p | dispatch w item =>
      rw [Pc.job] at h
      cases hw : w.after <;> rw [hw] at h <;> cases h
  | _ => cases h

/-- Only an allocation has a limit. -/
theorem Thread.limit_eq_zero {th : Thread} {j : Job} (h : th.Doing j)
    (hj : ∀ args, j ≠ .allocate args) : th.limit = 0 := by
  cases th with
  | idle | returned r => rfl
  | running pc =>
      cases pc with
      | alloc args p => exact absurd h.symm (hj args)
      | _ => rfl

/-- A running operation never takes on a larger limit. -/
theorem limit_exec {cfg : TableConfig} {pc : Pc}
    (hok : ThreadOk s.view t (.running pc))
    (hs : exec cfg t pc s = some s') :
    (s'.threads t).limit ≤ (Thread.running pc).limit := by
  have hdoing := exec_doing hok hs
  cases pc with
  | alloc args p =>
      cases hs
      cases p with
      | loadActive limit => rw [execAlloc, goto_thread]; exact le_rfl
      | casActive limit current =>
          simp only [execAlloc]
          split_ifs
          · rw [goto_thread]
            exact Nat.zero_le _
          · rw [goto_thread]
            exact le_rfl
          · rw [ret_thread]
            exact Nat.zero_le _
      | popFreeSlot =>
          simp only [execAlloc]
          split <;> rw [goto_thread] <;> exact le_rfl
      | undoActive | addInFlight =>
          rw [execAlloc, ret_thread]
          exact le_rfl
      | loadVersion | storeFields | resetTimer | storeArming =>
          rw [execAlloc, goto_thread]
          exact le_rfl
  | _ =>
      refine (Thread.limit_eq_zero hdoing fun args hj => ?_).le
      obtain ⟨p, hp⟩ := Pc.alloc_of_job hj
      cases hp

/-- A step with agreeing books of a thread within the limit. -/
theorem Books.limited (hb : Books t s s') (h : Limited m s)
    (hothers : ∀ u, u ≠ t → s'.threads u = s.threads u)
    (hlimit : (s'.threads t).limit ≤ m) : Limited m s' where
  active := hb.bound.trans (max_le h.active (h.threads t))
  threads u := by
    by_cases hu : u = t
    · rw [hu]
      exact hlimit
    · rw [hothers u hu]
      exact h.threads u

/-- No action takes on a larger limit than it was called with, nor one
above the capacity. -/
theorem limit_apply {cfg : TableConfig} {a : Action τ} (hi : Inv cfg s)
    (ha : a.thread = some t) (hs : apply cfg a s = some s') :
    (s'.threads t).limit
      ≤ max (s.threads t).limit (min a.limit cfg.capacity) := by
  cases apply_acts hs with
  | step hpc hs =>
      cases ha
      rw [hpc]
      exact le_max_of_le_left (limit_exec (hpc ▸ hi.threads t) hs)
  | move published hm =>
      cases Option.some.inj (hm.thread.symm.trans ha)
      rw [setThread_thread]
      generalize s.threads t = before at hm ⊢
      cases hm with
      | call op =>
          refine le_max_of_le_right ?_
          cases op with
          | allocateSlot args maxInFlight =>
              simp only [enter]
              split
              · exact Nat.zero_le _
              · next hchecks =>
                exact le_min le_rfl (Nat.not_lt.mp fun hgt =>
                  hchecks (Or.inr (Or.inr hgt)))
          | _ =>
              refine (Thread.limit_eq_zero (enter_doing cfg _) ?_).le
              intro args hj
              cases hj
      | retry => exact le_max_of_le_left le_rfl
      | fail | skip | collect => exact Nat.zero_le _
  | client heap metrics => cases ha

/-- `active_slots_` stays within the limits it was compared with. -/
theorem limited_reach {cfg : TableConfig} {ok : State τ → Action τ → Prop}
    (hm : ∀ s a, ok s a → min a.limit cfg.capacity ≤ m)
    (h : (machine cfg).Reach ok s) : Limited m s := by
  refine h.invariant (I := Limited m) ?_ ?_
  · rintro s ⟨heap, rfl⟩
    exact ⟨Nat.zero_le m, fun _ => Nat.zero_le m⟩
  · intro s s' a hr hl hlimit hs
    have hreach := hr.weaken fun _ _ _ => trivial
    have hi := inv_reachable hreach
    have he := effect_apply hi hs
    cases ha : a.thread with
    | some t =>
        rw [ha] at he
        exact (books_apply hi (accounts_reachable hreach) ha hs).limited hl
          he.others ((limit_apply hi ha hs).trans
            (max_le (hl.threads t) (hm s a hlimit)))
    | none =>
        cases a with
        | client heap metrics =>
            cases hs
            exact ⟨hl.active, hl.threads⟩
        | _ => cases ha

end Limits

-- == places

/-- Where a cell can be. -/
inductive Place where
  | freeList
  | allocating
  | live
  | finalizing
deriving DecidableEq, Repr

/-- The cell an `AllocateSlot` took off the free list and has not
armed. -/
def AllocPc.taken : AllocPc → Option UInt32
  | .loadVersion i | .storeFields i _ | .resetTimer i _
  | .storeArming i _ => some i
  | .loadActive _ | .casActive _ _ | .popFreeSlot | .undoActive
  | .addInFlight _ _ => none

/-- Cell `i` is in the place. -/
def Place.Holds (s : State τ) (i : UInt32) : Place → Prop
  | .freeList =>
      ∃ l, Chain s.next invalidSlot s.table.freeHead l ∧ i ∈ l
  | .allocating =>
      ∃ t args p, s.threads t = .running (.alloc args p)
        ∧ p.taken = some i
  | .live => (s.word i).state.Live
  | .finalizing =>
      ∃ t w p, s.threads t = .running (.hold w p) ∧ getSlotId w.cid = i

/-- Cell `j` of the array is in the place. A cell is named by a 32-bit id
in the free list, in every correlation id and in every thread; one beyond
these ids keeps the word it was made with and is in none. -/
def Place.HoldsCell (s : State τ) (j : Nat) (place : Place) : Prop :=
  ∃ i : UInt32, i.toNat = j ∧ place.Holds s i

/-- Where the story of a cell says it is. -/
def Fate.place : Fate τ → Place
  | .fresh | .released _ | .dispatched | .discarded => .freeList
  | .allocating _ => .allocating
  | .live => .live
  | .holding _ _ => .finalizing

theorem Fate.place_freeList {f : Fate τ} :
    f.place = .freeList ↔ f.Closed := by
  cases f <;> simp [Fate.place, Fate.Closed]

/-- An allocating cell has its allocation at work. -/
def Allocating (s : State τ) : Prop :=
  ∀ i t, (s.view i).life.now = .allocating t →
    ∃ args p, s.threads t = .running (.alloc args p) ∧ p.taken = some i

section Places

variable {s s' : State τ} {t : τ}

/-- A cell is being allocated because it was, or because it was just
taken. -/
theorem CellStep.allocating_before {v v' : CellView τ} {u : τ}
    (hs : CellStep t v v') (h : v'.life.now = .allocating u) :
    v.life.now = .allocating u ∨ u = t ∧ v'.life.gen ≠ v.life.gen := by
  cases hs with
  | pop args _ =>
      rw [CellLife.pop_now] at h
      cases h
      exact Or.inr ⟨rfl, Nat.succ_ne_self _⟩
  | arm | seize | release | discard =>
      rw [CellLife.setFate_now] at h
      cases h
  | record =>
      rw [CellLife.setFate_now_eq, CellLife.record_gen, if_pos rfl] at h
      cases h
  | dispatch g n _ _ =>
      rw [CellLife.setFate_now_eq] at h
      split at h
      · cases h
      · exact Or.inl h
  | stay | write | shift | clear | storeFree => exact Or.inl h

variable [DecidableEq τ]

/-- An allocation goes on with the cell it took, until it arms it. -/
theorem execAlloc_taken {args : CallArgs} {p : AllocPc} {i : UInt32}
    (hp : p.taken = some i)
    (hnow : ((execAlloc t args p s).view i).life.now = .allocating t) :
    ∃ q, (execAlloc t args p s).threads t = .running (.alloc args q)
      ∧ q.taken = some i := by
  cases p with
  | loadVersion j | storeFields j ver | resetTimer j ver =>
      exact ⟨_, goto_thread .., hp⟩
  | storeArming j ver =>
      cases hp
      have hlive : ((execAlloc t args (.storeArming i ver) s).view
          i).life.now = .live := by
        rw [execAlloc, view_goto, State.turn, view_setLife, if_pos rfl]
        exact CellLife.setFate_now ..
      rw [hlive] at hnow
      cases hnow
  | _ => cases hp

/-- One step of a running operation. -/
theorem allocating_exec {cfg cfg' : TableConfig} (hi : Inv cfg' s) {pc : Pc}
    (hpc : s.threads t = .running pc) (hs : exec cfg t pc s = some s')
    (h : Allocating s) : Allocating s' := by
  have he := effect_exec hi (hpc ▸ hi.threads t) hs
  intro i u hnow
  rcases (he.sim i).allocating_before hnow with hbefore | ⟨rfl, hgen⟩
  · obtain ⟨args, p, hth, hp⟩ := h i u hbefore
    by_cases hu : u = t
    · subst hu
      cases Thread.running.inj (hpc.symm.trans hth)
      cases hs
      obtain ⟨q, hq, hslot⟩ := execAlloc_taken hp hnow
      exact ⟨args, q, hq, hslot⟩
    · exact ⟨args, p, (he.others u hu).trans hth, hp⟩
  · -- the cell was just taken off the free list
    obtain ⟨args, rfl, hlives⟩ := (exec_lives hs).pop_of_gen (i := i) hgen
    cases hs
    simp only [execAlloc] at hlives ⊢
    split
    · next hinv =>
      rw [if_pos hinv] at hlives
      have := congrArg CellLife.gen hlives
      simp [State.goto, State.setThread] at this
    · next hinv =>
      rw [if_neg hinv] at hlives
      refine ⟨args, _, goto_thread .., ?_⟩
      by_contra hne
      have hi' : i ≠ s.table.freeHead := fun heq => hne (heq ▸ rfl)
      have := congrArg CellLife.gen hlives
      simp [State.goto, State.setThread, State.setLife, hi'] at this

omit [DecidableEq τ] in
/-- A thread that holds a cell moves by steps only. -/
theorem Moves.not_taken {cfg : TableConfig} {a : Action τ} {th : Thread}
    {args : CallArgs} {p : AllocPc}
    (h : Moves cfg t a (.running (.alloc args p)) th) : p.taken = none := by
  cases h
  rfl

/-- An allocating cell has its allocation at work, in every run. -/
theorem allocating_reachable {cfg : TableConfig}
    (h : (machine cfg).Reachable s) : Allocating s := by
  refine h.invariant (I := Allocating) ?_ ?_
  · rintro s ⟨heap, rfl⟩ i t hnow
    cases hnow
  · intro s s' a hr ha _ hs
    cases apply_acts hs with
    | step hpc hs => exact allocating_exec (inv_reachable hr) hpc hs ha
    | @move t _ th published hm =>
        intro i u hnow
        obtain ⟨args, p, hth, hp⟩ := ha i u hnow
        have hu : u ≠ t := by
          rintro rfl
          rw [hth] at hm
          rw [hm.not_taken] at hp
          cases hp
        exact ⟨args, p, (Function.update_of_ne hu ..).trans hth, hp⟩
    | client heap metrics => exact ha

/-- A cell is exactly where its story says. -/
theorem place_iff {cfg : TableConfig} (h : (machine cfg).Reachable s)
    {i : UInt32} (hvalid : i ≠ invalidSlot) (hi : i.toNat < cfg.capacity)
    (place : Place) :
    place.Holds s i ↔ place = (s.view i).life.now.place := by
  have hinv := inv_reachable h
  obtain ⟨l, hl⟩ := hinv.freeList
  cases place with
  | freeList =>
      rw [eq_comm, Fate.place_freeList]
      refine ⟨?_, fun hcl => ⟨l, hl.chain, hl.complete i hvalid hi hcl⟩⟩
      rintro ⟨l', hchain, hmem⟩
      rw [← hl.chain.unique hchain] at hmem
      exact hl.closed i hmem
  | allocating =>
      refine ⟨?_, fun hp => ?_⟩
      · rintro ⟨t, args, p, hth, hp⟩
        have hok : ThreadOk s.view t (.running (.alloc args p)) :=
          hth ▸ hinv.threads t
        have hnow : (s.view i).life.now = .allocating t := by
          cases p with
          | loadVersion j =>
              cases hp
              exact Takes.now hok
          | storeFields j ver | resetTimer j ver | storeArming j ver =>
              cases hp
              exact hok.1.now
          | _ => cases hp
        rw [hnow]
        rfl
      · cases hnow : (s.view i).life.now with
        | allocating t =>
            obtain ⟨args, p, hth, htaken⟩ := allocating_reachable h i t hnow
            exact ⟨t, args, p, hth, htaken⟩
        | _ =>
            rw [hnow] at hp
            cases hp
  | live =>
      refine ⟨fun hlive => ?_, fun hp => ?_⟩
      · rw [(hinv.cells i).live_of_state hlive]
        rfl
      · cases hnow : (s.view i).life.now with
        | live => exact ((hinv.cells i).live hnow).2.1
        | _ =>
            rw [hnow] at hp
            cases hp
  | finalizing =>
      refine ⟨?_, fun hp => ?_⟩
      · rintro ⟨t, w, p, hth, rfl⟩
        have hok : ThreadOk s.view t (.running (.hold w p)) :=
          hth ▸ hinv.threads t
        rw [HoldOk.now hok]
        rfl
      · cases hnow : (s.view i).life.now with
        | holding t b =>
            obtain ⟨w, p, hth, hslot, -⟩ :=
              (tracked_reachable h).attended.holding i _ t b hnow
            exact ⟨t, w, p, hth, hslot⟩
        | _ =>
            rw [hnow] at hp
            cases hp

/-- What is in a place has an id that the free list can hold. -/
theorem Place.Holds.valid {cfg : TableConfig}
    (h : (machine cfg).Reachable s) {i : UInt32} {place : Place}
    (hp : place.Holds s i) : i ≠ invalidSlot := by
  have hinv := inv_reachable h
  suffices hgen : place = .freeList ∨ 0 < (s.view i).life.gen by
    rcases hgen with rfl | hgen
    · obtain ⟨l, hchain, hmem⟩ := hp
      exact hchain.ne_nil hmem
    · exact (hinv.popped i hgen).1
  cases place with
  | freeList => exact .inl rfl
  | allocating =>
      obtain ⟨t, args, p, hth, hp⟩ := hp
      have hok : ThreadOk s.view t (.running (.alloc args p)) :=
        hth ▸ hinv.threads t
      refine .inr ?_
      cases p with
      | loadVersion j =>
          cases hp
          exact ((hinv.cells i).allocating t (Takes.now hok)).1
      | storeFields j ver | resetTimer j ver | storeArming j ver =>
          cases hp
          exact ((hinv.cells i).allocating t hok.1.now).1
      | _ => cases hp
  | live =>
      have hcell := hinv.cells i
      exact .inr (hcell.live (hcell.live_of_state hp)).1
  | finalizing =>
      obtain ⟨t, w, p, hth, rfl⟩ := hp
      have hok : ThreadOk s.view t (.running (.hold w p)) :=
        hth ▸ hinv.threads t
      exact .inr ((hinv.cells _).holding t _ (HoldOk.now hok)).1

/-- A cell below `INVALID_SLOT` is in exactly one place, one from there on
in none. -/
theorem holdsCell_reachable {cfg : TableConfig}
    (h : (machine cfg).Reachable s) {j : Nat} (hj : j < cfg.capacity) :
    (j < invalidSlot.toNat → ∃! place : Place, place.HoldsCell s j)
      ∧ (invalidSlot.toNat ≤ j →
        ∀ place : Place, ¬ place.HoldsCell s j) := by
  have hmax : invalidSlot.toNat = 2 ^ 32 - 1 := rfl
  refine ⟨fun hlt => ?_, fun hle place hp => ?_⟩
  · have hnat : (UInt32.ofNat j).toNat = j :=
      UInt32.toNat_ofNat_of_lt' (show j < 2 ^ 32 by omega)
    have hvalid : UInt32.ofNat j ≠ invalidSlot := by
      intro heq
      rw [heq] at hnat
      omega
    have hplace := place_iff h hvalid (hnat.symm ▸ hj)
    refine ⟨_, ⟨_, hnat, (hplace _).2 rfl⟩, ?_⟩
    rintro place ⟨i, rfl, hp⟩
    refine (hplace place).1 ?_
    rwa [UInt32.ofNat_toNat]
  · obtain ⟨i, rfl, hp⟩ := hp
    have hi := i.toNat_lt
    refine hp.valid h (UInt32.toNat_inj.mp ?_)
    omega

/-- **The table's accounts.** In every state that any interleaving of
operations reaches: the free list is finite and without repetition; every
cell below the index `INVALID_SLOT` is in exactly one place, and a cell
from that index on, if the capacity is large enough to have one, in none;
`PopFreeSlot` hands out no live cell; the live cells are at most
`active_slots_`, which is positive whenever it is lowered and within
every bound on the limits it was compared with; and while no operation is
in progress `active_slots_` and the gauge are the number of live cells. -/
theorem table_accounts (cfg : TableConfig) (s : State τ)
    (h : (machine cfg).Reachable s) :
    (∃ l, Chain s.next invalidSlot s.table.freeHead l ∧ l.Nodup)
      ∧ (∀ j < cfg.capacity,
        (j < invalidSlot.toNat → ∃! place : Place, place.HoldsCell s j)
          ∧ (invalidSlot.toNat ≤ j →
            ∀ place : Place, ¬ place.HoldsCell s j))
      ∧ (s.table.freeHead ≠ invalidSlot →
        s.table.freeHead.toNat < cfg.capacity
          ∧ ¬ (s.word s.table.freeHead).state.Live)
      ∧ {i | (s.word i).state.Live}.ncard ≤ s.table.activeSlots
      ∧ (∀ t args, s.threads t = .running (.alloc args .undoActive) →
        0 < s.table.activeSlots)
      ∧ (∀ t w item,
        s.threads t = .running (.hold w (.releaseLiveSlot item)) →
        0 < s.table.activeSlots)
      ∧ (∀ m, (machine cfg).Reach (fun _ a => a.limit ≤ m) s →
        s.table.activeSlots ≤ m)
      ∧ ((∀ t pc, s.threads t ≠ .running pc) →
        s.table.activeSlots = {i | (s.word i).state.Live}.ncard
          ∧ s.metrics.activeInFlight
            = {i | (s.word i).state.Live}.ncard) := by
  have hinv := inv_reachable h
  have hacc := accounts_reachable h
  obtain ⟨l, hl⟩ := hinv.freeList
  refine ⟨⟨l, hl.chain, hl.nodup⟩, fun j hj => holdsCell_reachable h hj,
    ?_, ?_, ?_, ?_, ?_, ?_⟩
  · intro hne
    obtain ⟨l', rfl, -⟩ := hl.chain.head hne
    refine ⟨hl.bound _ List.mem_cons_self, ?_⟩
    have hfree := ((hinv.cells _).closed
      (hl.closed _ List.mem_cons_self)).1
    rw [show (s.word s.table.freeHead).state = .free from hfree]
    exact SlotState.free_not_live
  · have hnonneg : 0 ≤ census (fun th => bit th.reserves) s.threads :=
      census_nonneg fun _ => bit_nonneg _
    have hlive := liveCells_eq s
    have := hacc.active
    omega
  · intro t args hth
    exact hacc.active_pos (t := t) (by rw [hth]; rfl)
  · intro t w item hth
    exact hacc.active_pos (t := t) (by rw [hth]; rfl)
  · exact fun m hm => (limited_reach
      (fun _ _ ha => (min_le_left _ _).trans ha) hm).active
  · intro hquiet
    have hzero : ∀ {w : Thread → Int}, (∀ r, w (.returned r) = 0) →
        w .idle = 0 → census w s.threads = 0 := by
      intro w hret hidle
      refine census_of_zero fun t => ?_
      cases hth : s.threads t with
      | idle => exact hidle
      | running pc => exact absurd hth (hquiet t pc)
      | returned r => exact hret r
    have hactive := hacc.active
    have hgauge := hacc.gauge
    rw [hzero (fun _ => rfl) rfl, liveCells_eq] at hactive hgauge
    exact ⟨by omega, by omega⟩

end Places

/-- The accounts while a publisher is at work on the only cell. -/
theorem publishState_accounts :
    (∃! place : Place, place.HoldsCell publishState 0)
      ∧ {i | (publishState.word i).state.Live}.ncard
        ≤ publishState.table.activeSlots :=
  have h := table_accounts oneCell publishState publishState_reachable
  ⟨(h.2.1 0 (by decide)).1 (by decide), h.2.2.2.1⟩

/-- A table whose last cell has the index `INVALID_SLOT`. -/
def wideTable : TableConfig :=
  ⟨2 ^ 32, by decide, fun _ body => (body, true)⟩

/-- The constructor's links stop before that cell, so it is in none of
the four places. -/
theorem wideTable_last_nowhere :
    ∃ s : State Nat, (machine wideTable).Reachable s
      ∧ invalidSlot.toNat < wideTable.capacity
      ∧ ∀ place : Place, ¬ place.Holds s invalidSlot := by
  refine ⟨{ table := .init wideTable }, .start ⟨{}, rfl⟩, by decide, ?_⟩
  intro place hp
  cases place with
  | freeList =>
      obtain ⟨l, hchain, hmem⟩ := hp
      exact hchain.ne_nil hmem rfl
  | allocating =>
      obtain ⟨t, args, p, hth, -⟩ := hp
      cases hth
  | live => exact absurd hp SlotState.free_not_live
  | finalizing =>
      obtain ⟨t, w, p, hth, -⟩ := hp
      cases hth

end AntRpc.Slot
