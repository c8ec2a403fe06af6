/-
The table follows the rules of Slot/Cell.lean: every step of a thread is,
on every cell, a rule that thread may use (`Effect.sim`). What each
program point knows about the cell it stands on (`ThreadOk`) follows the
thread; the frame lemmas of the cell carry it over everybody else's
steps.

# One lemma per function

An `Effect` collects what the induction needs of one step: the rule on
every cell, what the stepping thread knows afterwards, and what happened
to the free list. Each function of the table has one lemma that gives
its effect; the invariant then never looks inside a step.
-/
import AntRpc.Lib.Chain
import AntRpc.Slot.Table

namespace AntRpc.Slot

variable {τ : Type}

-- == views

/-- Cell `i` and its story. -/
def State.view (s : State τ) (i : UInt32) : CellView τ :=
  ⟨s.word i, s.args i, s.lives i⟩

section Views

variable (s : State τ) (i j : UInt32)

@[simp] theorem view_setActiveCalls (calls : List UInt64) :
    (s.setActiveCalls calls).view i = s.view i := rfl

@[simp] theorem view_setActiveSlots (n : Nat) :
    (s.setActiveSlots n).view i = s.view i := rfl

/-- An update of a cell that keeps word and pointers shows nothing. -/
theorem view_setSlot_same {cell : CallSlot}
    (hw : cell.lifecycle = s.word j) (ha : cell.args = s.args j) :
    (s.setSlot j cell).view i = s.view i := by
  unfold State.view State.setSlot State.word State.args
  simp only [Function.update_apply]
  split
  · next h => subst h; rw [hw, ha]; rfl
  · rfl

@[simp] theorem view_storeTimer (timerId : UInt64) :
    (s.storeTimer j timerId).view i = s.view i :=
  view_setSlot_same s i j rfl rfl

@[simp] theorem view_cancelDeadlineTimer :
    (s.cancelDeadlineTimer j).view i = s.view i := by
  unfold State.cancelDeadlineTimer
  simp only
  split <;> exact view_storeTimer s i j 0

@[simp] theorem view_onController (f : Controller → Controller) :
    (s.onController j f).view i = s.view i := by
  unfold State.onController
  split <;> rfl

theorem view_storeLifecycle (w : Lifecycle) :
    (s.storeLifecycle j w).view i
      = if i = j then { s.view j with word := w } else s.view i := by
  unfold State.view State.storeLifecycle State.setSlot State.word State.args
  simp only [Function.update_apply]
  split
  · next h => subst h; rfl
  · rfl

theorem view_storeArgs (args : CallArgs) :
    (s.storeArgs j args).view i
      = if i = j then { s.view j with fields := args } else s.view i := by
  unfold State.view State.storeArgs State.setSlot State.word State.args
  simp only [Function.update_apply]
  split
  · next h => subst h; rfl
  · rfl

theorem view_setLife (life : CellLife τ) :
    (s.setLife j life).view i
      = if i = j then { s.view j with life := life } else s.view i := by
  unfold State.view State.setLife State.word State.args
  simp only [Function.update_apply]
  split
  · next h => subst h; rfl
  · rfl

variable [DecidableEq τ]

@[simp] theorem view_setThread (t : τ) (th : Thread) :
    (s.setThread t th).view i = s.view i := rfl

@[simp] theorem view_goto (t : τ) (pc : Pc) :
    (s.goto t pc).view i = s.view i := rfl

@[simp] theorem view_ret (t : τ) (r : Result) :
    (s.ret t r).view i = s.view i := rfl

end Views

-- == what a program point knows

/-- The cells of a table. -/
abbrev Cells (τ : Type) := UInt32 → CellView τ

/-- `args` were the arguments of an allocation whose id is `c`. -/
def Named (v : Cells τ) (c : UInt64) (args : CallArgs) : Prop :=
  ∃ g, 0 < g ∧ g ≤ (v (getSlotId c)).life.gen
    ∧ getVersion c = UInt32.ofNat g
    ∧ (v (getSlotId c)).life.argsOf g = args

/-- `t` took cell `i` off the free list for `args`. -/
structure Takes (v : Cells τ) (t : τ) (i : UInt32) (args : CallArgs) :
    Prop where
  now : (v i).life.now = .allocating t
  args : (v i).life.argsOf (v i).life.gen = args

/-- What `AllocateSlot` knows. -/
def AllocOk (v : Cells τ) (t : τ) (args : CallArgs) : AllocPc → Prop
  | .loadActive _ | .casActive _ _ | .popFreeSlot | .undoActive => True
  | .loadVersion i => Takes v t i args
  | .storeFields i ver =>
      Takes v t i args ∧ ver = (v i).word.version + 1
  | .resetTimer i ver | .storeArming i ver =>
      Takes v t i args ∧ ver = (v i).word.version + 1
        ∧ (v i).fields = args
  | .addInFlight i ver => Named v (makeCorrelationId ver i) args

/-- The winner's completion is already recorded. -/
def HoldPc.recorded : HoldPc → Bool
  | .discardTimer | .discardClear | .responseClear _ | .responseApply _
  | .responseCount _ | .failureClear _ | .failureApply _ | .readTask _
  | .takeNotify _ _ | .recordCompletion _ _ => false
  | .unregister _ | .cancelTimer _ => true
  | .clearFields item | .clearTimer item | .storeFree item
  | .releaseLiveSlot item | .subInFlight item | .pushFreeSlot item =>
      item.isSome

/-- The cell still has the caller's pointers. -/
def HoldPc.intact : HoldPc → Bool
  | .clearTimer _ | .storeFree _ | .releaseLiveSlot _ | .subInFlight _
  | .pushFreeSlot _ => false
  | _ => true

/-- The word already says free. -/
def HoldPc.freed : HoldPc → Bool
  | .releaseLiveSlot _ | .subInFlight _ | .pushFreeSlot _ => true
  | _ => false

/-- The item read from the cell. -/
def HoldPc.item : HoldPc → Option Dispatch
  | .takeNotify _ item | .recordCompletion _ item | .unregister item
  | .cancelTimer item => some item
  | .clearFields item | .clearTimer item | .storeFree item
  | .releaseLiveSlot item | .subInFlight item | .pushFreeSlot item => item
  | _ => none

/-- The item dispatches the continuation `args` asked for. -/
structure Dispatch.For (d : Dispatch) (args : CallArgs) : Prop where
  task : d.task = args.task
  executor : d.executor = args.executor

/-- What a winner knows while it holds its cell. -/
structure HoldOk (v : Cells τ) (t : τ) (w : Winner) (p : HoldPc) :
    Prop where
  now : (v (getSlotId w.cid)).life.now = .holding t p.recorded
  gen : w.gen = (v (getSlotId w.cid)).life.gen
  version : getVersion w.cid = UInt32.ofNat w.gen
  fields : p.intact = true → (v (getSlotId w.cid)).fields
    = (v (getSlotId w.cid)).life.argsOf w.gen
  free : p.freed = true → (v (getSlotId w.cid)).word.state = .free
  item : ∀ d, p.item = some d →
    d.For ((v (getSlotId w.cid)).life.argsOf w.gen)

/-- What a winner knows after it gave the cell back. -/
structure DispatchOk (v : Cells τ) (t : τ) (w : Winner) (d : Dispatch) :
    Prop where
  fate : (v (getSlotId w.cid)).life.fate w.gen = .released t
  pos : 0 < w.gen
  gen : w.gen ≤ (v (getSlotId w.cid)).life.gen
  version : getVersion w.cid = UInt32.ofNat w.gen
  item : d.For ((v (getSlotId w.cid)).life.argsOf w.gen)

/-- What `PublishSlot` knows: a resolution it delivers is the one the
observed state stands for. -/
def PublishPc.Sound : PublishPc → Prop
  | .deliverPending st r => pendingResolution st = some r
  | _ => True

/-- Who calls `TransitionAndFinalize`. -/
def After.Resolves : After → Prop
  | .resolve | .failAll _ _ _ _ => True
  | .publish _ | .complete | .discard => False

/-- What a thread knows. -/
def ThreadOk (v : Cells τ) (t : τ) : Thread → Prop
  | .running (.alloc args p) => AllocOk v t args p
  | .running (.publish _ p) => p.Sound
  | .running (.transition _ _ after) => after.Resolves
  | .running (.hold w p) => HoldOk v t w p
  | .running (.dispatch w d) => DispatchOk v t w d
  | .returned (.allocated args c) => c = 0 ∨ Named v c args
  | _ => True

-- == the free list

/-- The link of cell `i`. -/
def State.next (s : State τ) (i : UInt32) : UInt32 :=
  (s.table.slots i).nextFree

/-- The free list is `l`: the chain from `free_head_`, without
repetition, through the cells nobody occupies. -/
structure FreeList (cfg : TableConfig) (s : State τ) (l : List UInt32) :
    Prop where
  chain : Lib.Chain s.next invalidSlot s.table.freeHead l
  nodup : l.Nodup
  closed : ∀ i ∈ l, (s.view i).life.now.Closed
  bound : ∀ i ∈ l, i.toNat < cfg.capacity
  complete : ∀ i, i ≠ invalidSlot → i.toNat < cfg.capacity →
    (s.view i).life.now.Closed → i ∈ l

/-- What a step does to the free list. -/
inductive FreeStep (s s' : State τ) : Prop
  | same (hhead : s'.table.freeHead = s.table.freeHead)
      (hnext : ∀ i, s'.next i = s.next i)
      (hgen : ∀ i, (s'.view i).life.gen = (s.view i).life.gen)
      (hback : ∀ i, (s'.view i).life.now.Closed →
        (s.view i).life.now.Closed)
  | pop (hne : s.table.freeHead ≠ invalidSlot)
      (hhead : s'.table.freeHead = s.next s.table.freeHead)
      (hnext : ∀ i, s'.next i = s.next i)
      (hgen : ∀ i, i ≠ s.table.freeHead →
        (s'.view i).life.gen = (s.view i).life.gen)
      (hback : ∀ i, (s'.view i).life.now.Closed →
        i ≠ s.table.freeHead ∧ (s.view i).life.now.Closed)
  | push (i : UInt32) (hpos : 0 < (s.view i).life.gen)
      (hopen : ¬ (s.view i).life.now.Closed)
      (hclosed : (s'.view i).life.now.Closed)
      (hhead : s'.table.freeHead = i) (hi : s'.next i = s.table.freeHead)
      (hnext : ∀ j, j ≠ i → s'.next j = s.next j)
      (hgen : ∀ j, (s'.view j).life.gen = (s.view j).life.gen)
      (hback : ∀ j, j ≠ i → (s'.view j).life.now.Closed →
        (s.view j).life.now.Closed)

/-- What the induction needs of one step of thread `t`. -/
structure Effect (s s' : State τ) (t : τ) : Prop where
  sim : ∀ i, CellStep t (s.view i) (s'.view i)
  own : ThreadOk s'.view t (s'.threads t)
  others : ∀ u, u ≠ t → s'.threads u = s.threads u
  free : FreeStep s s'

/-- The table's ownership invariant. -/
structure Inv (cfg : TableConfig) (s : State τ) : Prop where
  cells : ∀ i, CellInv (s.view i)
  threads : ∀ t, ThreadOk s.view t (s.threads t)
  popped : ∀ i, 0 < (s.view i).life.gen →
    i ≠ invalidSlot ∧ i.toNat < cfg.capacity
  freeList : ∃ l, FreeList cfg s l

-- == frame

section Frame

variable {v v' : Cells τ} {s s' : State τ} {t u : τ}

/-- A named allocation stays named. -/
theorem Named.mono (sim : ∀ i, CellStep t (v i) (v' i))
    {c : UInt64} {args : CallArgs} (h : Named v c args) :
    Named v' c args := by
  obtain ⟨g, hpos, hle, hver, hargs⟩ := h
  have hs := sim (getSlotId c)
  exact ⟨g, hpos, hle.trans hs.gen_le, hver, (hs.argsOf_eq hle).trans hargs⟩

/-- A thread knows what it knew after another thread's step. -/
theorem ThreadOk.frame (hc : ∀ i, CellInv (v i))
    (sim : ∀ i, CellStep t (v i) (v' i)) (hne : u ≠ t)
    {th : Thread} (h : ThreadOk v u th) : ThreadOk v' u th := by
  have hsame : ∀ i, (v i).HeldBy u → SameCell (v i) (v' i) :=
    fun i hheld => (sim i).frame (hc i) hne hheld
  have htakes : ∀ i args, Takes v u i args → Takes v' u i args
      ∧ (v' i).word = (v i).word ∧ (v' i).fields = (v i).fields := by
    rintro i args ⟨hnow, hargs⟩
    obtain ⟨hw, hf, hg, ha, hn⟩ := hsame i (Or.inl hnow)
    refine ⟨⟨hn.trans hnow, ?_⟩, hw, hf⟩
    rw [hg, ha]
    exact hargs
  match th, h with
  | .idle, _ => trivial
  | .running (.alloc args p), h =>
      cases p with
      | loadVersion i => exact (htakes i args h).1
      | storeFields i ver =>
          obtain ⟨htake, hw, -⟩ := htakes i args h.1
          exact ⟨htake, by rw [hw]; exact h.2⟩
      | resetTimer i ver | storeArming i ver =>
          obtain ⟨htake, hw, ha⟩ := htakes i args h.1
          exact ⟨htake, by rw [hw]; exact h.2.1, by rw [ha]; exact h.2.2⟩
      | addInFlight i ver => exact Named.mono sim h
      | _ => trivial
  | .running (.hold w p), h =>
      obtain ⟨hw, hf, hg, ha, hn⟩ := hsame _ (Or.inr ⟨_, h.now⟩)
      refine ⟨hn.trans h.now, h.gen.trans hg.symm, h.version, ?_, ?_, ?_⟩
      · intro hi
        rw [hf, ha]
        exact h.fields hi
      · intro hi
        rw [hw]
        exact h.free hi
      · intro d hd
        rw [ha]
        exact h.item d hd
  | .running (.dispatch w d), h =>
      have hs := sim (getSlotId w.cid)
      refine ⟨hs.frame_released (hc _) hne h.fate, h.pos,
        h.gen.trans hs.gen_le, h.version, ?_⟩
      rw [hs.argsOf_eq h.gen]
      exact h.item
  | .returned (.allocated args c), h => exact h.imp_right (Named.mono sim)
  | .running (.publish ..), h | .running (.transition ..), h => exact h
  | .running (.discard ..), _
  | .running (.attachLoad ..), _ | .running (.attachStore ..), _
  | .running (.responseUnknown ..), _ | .running (.responseCas ..), _
  | .running (.responseLate ..), _ | .running (.resolvePending ..), _
  | .running (.failAllTake ..), _
  | .running (.failAllNext ..), _ | .returned (.published ..), _
  | .returned (.flag ..), _ | .returned (.response ..), _
  | .returned (.count ..), _ => trivial

/-- A closed cell that got no new allocation is closed. -/
theorem CellStep.closed_of_gen {v v' : CellView τ}
    (hs : CellStep t v v') (hv : CellInv v) (hgen : v'.life.gen = v.life.gen)
    (h : v.life.now.Closed) : v'.life.now.Closed := by
  have hnl : ¬ v.word.state.Live := by
    rw [(hv.closed h).1]
    exact SlotState.free_not_live
  cases hs with
  | stay => exact h
  | pop args _ => simp at hgen
  | write _ => exact h
  | arm ha _ | record ha | release ha _ | discard ha _ =>
      rw [ha] at h; exact h.elim
  | shift _ hl _ => exact absurd hl hnl
  | seize _ hl _ => exact absurd hl hnl
  | clear _ _ => exact h
  | storeFree _ _ => exact h
  | dispatch g n _ _ =>
      rw [CellLife.setFate_now_eq]
      split
      · trivial
      · exact h

/-- The free list after a step. -/
theorem FreeStep.freeList {cfg : TableConfig} (hf : FreeStep s s')
    (hc : ∀ i, CellInv (s.view i))
    (sim : ∀ i, CellStep t (s.view i) (s'.view i))
    (hpop : ∀ i, 0 < (s.view i).life.gen →
      i ≠ invalidSlot ∧ i.toNat < cfg.capacity)
    {l : List UInt32} (hl : FreeList cfg s l) :
    ∃ l', FreeList cfg s' l' := by
  have hclosed : ∀ i, (s'.view i).life.gen = (s.view i).life.gen →
      (s.view i).life.now.Closed → (s'.view i).life.now.Closed :=
    fun i hg hcl => (sim i).closed_of_gen (hc i) hg hcl
  cases hf with
  | same hhead hnext hgen hback =>
      refine ⟨l, ?_, hl.nodup, ?_, hl.bound,
        fun i hne hi hcl => hl.complete i hne hi (hback i hcl)⟩
      · rw [hhead]
        exact hl.chain.congr fun i _ => hnext i
      · exact fun i hi => hclosed i (hgen i) (hl.closed i hi)
  | pop hne hhead hnext hgen hback =>
      obtain ⟨l', rfl, hrest⟩ := hl.chain.head hne
      obtain ⟨hnotin, hnodup⟩ := List.nodup_cons.mp hl.nodup
      refine ⟨l', ?_, hnodup, ?_, ?_, ?_⟩
      · rw [hhead]
        exact hrest.congr fun i _ => hnext i
      · intro i hi
        have hne' : i ≠ s.table.freeHead := fun h => hnotin (h ▸ hi)
        exact hclosed i (hgen i hne')
          (hl.closed i (List.mem_cons_of_mem _ hi))
      · exact fun i hi => hl.bound i (List.mem_cons_of_mem _ hi)
      · intro i hvalid hi hcl
        obtain ⟨hne', hcl'⟩ := hback i hcl
        exact (List.mem_cons.mp (hl.complete i hvalid hi hcl')).resolve_left
          hne'
  | push i hpos hopen hcl hhead hi hnext hgen hback =>
      have hnotin : i ∉ l := fun h => hopen (hl.closed i h)
      obtain ⟨hvalid, hbound⟩ := hpop i hpos
      refine ⟨i :: l, ⟨hhead, hvalid, ?_⟩, ?_, ?_, ?_, ?_⟩
      · rw [hi]
        refine hl.chain.congr fun j hj => hnext j ?_
        rintro rfl
        exact hnotin hj
      · exact List.nodup_cons.mpr ⟨hnotin, hl.nodup⟩
      · intro j hj
        rcases List.mem_cons.mp hj with rfl | hj
        · exact hcl
        · exact hclosed j (hgen j) (hl.closed j hj)
      · intro j hj
        rcases List.mem_cons.mp hj with rfl | hj
        · exact hbound
        · exact hl.bound j hj
      · intro j hne hj hcl'
        by_cases heq : j = i
        · exact heq ▸ List.mem_cons_self
        · exact List.mem_cons_of_mem _
            (hl.complete j hne hj (hback j heq hcl'))

/-- An effect keeps the invariant. -/
theorem Effect.inv {cfg : TableConfig} (he : Effect s s' t)
    (hi : Inv cfg s) : Inv cfg s' := by
  obtain ⟨l, hl⟩ := hi.freeList
  refine ⟨fun i => (he.sim i).inv (hi.cells i), ?_, ?_,
    he.free.freeList hi.cells he.sim hi.popped hl⟩
  · intro u
    by_cases hu : u = t
    · rw [hu]
      exact he.own
    · rw [he.others u hu]
      exact (hi.threads u).frame hi.cells he.sim hu
  · intro i hpos
    cases he.free with
    | same hhead hnext hgen hback => exact hi.popped i (hgen i ▸ hpos)
    | pop hne hhead hnext hgen hback =>
        by_cases hh : i = s.table.freeHead
        · obtain ⟨l', rfl, -⟩ := hl.chain.head hne
          rw [hh]
          exact ⟨hne, hl.bound _ List.mem_cons_self⟩
        · exact hi.popped i (hgen i hh ▸ hpos)
    | push j hpos' hopen hcl hhead hj hnext hgen hback =>
        exact hi.popped i (hgen i ▸ hpos)

end Frame

-- == effects, by kind of step

section Effects

variable [DecidableEq τ] {s s₁ : State τ} {t : τ}

omit [DecidableEq τ] in
theorem next_setSlot {cell : CallSlot} (i j : UInt32)
    (h : cell.nextFree = s.next i) :
    (s.setSlot i cell).next j = s.next j := by
  unfold State.next State.setSlot
  simp only [Function.update_apply]
  split
  · next hj => rw [hj]; exact h
  · rfl

/-- A change that no cell, no link and no thread shows. -/
structure Quiet (s s₁ : State τ) : Prop where
  view : s₁.view = s.view
  head : s₁.table.freeHead = s.table.freeHead
  next : s₁.next = s.next
  threads : s₁.threads = s.threads

omit [DecidableEq τ] in
theorem quiet_storeTimer (s : State τ) (i : UInt32) (timerId : UInt64) :
    Quiet s (s.storeTimer i timerId) where
  view := funext fun j => view_storeTimer s j i timerId
  head := rfl
  next := funext fun j => next_setSlot i j rfl
  threads := rfl

omit [DecidableEq τ] in
theorem quiet_cancelDeadlineTimer (s : State τ) (i : UInt32) :
    Quiet s (s.cancelDeadlineTimer i) := by
  obtain ⟨hv, hh, hn, ht⟩ := quiet_storeTimer s i 0
  unfold State.cancelDeadlineTimer
  simp only
  split <;> exact ⟨hv, hh, hn, ht⟩

omit [DecidableEq τ] in
theorem quiet_onController (s : State τ) (i : UInt32)
    (f : Controller → Controller) : Quiet s (s.onController i f) := by
  unfold State.onController
  split <;> exact ⟨rfl, rfl, rfl, rfl⟩

/-- A step that no cell and no link shows. -/
theorem Effect.quiet {th : Thread} (hq : Quiet s s₁)
    (hok : ThreadOk s.view t th) : Effect s (s₁.setThread t th) t where
  sim i := by
    rw [view_setThread, hq.view]
    exact .stay
  own := by
    have hself : (s₁.setThread t th).threads t = th :=
      Function.update_self ..
    rw [hself]
    exact hq.view ▸ hok
  others u hu := by
    have hother : (s₁.setThread t th).threads u = s₁.threads u :=
      Function.update_of_ne hu ..
    rw [hother, hq.threads]
  free := .same hq.head (fun i => congrFun hq.next i)
    (fun i => by rw [view_setThread, hq.view])
    (fun i => by rw [view_setThread, hq.view]; exact id)

/-- A step on one cell that keeps the free list. -/
theorem Effect.onCell {th : Thread} (i : UInt32)
    (hcell : CellStep t (s.view i) (s₁.view i))
    (hother : ∀ j, j ≠ i → s₁.view j = s.view j)
    (hgen : (s₁.view i).life.gen = (s.view i).life.gen)
    (hback : (s₁.view i).life.now.Closed → (s.view i).life.now.Closed)
    (hhead : s₁.table.freeHead = s.table.freeHead)
    (hnext : ∀ j, s₁.next j = s.next j) (hth : s₁.threads = s.threads)
    (hok : ThreadOk s₁.view t th) : Effect s (s₁.setThread t th) t where
  sim j := by
    rw [view_setThread]
    by_cases hj : j = i
    · rw [hj]
      exact hcell
    · rw [hother j hj]
      exact .stay
  own := by
    have hself : (s₁.setThread t th).threads t = th :=
      Function.update_self ..
    rw [hself]
    exact hok
  others u hu := by
    have hother : (s₁.setThread t th).threads u = s₁.threads u :=
      Function.update_of_ne hu ..
    rw [hother, hth]
  free := by
    refine .same hhead hnext (fun j => ?_) fun j => ?_
    · rw [view_setThread]
      by_cases hj : j = i
      · rw [hj]
        exact hgen
      · rw [hother j hj]
    · rw [view_setThread]
      by_cases hj : j = i
      · rw [hj]
        exact hback
      · rw [hother j hj]
        exact id

/-- A compare-and-swap from a live state to a live state. -/
theorem Effect.shift {c : UInt64} {st st' : SlotState} {th : Thread}
    (h : s.word (getSlotId c) = ⟨getVersion c, st⟩) (hst : st.Live)
    (hst' : st'.Live) (hok : ∀ v : Cells τ, ThreadOk v t th) :
    Effect s ((s.storeLifecycle (getSlotId c)
      ⟨getVersion c, st'⟩).setThread t th) t := by
  have hw : (s.view (getSlotId c)).word = ⟨getVersion c, st⟩ := h
  refine .onCell (getSlotId c) ?_ ?_ ?_ ?_ rfl ?_ rfl (hok _)
  · rw [view_storeLifecycle, if_pos rfl]
    have hrule := CellStep.shift (t := t) (v := s.view (getSlotId c)) st'
      (by rw [hw]; exact hst) hst'
    rw [hw] at hrule
    exact hrule
  · intro j hj
    rw [view_storeLifecycle, if_neg hj]
  · rw [view_storeLifecycle, if_pos rfl]
  · rw [view_storeLifecycle, if_pos rfl]
    exact id
  · exact fun j => next_setSlot _ j rfl

/-- A compare-and-swap out of the live states makes a winner. -/
theorem Effect.win {cfg : TableConfig} (hi : Inv cfg s) {c : UInt64}
    {st st' : SlotState} {after : After} {p : HoldPc}
    (h : s.word (getSlotId c) = ⟨getVersion c, st⟩) (hst : st.Live)
    (hst' : ¬ st'.Live) (hrec : p.recorded = false)
    (hfreed : p.freed = false) (hitem : p.item = none) :
    Effect s ((s.storeLifecycle (getSlotId c)
      ⟨getVersion c, st'⟩).win t c after p) t := by
  have hw : (s.view (getSlotId c)).word = ⟨getVersion c, st⟩ := h
  have hlive : (s.view (getSlotId c)).word.state.Live := by
    rw [hw]
    exact hst
  obtain ⟨-, -, hver, hfields⟩ := (hi.cells _).live
    ((hi.cells _).live_of_state hlive)
  rw [hw] at hver
  -- the cell after the step, by the rule
  have hcell : ((s.storeLifecycle (getSlotId c) ⟨getVersion c, st'⟩).turn
      (getSlotId c) (.holding t false)).view (getSlotId c)
      = { s.view (getSlotId c) with
          word := ⟨(s.view (getSlotId c)).word.version, st'⟩
          life := (s.view (getSlotId c)).life.setFate
            (s.view (getSlotId c)).life.gen (.holding t false) } := by
    rw [State.turn, view_setLife, if_pos rfl, view_storeLifecycle,
      if_pos rfl, hw]
    rfl
  refine .onCell (getSlotId c) ?_ ?_ ?_ ?_ rfl ?_ rfl ?_
  · rw [hcell]
    exact .seize st' hlive hst'
  · intro j hj
    rw [State.turn, view_setLife, if_neg hj, view_storeLifecycle, if_neg hj]
  · rw [hcell]
    rfl
  · rw [hcell, CellLife.setFate_now]
    exact False.elim
  · exact fun j => next_setSlot _ j rfl
  · refine ⟨?_, ?_, hver, ?_, ?_, ?_⟩
    · rw [hcell, hrec]
      exact CellLife.setFate_now ..
    · rw [hcell]
      rfl
    · intro _
      rw [hcell]
      exact hfields
    · intro hf
      rw [hfreed] at hf
      cases hf
    · intro d hd
      rw [hitem] at hd
      cases hd

-- == effects, by function

/-- `AllocateSlot`'s exclusive cell after the pop. -/
theorem effect_popFreeSlot {args : CallArgs}
    (hi : ∃ cfg, Inv cfg s) (hne : s.table.freeHead ≠ invalidSlot) :
    Effect s (execAlloc t args .popFreeSlot s) t := by
  obtain ⟨cfg, hi⟩ := hi
  obtain ⟨l, hl⟩ := hi.freeList
  obtain ⟨l', rfl, -⟩ := hl.chain.head hne
  have hclosed := hl.closed _ List.mem_cons_self
  simp only [execAlloc, if_neg hne]
  set s₁ : State τ := { s with
    table := { s.table with
      freeHead := (s.table.slots s.table.freeHead).nextFree } } with hs₁
  have hview₁ : ∀ j, s₁.view j = s.view j := fun j => rfl
  have hcell : (s₁.setLife s.table.freeHead
      ((s.lives s.table.freeHead).pop t args)).view s.table.freeHead
      = { s.view s.table.freeHead with
          life := (s.view s.table.freeHead).life.pop t args } := by
    rw [view_setLife, if_pos rfl, hview₁]
    rfl
  have hother : ∀ j, j ≠ s.table.freeHead →
      (s₁.setLife s.table.freeHead
        ((s.lives s.table.freeHead).pop t args)).view j = s.view j := by
    intro j hj
    rw [view_setLife, if_neg hj, hview₁]
  refine ⟨?_, ?_, ?_, ?_⟩
  · intro j
    rw [view_goto]
    by_cases hj : j = s.table.freeHead
    · rw [hj, hcell]
      exact .pop args hclosed
    · rw [hother j hj]
      exact .stay
  · have hself : ((s₁.setLife s.table.freeHead
        ((s.lives s.table.freeHead).pop t args)).goto t
          (.alloc args (.loadVersion s.table.freeHead))).threads t
        = .running (.alloc args (.loadVersion s.table.freeHead)) :=
      Function.update_self ..
    rw [hself]
    refine ⟨?_, ?_⟩
    · rw [view_goto, hcell]
      exact CellLife.pop_now ..
    · rw [view_goto, hcell]
      exact Function.update_self ..
  · intro u hu
    exact Function.update_of_ne hu ..
  · refine .pop hne rfl (fun j => rfl) ?_ ?_
    · intro j hj
      rw [view_goto, hother j hj]
    · intro j hj
      rw [view_goto] at hj
      by_cases heq : j = s.table.freeHead
      · rw [heq, hcell, CellLife.pop_now] at hj
        exact hj.elim
      · rw [hother j heq] at hj
        exact ⟨heq, hj⟩

/-- `AllocateSlot`. -/
theorem effect_execAlloc {cfg : TableConfig} (hi : Inv cfg s)
    {args : CallArgs} {p : AllocPc} (hok : AllocOk s.view t args p) :
    Effect s (execAlloc t args p s) t := by
  cases p with
  | loadActive limit => exact .quiet ⟨rfl, rfl, rfl, rfl⟩ trivial
  | casActive limit current =>
      simp only [execAlloc]
      split
      · split <;> exact .quiet ⟨rfl, rfl, rfl, rfl⟩ trivial
      · exact .quiet ⟨rfl, rfl, rfl, rfl⟩ (Or.inl rfl)
  | popFreeSlot =>
      by_cases hne : s.table.freeHead = invalidSlot
      · simp only [execAlloc, if_pos hne]
        exact .quiet ⟨rfl, rfl, rfl, rfl⟩ trivial
      · exact effect_popFreeSlot ⟨cfg, hi⟩ hne
  | undoActive => exact .quiet ⟨rfl, rfl, rfl, rfl⟩ (Or.inl rfl)
  | loadVersion i => exact .quiet ⟨rfl, rfl, rfl, rfl⟩ ⟨hok, rfl⟩
  | storeFields i ver =>
      obtain ⟨htake, hver⟩ := hok
      have hcell : (s.storeArgs i args).view i
          = { s.view i with fields := args } := by
        rw [view_storeArgs, if_pos rfl]
      refine .onCell i ?_ ?_ ?_ ?_ rfl ?_ rfl ?_
      · rw [hcell, ← htake.args]
        exact .write htake.now
      · intro j hj
        rw [view_storeArgs, if_neg hj]
      · rw [hcell]
      · rw [hcell]
        exact id
      · exact fun j => next_setSlot _ j rfl
      · refine ⟨⟨?_, ?_⟩, ?_, ?_⟩
        · rw [hcell]
          exact htake.now
        · rw [hcell]
          exact htake.args
        · rw [hcell]
          exact hver
        · rw [hcell]
  | resetTimer i ver =>
      exact .quiet (quiet_storeTimer s i 0) hok
  | storeArming i ver =>
      obtain ⟨htake, hver, hargs⟩ := hok
      obtain ⟨hpos, -, hgen⟩ := (hi.cells i).allocating t htake.now
      have hcell : ((s.storeLifecycle i ⟨ver, .arming⟩).turn i .live).view i
          = { s.view i with
              word := ⟨(s.view i).word.version + 1, .arming⟩
              life := (s.view i).life.setFate (s.view i).life.gen
                .live } := by
        rw [State.turn, view_setLife, if_pos rfl, view_storeLifecycle,
          if_pos rfl, ← hver]
        rfl
      refine .onCell i ?_ ?_ ?_ ?_ rfl ?_ rfl ?_
      · rw [hcell]
        exact .arm htake.now (hargs.trans htake.args.symm)
      · intro j hj
        rw [State.turn, view_setLife, if_neg hj, view_storeLifecycle,
          if_neg hj]
      · rw [hcell]
        rfl
      · rw [hcell, CellLife.setFate_now]
        exact False.elim
      · exact fun j => next_setSlot _ j rfl
      · refine ⟨(s.view i).life.gen, hpos, ?_, ?_, ?_⟩
        · rw [getSlotId_make, hcell]
          exact Nat.le_refl _
        · rw [getVersion_make, hver]
          exact hgen
        · rw [getSlotId_make, hcell]
          exact htake.args
  | addInFlight i ver => exact .quiet ⟨rfl, rfl, rfl, rfl⟩ (Or.inr hok)

/-- The tail of a publisher that lost its compare-and-swap. -/
theorem effect_publishLost {c : UInt64} {observed : Lifecycle}
    (hq : Quiet s s₁) : Effect s (publishLost t c observed s₁) t := by
  unfold publishLost
  split
  · split
    · next h => exact .quiet hq h
    · exact .quiet hq trivial
  · exact .quiet hq trivial

/-- `PublishSlot`. -/
theorem effect_execPublish {cfg : TableConfig} (hi : Inv cfg s)
    {c : UInt64} {p : PublishPc} (hp : p.Sound) :
    Effect s (execPublish t c p s) t := by
  cases p with
  | registerPublishedSlot | takeConnectionFailure =>
      simp only [execPublish]
      split <;> exact .quiet ⟨rfl, rfl, rfl, rfl⟩ trivial
  | failArming code message =>
      simp only [execPublish]
      split
      · next h => exact .win hi h (by decide) (by decide) rfl rfl rfl
      · exact effect_publishLost ⟨rfl, rfl, rfl, rfl⟩
  | publish =>
      simp only [execPublish]
      split
      · next h => exact .shift h (by decide) (by decide) fun _ => trivial
      · exact .quiet ⟨rfl, rfl, rfl, rfl⟩ trivial
  | failInFlight code message =>
      simp only [execPublish]
      split
      · next h => exact .win hi h (by decide) (by decide) rfl rfl rfl
      · exact .quiet ⟨rfl, rfl, rfl, rfl⟩ trivial
  | unregisterPublishedSlot observed =>
      exact effect_publishLost ⟨rfl, rfl, rfl, rfl⟩
  | deliverPending st r =>
      simp only [execPublish]
      split
      · next h =>
        have hlive : st.Live := by
          rcases pendingResolution_live hp with rfl | rfl <;> decide
        exact .win hi h hlive (terminalState_not_live r) rfl rfl rfl
      · exact .quiet ⟨rfl, rfl, rfl, rfl⟩ trivial

omit [DecidableEq τ] in
/-- A winner goes from one point to another while the cell stays. -/
theorem HoldOk.move {v : Cells τ} {w : Winner} {p p' : HoldPc}
    (h : HoldOk v t w p) (hrec : p'.recorded = p.recorded)
    (hintact : p'.intact = true → p.intact = true)
    (hfreed : p'.freed = true → p.freed = true)
    (hitem : ∀ d, p'.item = some d →
      d.For ((v (getSlotId w.cid)).life.argsOf w.gen)) :
    HoldOk v t w p' where
  now := by
    rw [hrec]
    exact h.now
  gen := h.gen
  version := h.version
  fields hi := h.fields (hintact hi)
  free hf := h.free (hfreed hf)
  item := hitem

/-- A winner that records, clears or frees its cell. -/
theorem Effect.onHeld {w : Winner} {p : HoldPc} (p' : HoldPc)
    {cell : CellView τ} (hok : HoldOk s.view t w p)
    (hcell : s₁.view (getSlotId w.cid) = cell)
    (hrule : CellStep t (s.view (getSlotId w.cid)) cell)
    (hother : ∀ j, j ≠ getSlotId w.cid → s₁.view j = s.view j)
    (hhead : s₁.table.freeHead = s.table.freeHead)
    (hnext : ∀ j, s₁.next j = s.next j) (hth : s₁.threads = s.threads)
    (hnow : cell.life.now = .holding t p'.recorded)
    (hgen : cell.life.gen = (s.view (getSlotId w.cid)).life.gen)
    (hargs : cell.life.argsOf = (s.view (getSlotId w.cid)).life.argsOf)
    (hintact : p'.intact = true →
      p.intact = true ∧ cell.fields = (s.view (getSlotId w.cid)).fields)
    (hfreed : p'.freed = true → cell.word.state = .free)
    (hitem : p'.item = p.item) :
    Effect s (s₁.setThread t (.running (.hold w p'))) t := by
  refine .onCell (getSlotId w.cid) (hcell ▸ hrule) hother ?_ ?_ hhead hnext
    hth ⟨?_, ?_, hok.version, ?_, ?_, ?_⟩
  · rw [hcell]
    exact hgen
  · rw [hcell, hnow]
    exact False.elim
  · rw [hcell]
    exact hnow
  · rw [hcell, hgen]
    exact hok.gen
  · intro hi
    obtain ⟨hp, hf⟩ := hintact hi
    rw [hcell, hf, hargs]
    exact hok.fields hp
  · intro hf
    rw [hcell]
    exact hfreed hf
  · intro d hd
    rw [hcell, hargs]
    exact hok.item d (hitem ▸ hd)

/-- A winner gives its cell back: `f` is how the story goes on. -/
theorem Effect.push {i : UInt32} {f : Fate τ} {th : Thread}
    (hpos : 0 < (s.view i).life.gen)
    (hopen : ¬ (s.view i).life.now.Closed) (hf : f.Closed)
    (hrule : CellStep t (s.view i)
      { s.view i with life := (s.view i).life.setFate (s.view i).life.gen f })
    (hslots : s₁.table.slots = Function.update s.table.slots i
      { s.table.slots i with nextFree := s.table.freeHead })
    (hhead : s₁.table.freeHead = i) (hlives : s₁.lives = s.lives)
    (hth : s₁.threads = s.threads)
    (hok : ∀ v : Cells τ,
      v i = { s.view i with
        life := (s.view i).life.setFate (s.view i).life.gen f } →
      ThreadOk v t th) :
    Effect s ((s₁.turn i f).setThread t th) t := by
  have hview₁ : ∀ j, s₁.view j = s.view j := by
    intro j
    have hsame : (s.setSlot i
        { s.table.slots i with nextFree := s.table.freeHead }).view j
        = s.view j := view_setSlot_same s j i rfl rfl
    unfold State.view State.word State.args at hsame ⊢
    rw [hslots, hlives]
    exact hsame
  have hcell : (s₁.turn i f).view i
      = { s.view i with
          life := (s.view i).life.setFate (s.view i).life.gen f } := by
    rw [State.turn, view_setLife, if_pos rfl, hview₁, hlives]
    rfl
  have hother : ∀ j, j ≠ i → (s₁.turn i f).view j = s.view j := by
    intro j hj
    rw [State.turn, view_setLife, if_neg hj, hview₁]
  have hnext : ∀ j, (s₁.turn i f).next j = (s₁.table.slots j).nextFree :=
    fun _ => rfl
  refine ⟨?_, ?_, ?_, ?_⟩
  · intro j
    rw [view_setThread]
    by_cases hj : j = i
    · rw [hj, hcell]
      exact hrule
    · rw [hother j hj]
      exact .stay
  · have hself : ((s₁.turn i f).setThread t th).threads t = th :=
      Function.update_self ..
    rw [hself]
    exact hok _ hcell
  · intro u hu
    have hold : ((s₁.turn i f).setThread t th).threads u = s₁.threads u :=
      Function.update_of_ne hu ..
    rw [hold, hth]
  · refine .push i hpos hopen ?_ hhead ?_ ?_ ?_ ?_
    · rw [view_setThread, hcell]
      simpa using hf
    · show (s₁.table.slots i).nextFree = _
      rw [hslots, Function.update_self]
    · intro j hj
      show (s₁.table.slots j).nextFree = _
      rw [hslots, Function.update_of_ne hj]
      rfl
    · intro j
      rw [view_setThread]
      by_cases hj : j = i
      · rw [hj, hcell]
        rfl
      · rw [hother j hj]
    · intro j hj
      rw [view_setThread, hother j hj]
      exact id

/-- A winner while it holds its cell. -/
theorem effect_execHold {cfg cfg' : TableConfig} (hi : Inv cfg' s)
    {w : Winner} {p : HoldPc} (hok : HoldOk s.view t w p) :
    Effect s (execHold cfg t w p s) t := by
  cases p with
  | discardTimer =>
      exact .quiet (quiet_cancelDeadlineTimer ..)
        (hok.move rfl id nofun nofun)
  | discardClear | responseClear r | failureClear r | failureApply r =>
      exact .quiet (quiet_onController ..) (hok.move rfl id nofun nofun)
  | responseApply r | responseCount code =>
      exact .quiet ⟨rfl, rfl, rfl, rfl⟩ (hok.move rfl id nofun nofun)
  | readTask code =>
      refine .quiet ⟨rfl, rfl, rfl, rfl⟩ (hok.move rfl id nofun ?_)
      intro d hd
      cases hd
      have hf := hok.fields rfl
      exact ⟨congrArg CallArgs.task hf, congrArg CallArgs.executor hf⟩
  | takeNotify code item =>
      have hitem := hok.item item rfl
      simp only [execHold]
      split
      · refine .quiet ⟨rfl, rfl, rfl, rfl⟩ (hok.move rfl id nofun ?_)
        intro d hd
        cases hd
        exact hitem
      · refine .quiet ⟨rfl, rfl, rfl, rfl⟩ (hok.move rfl id nofun ?_)
        intro d hd
        cases hd
        exact ⟨hitem.task, hitem.executor⟩
  | recordCompletion code item =>
      refine .onHeld (.unregister item) hok
        (by rw [view_setLife, if_pos rfl]; rfl) (.record hok.now) ?_ rfl
        (fun _ => rfl) rfl ?_ rfl rfl (fun _ => ⟨rfl, rfl⟩) nofun rfl
      · intro j hj
        rw [view_setLife, if_neg hj]
        rfl
      · exact CellLife.setFate_now ..
  | unregister item =>
      exact .quiet ⟨rfl, rfl, rfl, rfl⟩ (hok.move rfl id nofun hok.item)
  | cancelTimer item =>
      exact .quiet (quiet_cancelDeadlineTimer ..)
        (hok.move rfl id nofun hok.item)
  | clearFields item =>
      refine .onHeld (.clearTimer item) hok
        (by rw [view_storeArgs, if_pos rfl]) (.clear _ hok.now) ?_ rfl
        (fun j => next_setSlot _ j rfl) rfl hok.now rfl rfl nofun nofun rfl
      intro j hj
      rw [view_storeArgs, if_neg hj]
  | clearTimer item =>
      exact .quiet (quiet_storeTimer ..) (hok.move rfl id nofun hok.item)
  | storeFree item =>
      have hver : getVersion w.cid
          = (s.view (getSlotId w.cid)).word.version := by
        rw [((hi.cells _).holding t _ hok.now).2.2, ← hok.gen]
        exact hok.version
      refine .onHeld (.releaseLiveSlot item) hok
        (by rw [view_storeLifecycle, if_pos rfl, hver])
        (.storeFree _ hok.now) ?_ rfl
        (fun j => next_setSlot _ j rfl) rfl hok.now rfl rfl nofun
        (fun _ => rfl) rfl
      intro j hj
      rw [view_storeLifecycle, if_neg hj]
  | releaseLiveSlot item | subInFlight item =>
      exact .quiet ⟨rfl, rfl, rfl, rfl⟩ (hok.move rfl id id hok.item)
  | pushFreeSlot item =>
      obtain ⟨hpos, -, -⟩ := (hi.cells _).holding t _ hok.now
      have hfree := hok.free rfl
      have hopen : ¬ (s.view (getSlotId w.cid)).life.now.Closed := by
        rw [hok.now]
        exact id
      cases item with
      | some d =>
          refine .push hpos hopen (f := .released t) trivial
            (.release hok.now hfree) rfl rfl rfl rfl ?_
          intro v hv
          have hitem := hok.item d rfl
          refine ⟨?_, ?_, ?_, hok.version, ?_⟩
          · rw [hv, hok.gen]
            exact CellLife.setFate_now ..
          · rw [hok.gen]
            exact hpos
          · rw [hv, hok.gen]
            exact Nat.le_refl _
          · rw [hv]
            exact hitem
      | none =>
          refine .push hpos hopen (f := .discarded) trivial
            (.discard hok.now hfree) rfl rfl rfl rfl ?_
          intro v _
          cases w.after <;> trivial

omit [DecidableEq τ] in
/-- What a thread is told when a finalizer is done. -/
theorem After.won_ok (v : Cells τ) (a : After) (c : UInt64) :
    ThreadOk v t (a.won c) := by
  cases a <;> trivial

/-- The dispatch of a winner that gave its cell back. -/
theorem effect_execDispatch {w : Winner} {item : Dispatch} {s' : State τ}
    (hok : DispatchOk s.view t w item)
    (hs : execDispatch t w item s = some s') : Effect s s' t := by
  have key : ∀ (n : Nat) (s₁ : State τ), n ≤ 1 → s₁.view = s.view →
      s₁.table = s.table → s₁.threads = s.threads →
      Effect s ((s₁.setLife (getSlotId w.cid)
        (((s.lives (getSlotId w.cid)).dispatch w.gen n).setFate w.gen
          .dispatched)).setThread t (w.after.won w.cid)) t := by
    intro n s₁ hn hview htable hth
    have hcell : (s₁.setLife (getSlotId w.cid)
        (((s.lives (getSlotId w.cid)).dispatch w.gen n).setFate w.gen
          .dispatched)).view (getSlotId w.cid)
        = { s.view (getSlotId w.cid) with
            life := ((s.view (getSlotId w.cid)).life.dispatch w.gen
              n).setFate w.gen .dispatched } := by
      rw [view_setLife, if_pos rfl, hview]
      rfl
    refine .onCell (getSlotId w.cid) ?_ ?_ ?_ ?_ ?_ ?_ hth (After.won_ok ..)
    · rw [hcell]
      exact .dispatch w.gen n hn hok.fate
    · intro j hj
      rw [view_setLife, if_neg hj, hview]
    · rw [hcell]
      rfl
    · -- the winner gave the cell back before, so it was closed already
      rw [hcell, CellLife.setFate_now_eq]
      split
      · next hgen =>
        intro _
        have hnow : (s.view (getSlotId w.cid)).life.now = .released t := by
          have hfate := hok.fate
          rw [← hgen] at hfate
          exact hfate
        rw [hnow]
        trivial
      · exact id
    · exact congrArg SlotTable.freeHead htable
    · intro j
      show (s₁.table.slots j).nextFree = (s.table.slots j).nextFree
      rw [htable]
  unfold execDispatch at hs
  simp only at hs
  split at hs
  · injection hs with hs
    subst hs
    exact key 0 s (by omega) rfl rfl rfl
  · split at hs
    · cases hs
    · injection hs with hs
      subst hs
      exact key 1 _ (by omega) rfl rfl rfl

/-- One step of a running operation. -/
theorem effect_exec {cfg cfg' : TableConfig} (hi : Inv cfg' s) {pc : Pc}
    {s' : State τ} (hok : ThreadOk s.view t (.running pc))
    (hs : exec cfg t pc s = some s') : Effect s s' t := by
  cases pc with
  | alloc args p =>
      cases hs
      exact effect_execAlloc hi hok
  | publish c p =>
      cases hs
      exact effect_execPublish hi hok
  | discard c | responseCas c r =>
      simp only [exec] at hs
      split at hs
      · next h =>
        cases hs
        exact .win hi h (by decide) (by decide) rfl rfl rfl
      · cases hs
        exact .quiet ⟨rfl, rfl, rfl, rfl⟩ trivial
  | attachLoad c timerId =>
      simp only [exec] at hs
      split at hs
      · cases hs
        exact .quiet ⟨rfl, rfl, rfl, rfl⟩ trivial
      · split at hs
        · cases hs
          exact .quiet ⟨rfl, rfl, rfl, rfl⟩ trivial
        · cases hs
          exact .quiet ⟨rfl, rfl, rfl, rfl⟩ trivial
  | attachStore c timerId =>
      cases hs
      exact .quiet (quiet_storeTimer ..) trivial
  | responseUnknown c =>
      cases hs
      exact .quiet ⟨rfl, rfl, rfl, rfl⟩ trivial
  | responseLate c =>
      cases hs
      exact .quiet ⟨rfl, rfl, rfl, rfl⟩ trivial
  | resolvePending c r =>
      simp only [exec] at hs
      split at hs
      · cases hs
        exact .quiet ⟨rfl, rfl, rfl, rfl⟩ trivial
      · next pending hpending =>
        split at hs
        · next h =>
          cases hs
          exact .shift h (by decide) (pendingState_live hpending)
            fun _ => trivial
        · cases hs
          exact .quiet ⟨rfl, rfl, rfl, rfl⟩ trivial
  | transition c r after =>
      simp only [exec] at hs
      split at hs
      · next h =>
        cases hs
        exact .win hi h (by decide) (terminalState_not_live r) rfl rfl rfl
      · cases hs
        exact .quiet ⟨rfl, rfl, rfl, rfl⟩ (by cases after <;> trivial)
  | hold w p =>
      cases hs
      exact effect_execHold hi hok
  | dispatch w item => exact effect_execDispatch hok hs
  | failAllTake code message =>
      simp only [exec] at hs
      split at hs
      · cases hs
        exact .quiet ⟨rfl, rfl, rfl, rfl⟩ trivial
      · cases hs
        exact .quiet ⟨rfl, rfl, rfl, rfl⟩ trivial
  | failAllNext rest total code message =>
      simp only [exec] at hs
      split at hs
      · cases hs
        exact .quiet ⟨rfl, rfl, rfl, rfl⟩ trivial
      · cases hs

/-- Entering an operation. -/
theorem effect_invoke {cfg : TableConfig} (op : Op) :
    Effect s (invoke cfg t op s) t := by
  have hok : ThreadOk s.view t (enter cfg op) := by
    cases op with
    | allocateSlot args maxInFlight =>
        simp only [enter]
        split
        · exact Or.inl rfl
        · trivial
    | publishSlot c | discardArmingSlot c | attachDeadlineTimer c timerId
    | completeResponseSlot c r =>
        simp only [enter]
        split_ifs <;> trivial
    | timeoutSlot c m | cancelSlot c m | failSlot c code m =>
        simp only [enter, resolveTerminal]
        split_ifs <;> trivial
    | failAllActiveSlots code message => trivial
  unfold invoke
  cases op <;> exact .quiet ⟨rfl, rfl, rfl, rfl⟩ hok

/-- The thread that takes an action. The client's own writes are
nobody's step. -/
def Action.thread : Action τ → Option τ
  | .invoke t _ | .step t | .spurious t | .pick t _ | .collect t => some t
  | .client _ _ => none

/-- Every action is an effect of its thread, or shows on no cell. -/
theorem effect_apply {cfg cfg' : TableConfig} (hi : Inv cfg' s)
    {a : Action τ} {s' : State τ} (hs : apply cfg a s = some s') :
    match a.thread with
    | some t => Effect s s' t
    | none => Quiet s s' := by
  cases a with
  | invoke t op =>
      simp only [apply] at hs
      split at hs
      · cases hs
        exact effect_invoke op
      · cases hs
  | step t =>
      simp only [apply] at hs
      split at hs
      · next pc hpc => exact effect_exec hi (hpc ▸ hi.threads t) hs
      · cases hs
  | spurious t =>
      simp only [apply] at hs
      split at hs
      · split at hs
        · cases hs
          exact .quiet ⟨rfl, rfl, rfl, rfl⟩ trivial
        · cases hs
      · cases hs
  | pick t c =>
      simp only [apply] at hs
      split at hs
      · next pc hpc =>
        cases pc with
        | failAllNext rest total code message =>
            simp only [execPick] at hs
            split_ifs at hs <;> cases hs
            · exact .quiet ⟨rfl, rfl, rfl, rfl⟩ trivial
            · exact .quiet ⟨rfl, rfl, rfl, rfl⟩ trivial
        | _ => cases hs
      · cases hs
  | collect t =>
      simp only [apply] at hs
      split at hs
      · cases hs
        exact .quiet ⟨rfl, rfl, rfl, rfl⟩ trivial
      · cases hs
  | client heap metrics =>
      cases hs
      exact ⟨rfl, rfl, rfl, rfl⟩

end Effects

-- == the actions

/-- How an action that is not a step of an operation moves the thread
that takes it. -/
inductive Moves (cfg : TableConfig) (t : τ) :
    Action τ → Thread → Thread → Prop
  | call (op : Op) : Moves cfg t (.invoke t op) .idle (enter cfg op)
  | retry {args : CallArgs} {limit current next : Nat} :
      Moves cfg t (.spurious t)
        (.running (.alloc args (.casActive limit current)))
        (.running (.alloc args (.casActive limit next)))
  | fail {rest : List UInt64} {total : Nat} {code : Int32}
      {message : String} (c : UInt64) :
      Moves cfg t (.pick t c)
        (.running (.failAllNext rest total code message))
        (.running (.transition c (.failed code message)
          (.failAll (rest.erase c) total code message)))
  | skip {rest : List UInt64} {total : Nat} {code : Int32}
      {message : String} (c : UInt64) :
      Moves cfg t (.pick t c)
        (.running (.failAllNext rest total code message))
        (.running (.failAllNext (rest.erase c) total code message))
  | collect (r : Result) : Moves cfg t (.collect t) (.returned r) .idle

theorem Moves.thread {cfg : TableConfig} {t : τ} {a : Action τ}
    {th th' : Thread} (h : Moves cfg t a th th') : a.thread = some t := by
  cases h <;> rfl

/-- What an action is: a step of a running operation, a move of a thread
alone, or the client's own doing. -/
inductive Acts [DecidableEq τ] (cfg : TableConfig) (s : State τ) :
    Action τ → State τ → Prop
  | step {t : τ} {pc : Pc} {s' : State τ} (hpc : s.threads t = .running pc)
      (hs : exec cfg t pc s = some s') : Acts cfg s (.step t) s'
  | move {t : τ} {a : Action τ} {th : Thread} (published : UInt64 → Nat)
      (h : Moves cfg t a (s.threads t) th) :
      Acts cfg s a ({ s with published := published }.setThread t th)
  | client (heap : Heap) (metrics : ClientMetrics) :
      Acts cfg s (.client heap metrics)
        { s with
          heap := heap
          metrics := { metrics with
            activeInFlight := s.metrics.activeInFlight } }

theorem invoke_thread [DecidableEq τ] (t : τ) (op : Op) (s : State τ)
    (cfg : TableConfig) :
    (invoke cfg t op s).threads t = enter cfg op := by
  cases op <;> exact Function.update_self ..

theorem apply_acts [DecidableEq τ] {cfg : TableConfig} {s s' : State τ}
    {a : Action τ} (hs : apply cfg a s = some s') : Acts cfg s a s' := by
  have hmove : ∀ {t : τ} {a : Action τ} {th th' : Thread}
      {published : UInt64 → Nat}, s.threads t = th → Moves cfg t a th th' →
      Acts cfg s a ({ s with published := published }.setThread t th') :=
    fun hth h => .move _ (hth ▸ h)
  cases a with
  | invoke t op =>
      simp only [apply] at hs
      split at hs <;> cases hs
      next hidle =>
      unfold invoke
      cases op <;> exact hmove hidle (.call _)
  | step t =>
      simp only [apply] at hs
      split at hs
      · next pc hpc => exact .step hpc hs
      · cases hs
  | spurious t =>
      simp only [apply] at hs
      split at hs
      · next hpc =>
        split at hs <;> cases hs
        exact hmove hpc .retry
      · cases hs
  | pick t c =>
      simp only [apply] at hs
      split at hs
      · next pc hpc =>
        cases pc with
        | failAllNext rest total code message =>
            simp only [execPick] at hs
            split_ifs at hs <;> cases hs
            · exact hmove hpc (.fail c)
            · exact hmove hpc (.skip c)
        | _ => cases hs
      · cases hs
  | collect t =>
      simp only [apply] at hs
      split at hs
      · next r hr =>
        cases hs
        exact hmove hr (.collect r)
      · cases hs
  | client heap metrics =>
      cases hs
      exact .client heap metrics

-- == the invariant

/-- A change nobody sees keeps the invariant. -/
theorem Quiet.inv {cfg : TableConfig} {s s' : State τ} (hq : Quiet s s')
    (hi : Inv cfg s) : Inv cfg s' := by
  obtain ⟨l, hl⟩ := hi.freeList
  refine ⟨?_, ?_, ?_, l, ?_, hl.nodup, ?_, hl.bound, ?_⟩
  · rw [hq.view]
    exact hi.cells
  · rw [hq.view, hq.threads]
    exact hi.threads
  · rw [hq.view]
    exact hi.popped
  · rw [hq.next, hq.head]
    exact hl.chain
  · rw [hq.view]
    exact hl.closed
  · rw [hq.view]
    exact hl.complete

/-- The constructor's links visit every cell that can be allocated. -/
theorem freeList_init (cfg : TableConfig) {s : State τ}
    (hs : Start cfg s) : ∃ l, FreeList cfg s l := by
  obtain ⟨heap, rfl⟩ := hs
  have hpos := cfg.capacity_pos
  have hinvalid : invalidSlot.toNat = 2 ^ 32 - 1 := rfl
  -- the last id is `INVALID_SLOT` itself, so it is never linked to
  obtain ⟨n, hn⟩ : ∃ n, min cfg.capacity (2 ^ 32 - 1) = n + 1 :=
    ⟨min cfg.capacity (2 ^ 32 - 1) - 1, by omega⟩
  have hid : ∀ i, i < n + 1 → (UInt32.ofNat i).toNat = i := by
    intro i hi
    rw [UInt32.toNat_ofNat']
    omega
  refine ⟨(List.range' 0 (n + 1)).map UInt32.ofNat, ?_, ?_, ?_, ?_, ?_⟩
  · refine Lib.Chain.of_range (f := UInt32.ofNat) (n := n + 1) ?_ ?_ ?_ n 0
      (by omega)
    · intro i hi heq
      have := congrArg UInt32.toNat heq
      rw [hid i hi, hinvalid] at this
      omega
    · intro i hi
      show (if (UInt32.ofNat i).toNat + 1 < cfg.capacity then _ else _) = _
      rw [hid i (by omega), if_pos (by omega)]
    · intro _
      show (if (UInt32.ofNat (n + 1 - 1)).toNat + 1 < cfg.capacity
        then UInt32.ofNat ((UInt32.ofNat (n + 1 - 1)).toNat + 1)
        else invalidSlot) = invalidSlot
      rw [hid _ (by omega)]
      split
      · next hlt =>
        rw [show n + 1 - 1 + 1 = 2 ^ 32 - 1 by omega]
        rfl
      · rfl
  · refine List.Nodup.map_on ?_ (List.nodup_range')
    intro a ha b hb hab
    rw [List.mem_range'_1] at ha hb
    rw [← hid a (by omega), ← hid b (by omega), hab]
  · intro i _
    trivial
  · intro i hi
    obtain ⟨k, hk, rfl⟩ := List.mem_map.mp hi
    rw [List.mem_range'_1] at hk
    rw [hid k (by omega)]
    omega
  · intro i hne hi _
    have hlt : i.toNat < n + 1 := by
      have hne' : i.toNat ≠ invalidSlot.toNat :=
        fun h => hne (UInt32.toNat_inj.mp h)
      have := i.toNat_lt
      omega
    refine List.mem_map.mpr ⟨i.toNat, ?_, UInt32.ofNat_toNat⟩
    rw [List.mem_range'_1]
    omega

theorem inv_init (cfg : TableConfig) {s : State τ} (hs : Start cfg s) :
    Inv cfg s := by
  refine ⟨?_, ?_, ?_, freeList_init cfg hs⟩
  · obtain ⟨heap, rfl⟩ := hs
    exact fun i => cellInv_init
  · obtain ⟨heap, rfl⟩ := hs
    exact fun t => trivial
  · obtain ⟨heap, rfl⟩ := hs
    exact fun i hpos => absurd hpos (Nat.lt_irrefl 0)

variable [DecidableEq τ]

/-- Every action keeps the invariant. -/
theorem inv_apply {cfg : TableConfig} {s s' : State τ} {a : Action τ}
    (hi : Inv cfg s) (hs : apply cfg a s = some s') : Inv cfg s' := by
  have he := effect_apply hi hs
  cases hth : a.thread with
  | some t =>
      rw [hth] at he
      exact Effect.inv he hi
  | none =>
      rw [hth] at he
      exact Quiet.inv he hi

/-- The ownership invariant holds in every run. -/
theorem inv_reachable {cfg : TableConfig} {s : State τ}
    (h : (machine cfg).Reachable s) : Inv cfg s :=
  h.invariant (I := Inv cfg) (fun _ hs => inv_init cfg hs)
    fun _ _ _ _ hi _ hs => inv_apply hi hs

end AntRpc.Slot
