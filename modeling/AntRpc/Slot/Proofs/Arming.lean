/-
A call between `AllocateSlot` and the compare-and-swap that publishes or
discards it: nobody else touches it, and the first cancellation or
timeout that finds it is the one its sender delivers.

# Left alone

While the word of a cell says ARMING or pending, its allocation is live
and nobody holds the cell. The table writes a caller's objects, records,
dispatches and recycles only through cells that are held, or for
allocations that were (`Unsent`). A step of anything but `PublishSlot`
and `DiscardArmingSlot` of this very id leaves the word as it is or
turns ARMING into a pending state (`Unsent.step`), and a pending state
stays (`unsent_run`).

# Delivered

A `PublishSlot` that finds a pending state ends with delivering it,
whether the connection failed meanwhile or not: `Delivery n` is the road
there with `n` steps of the sender left, and nobody else's step leads
off it.
-/
import AntRpc.Slot.Proofs.Accounts

namespace AntRpc.Slot

open Lib

variable {τ : Type}

-- == left alone

/-- Allocation `g` of the cell `c` names is armed and not published. -/
structure Unsent (s : State τ) (c : UInt64) (g : Nat) (st : SlotState) :
    Prop where
  word : s.word (getSlotId c) = ⟨getVersion c, st⟩
  unpublished : st.Unpublished
  gen : (s.lives (getSlotId c)).gen = g

/-- A step in `PublishSlot(c)` or `DiscardArmingSlot(c)` that compares
and swaps the word. -/
def senderCas (c : UInt64) (s : State τ) : Action τ → Bool
  | .step t =>
      match s.threads t with
      | .running (.publish d p) =>
          d == c && match p with
            | .failArming _ _ | .publish | .deliverPending _ _ => true
            | _ => false
      | .running (.discard d) => d == c
      | _ => false
  | _ => false

/-- A thread is at work on a call that it won, in another cell, whose
arguments meet `p`. -/
def Shares (s : State τ) (c : UInt64) (p : CallArgs → Prop) : Prop :=
  ∃ t w q, s.threads t = .running (.hold w q)
    ∧ getSlotId w.cid ≠ getSlotId c ∧ p (s.args (getSlotId w.cid))

/-- What the table leaves alone in a step: the objects of the call, unless
they are those of another call that is just being resolved, its
continuation and its cell. -/
structure Spared (s s' : State τ) (c : UInt64) (g : Nat) : Prop where
  heap : s'.heap = s.heap
    ∨ ∃ i, i ≠ getSlotId c ∧ Writes s.heap s'.heap (s.args i)
  controller : ∀ k, (s.args (getSlotId c)).controller = some k →
    s'.heap.controllers k = s.heap.controllers k
      ∨ Shares s c fun args => args.controller = some k
  response : ∀ m, (s.args (getSlotId c)).responseMsg = some m →
    s'.heap.messages m = s.heap.messages m
      ∨ Shares s c fun args => args.responseMsg = some m
  rawBody : ∀ b, (s.args (getSlotId c)).rawRespBody = some b →
    s'.heap.rawBodies b = s.heap.rawBodies b
      ∨ Shares s c fun args => args.rawRespBody = some b
  scheduled : ∀ e ∈ s'.scheduled, e.slot = getSlotId c → e.gen ≠ g
  completed : ∀ e ∈ s'.completed, e.slot = getSlotId c → e.gen ≠ g
  args : s'.args (getSlotId c) = s.args (getSlotId c)
  fate : (s'.lives (getSlotId c)).gen = g
    ∧ (s'.lives (getSlotId c)).now = .live

section Unsent

variable [DecidableEq τ] {cfg cfg' : TableConfig} {s s' : State τ} {t : τ}
  {c : UInt64} {g : Nat} {st : SlotState}

omit [DecidableEq τ] in
/-- A step that writes nobody's objects. -/
theorem Spared.same (hheap : s'.heap = s.heap)
    (hlogged : (∀ e ∈ s'.scheduled, e.slot = getSlotId c → e.gen ≠ g)
      ∧ ∀ e ∈ s'.completed, e.slot = getSlotId c → e.gen ≠ g)
    (hargs : s'.args (getSlotId c) = s.args (getSlotId c))
    (hfate : (s'.lives (getSlotId c)).gen = g
      ∧ (s'.lives (getSlotId c)).now = .live) : Spared s s' c g where
  heap := .inl hheap
  controller _ _ := .inl (by rw [hheap])
  response _ _ := .inl (by rw [hheap])
  rawBody _ _ := .inl (by rw [hheap])
  scheduled := hlogged.1
  completed := hlogged.2
  args := hargs
  fate := hfate

omit [DecidableEq τ] in
theorem Unsent.of_view (h : Unsent s c g st) (hv : s'.view = s.view) :
    Unsent s' c g st := by
  have hcell := congrFun hv (getSlotId c)
  exact ⟨(congrArg CellView.word hcell).trans h.word, h.unpublished,
    (congrArg (fun v => v.life.gen) hcell).trans h.gen⟩

omit [DecidableEq τ] in
theorem Unsent.live (h : Unsent s c g st) (hi : Inv cfg s) :
    (s.view (getSlotId c)).life.now = .live :=
  (hi.cells _).live_of_state
    (show (s.word (getSlotId c)).state.Live by
      rw [h.word]
      exact h.unpublished.live)

omit [DecidableEq τ] in
/-- Nobody holds the cell. -/
theorem Unsent.not_held (h : Unsent s c g st) (hi : Inv cfg s) {w : Winner}
    {p : HoldPc} (hth : s.threads t = .running (.hold w p)) :
    getSlotId w.cid ≠ getSlotId c := by
  intro heq
  have hok : ThreadOk s.view t (.running (.hold w p)) := hth ▸ hi.threads t
  have hnow := HoldOk.now hok
  rw [heq, h.live hi] at hnow
  cases hnow

omit [DecidableEq τ] in
/-- Nothing was scheduled or recorded for the allocation. -/
theorem Unsent.unlogged (h : Unsent s c g st) (hi : Inv cfg s)
    (hl : Logged s) :
    (∀ e ∈ s.scheduled, e.slot = getSlotId c → e.gen ≠ g)
      ∧ ∀ e ∈ s.completed, e.slot = getSlotId c → e.gen ≠ g := by
  have hlive := h.live hi
  have hnow : (s.lives (getSlotId c)).fate g = .live := h.gen ▸ hlive
  have hdis : (s.lives (getSlotId c)).dispatches g = 0 := by
    have hle := (hi.cells (getSlotId c)).dispatches g
    change _ ≤ ((s.lives (getSlotId c)).fate g).maxDispatches at hle
    rw [hnow] at hle
    exact Nat.le_zero.mp hle
  have hrec : (s.lives (getSlotId c)).records g = 0 := by
    have heq := (hi.cells (getSlotId c)).records g
    change _ = ((s.lives (getSlotId c)).fate g).recorded at heq
    rw [hnow] at heq
    exact heq
  rw [← hl.scheduled, List.countP_eq_zero] at hdis
  rw [← hl.completed, List.countP_eq_zero] at hrec
  refine ⟨fun e he hs hg => hdis e he ?_, fun e he hs hg => hrec e he ?_⟩ <;>
    exact decide_eq_true ⟨hs, hg⟩

/-- A step that is not the sender's compare-and-swap keeps the word, or
records a pending resolution in an ARMING one. -/
theorem Unsent.step (h : Unsent s c g st) (hi : Inv cfg' s) {pc : Pc}
    (hpc : s.threads t = .running pc) (hs : exec cfg t pc s = some s')
    (hcas : senderCas c s (.step t) = false) :
    ∃ st', Unsent s' c g st' ∧ (st' = st ∨ st = .arming) := by
  have hok : ThreadOk s.view t (.running pc) := hpc ▸ hi.threads t
  have hlive : (s.word (getSlotId c)).state.Live := by
    rw [h.word]
    exact h.unpublished.live
  have hgen : (s'.lives (getSlotId c)).gen = g :=
    (((effect_exec hi hok hs).sim _).of_live (hi.cells _) hlive).1.trans h.gen
  have hword := exec_word hi hok hs hlive
  rw [h.word] at hword
  have hsame : ∀ d, getSlotId d = getSlotId c →
      getVersion d = getVersion c → d = c := by
    intro d hd hv
    rw [← make_get d, ← make_get c, hd, hv]
  generalize hw' : s'.word (getSlotId c) = w' at hword
  cases hword with
  | same => exact ⟨st, ⟨hw', h.unpublished, hgen⟩, Or.inl rfl⟩
  | publish d hd hslot hw | discard d st' hd hslot hw hst =>
      cases hsame d hslot (congrArg Lifecycle.version hw).symm
      simp [senderCas, hpc, hd] at hcas
  | defer d r st' hd hslot hw hst =>
      cases hsame d hslot (congrArg Lifecycle.version hw).symm
      exact ⟨st', ⟨hw', Or.inr hst, hgen⟩,
        Or.inr (congrArg Lifecycle.state hw)⟩
  | take d st' hd hslot hw hst =>
      have hst' : st = .inFlight := congrArg Lifecycle.state hw
      rcases h.unpublished with rfl | rfl | rfl <;> cases hst'
  | deliver d p st' hd hp hslot hv hst =>
      cases hsame d hslot hv.symm
      subst hd
      -- the other steps of `PublishSlot` leave the word alone
      have hkeeps : s'.word (getSlotId c) = s.word (getSlotId c) →
          ∃ st', Unsent s' c g st' ∧ (st' = st ∨ st = .arming) :=
        fun heq => ⟨st, ⟨heq.trans h.word, h.unpublished, hgen⟩, Or.inl rfl⟩
      cases p with
      | registerPublishedSlot =>
          cases hs
          refine hkeeps ?_
          simp only [execPublish]
          split <;> rfl
      | unregisterPublishedSlot observed =>
          cases hs
          have hview : (publishLost t c observed (s.setActiveCalls
              (s.table.activeCalls.erase c))).view = s.view :=
            publishLost_view observed
          exact hkeeps (congrArg (fun v => (v (getSlotId c)).word) hview)
      | failArming | publish | deliverPending =>
          simp [senderCas, hpc] at hcas
      | takeConnectionFailure | failInFlight => cases hp

/-- The table leaves the call alone in every step that is not the
sender's compare-and-swap. -/
theorem Unsent.spared (h : Unsent s c g st) (hi : Inv cfg s)
    (hl : Logged s) {a : Action τ} (hs : apply cfg a s = some s')
    (ha : a.thread.isSome = true) (hcas : senderCas c s a = false) :
    Spared s s' c g := by
  have hlogged := h.unlogged hi hl
  cases apply_acts hs with
  | client => cases ha
  | move published hm =>
      exact .same rfl hlogged rfl ⟨h.gen, h.live hi⟩
  | @step t pc _ hpc hs =>
      have hok : ThreadOk s.view t (.running pc) := hpc ▸ hi.threads t
      obtain ⟨st', h', -⟩ := h.step hi hpc hs hcas
      have he := effect_exec hi hok hs
      have hi' := he.inv hi
      have hlogged' := h'.unlogged hi' (logged_exec hi hok hs hl)
      -- a live cell keeps its allocation's arguments
      have hargs : s'.args (getSlotId c) = s.args (getSlotId c) := by
        have hfields := ((hi.cells _).live (h.live hi)).2.2.2
        have hfields' := ((hi'.cells _).live (h'.live hi')).2.2.2
        have hsame := ((he.sim (getSlotId c)).of_live (hi.cells _)
          ((hi.cells _).live (h.live hi)).2.1)
        change s.args _ = _ at hfields
        change s'.args _ = _ at hfields'
        rw [hfields, hfields', hsame.1, hsame.2.1]
      by_cases hhold : ∃ w p, pc = .hold w p
      · obtain ⟨w, p, rfl⟩ := hhold
        cases hs
        rcases execHold_writes cfg t w p s with hsame | ⟨-, hwrites⟩
        · exact .same hsame hlogged' hargs ⟨h'.gen, h'.live hi'⟩
        · have hne := h.not_held hi hpc
          -- what is not the winner's own is not written
          have hshares {q : CallArgs → Prop} {same : Prop}
              (hq : ¬ q (s.args (getSlotId w.cid)) → same) :
              same ∨ Shares s c q :=
            (em (q (s.args (getSlotId w.cid)))).symm.imp hq
              fun hyes => ⟨t, w, p, hpc, hne, hyes⟩
          exact ⟨Or.inr ⟨_, hne, hwrites⟩,
            fun k _ => hshares (hwrites.controllers k),
            fun m _ => hshares (hwrites.messages m),
            fun b _ => hshares (hwrites.rawBodies b), hlogged'.1,
            hlogged'.2, hargs, h'.gen, h'.live hi'⟩
      · refine .same ?_ hlogged' hargs ⟨h'.gen, h'.live hi'⟩
        by_cases hd : ∃ w d, pc = .dispatch w d
        · obtain ⟨w, d, rfl⟩ := hd
          exact (execDispatch_scheduled hs).1
        · exact (exec_outside hs (fun w p hp => hhold ⟨w, p, hp⟩)
            fun w d hp => hd ⟨w, d, hp⟩).1

/-- Until the sender's compare-and-swap the call stays unsent, and the
first resolution recorded stays. -/
theorem unsent_run {s₀ : State τ} (h₀ : (machine cfg).Reachable s₀)
    (hun : Unsent s₀ c g st)
    (h : ((machine cfg).startedAt s₀).Reach
      (fun s a => senderCas c s a = false) s) :
    ∃ st', Unsent s c g st' ∧ (st' = st ∨ st = .arming) := by
  induction h with
  | start h => exact ⟨st, h ▸ hun, Or.inl rfl⟩
  | @step s s' a hr hcas hs ih =>
      obtain ⟨st₁, h₁, hst₁⟩ := ih
      have hi := inv_reachable (h₀.onward hr)
      cases apply_acts hs with
      | step hpc hs =>
          obtain ⟨st₂, h₂, hst₂⟩ := h₁.step hi hpc hs hcas
          refine ⟨st₂, h₂, ?_⟩
          rcases hst₁ with rfl | hst₁
          · exact hst₂
          · exact Or.inr hst₁
      | move published hm =>
          exact ⟨st₁, ⟨h₁.word, h₁.unpublished, h₁.gen⟩, hst₁⟩
      | client heap metrics =>
          exact ⟨st₁, ⟨h₁.word, h₁.unpublished, h₁.gen⟩, hst₁⟩

end Unsent

-- == delivered

/-- Allocation `g` of the cell `c` names was recorded with the code of
`r`. -/
def Recorded (s : State τ) (c : UInt64) (g : Nat) (r : SlotResolution) :
    Prop :=
  ∃ e ∈ s.completed, e.slot = getSlotId c ∧ e.gen = g
    ∧ e.code = r.errorCode

/-- Steps from a point of `PublishSlot` to its winning compare-and-swap,
if it finds the state `st` pending for `c`. -/
def PublishPc.toWin (c : UInt64) (st : SlotState) (r : SlotResolution) :
    PublishPc → Option Nat
  | .registerPublishedSlot => some 4
  | .publish => some 3
  | .failArming _ _ => some 2
  | .unregisterPublishedSlot observed =>
      if observed = ⟨getVersion c, st⟩ then some 2 else none
  | .deliverPending st' r' => if st' = st ∧ r' = r then some 1 else none
  | .takeConnectionFailure | .failInFlight _ _ => none

/-- Steps from a point of a winner that delivers `r` to giving the cell
back. -/
def HoldPc.toRelease (r : SlotResolution) : HoldPc → Option Nat
  | .failureClear r' => if r' = r then some 13 else none
  | .failureApply r' => if r' = r then some 12 else none
  | .readTask code => if code = r.errorCode then some 11 else none
  | .takeNotify code _ => if code = r.errorCode then some 10 else none
  | .recordCompletion code _ => if code = r.errorCode then some 9 else none
  | .unregister _ => some 8
  | .cancelTimer _ => some 7
  | .clearFields (some _) => some 6
  | .clearTimer (some _) => some 5
  | .storeFree (some _) => some 4
  | .releaseLiveSlot (some _) => some 3
  | .subInFlight (some _) => some 2
  | .pushFreeSlot (some _) => some 1
  | _ => none

/-- The publisher `t` is on its way to deliver the resolution `r` that
the state `st` stands for, with `n` steps left. -/
inductive Delivery (s : State τ) (t : τ) (c : UInt64) (g : Nat)
    (st : SlotState) (r : SlotResolution) : Nat → Prop
  | waiting (p : PublishPc) (n : Nat)
      (hth : s.threads t = .running (.publish c p))
      (hun : Unsent s c g st) (hp : p.toWin c st r = some n) :
      Delivery s t c g st r (n + 14)
  | won (p : HoldPc) (n : Nat)
      (hth : s.threads t
        = .running (.hold ⟨c, g, .publish (pendingOutcome r)⟩ p))
      (hp : p.toRelease r = some n)
      (hrec : p.recorded = true → Recorded s c g r) :
      Delivery s t c g st r (n + 1)
  | released (item : Dispatch)
      (hth : s.threads t
        = .running (.dispatch ⟨c, g, .publish (pendingOutcome r)⟩ item))
      (hrec : Recorded s c g r) : Delivery s t c g st r 1
  | done
      (hth : s.threads t = .returned (.published c (pendingOutcome r)))
      (hrec : Recorded s c g r) : Delivery s t c g st r 0

/-- Only `t` runs `PublishSlot(c)` and `DiscardArmingSlot(c)`, and it has
not come back for its result. -/
def soleSender (t : τ) (c : UInt64) (s : State τ) (a : Action τ) : Prop :=
  a ≠ .collect t ∧ ∀ u, a = .step u → u ≠ t →
    s.threads u ≠ .running (.discard c)
      ∧ ∀ p, s.threads u ≠ .running (.publish c p)

/-- The caller's controller says that the call failed as in `r`. -/
def Told (s : State τ) (k : Nat) (r : SlotResolution) : Prop :=
  (s.heap.controllers k).failed = true
    ∧ (s.heap.controllers k).errorCode = r.errorCode
    ∧ (s.heap.controllers k).errorText = r.errorMessage

/-- Every allocation comes with an executor. -/
structure Staffed (s : State τ) : Prop where
  threads : ∀ t args p, s.threads t = .running (.alloc args p) →
    args.executor ≠ none
  lives : ∀ i g, 0 < g → g ≤ (s.lives i).gen →
    ((s.lives i).argsOf g).executor ≠ none

section Staffed

variable [DecidableEq τ] {cfg : TableConfig} {s s' : State τ} {t : τ}

omit [DecidableEq τ] in
/-- `AllocateSlot` turns away a caller without an executor. -/
theorem Moves.staffed {a : Action τ} {th : Thread} {args : CallArgs}
    {p : AllocPc} (h : Moves cfg t a th (.running (.alloc args p)))
    (hth : ∀ q, th = .running (.alloc args q) → args.executor ≠ none) :
    args.executor ≠ none := by
  generalize hth' : Thread.running (.alloc args p) = th' at h
  cases h with
  | call op =>
      cases op with
      | allocateSlot args' maxInFlight =>
          simp only [enter] at hth'
          split at hth' <;> cases hth'
          next hno => exact fun hnone => hno (Or.inl hnone)
      | failAllActiveSlots code message => cases hth'
      | _ =>
          simp only [enter, resolveTerminal] at hth'
          split_ifs at hth'
          all_goals cases hth'
  | retry =>
      cases hth'
      exact hth _ rfl
  | fail | skip | collect => cases hth'

/-- Every allocation comes with an executor, in every run. -/
theorem staffed_reachable (h : (machine cfg).Reachable s) : Staffed s := by
  refine h.invariant (I := Staffed) ?_ ?_
  · rintro s ⟨heap, rfl⟩
    refine ⟨fun t args p hth => ?_, fun i g hpos hle => ?_⟩
    · cases hth
    · exact absurd hle (Nat.not_le.mpr hpos)
  · intro s s' a hr hstaff _ hs
    cases apply_acts hs with
    | client => exact ⟨hstaff.threads, hstaff.lives⟩
    | @move t _ th published hm =>
        refine ⟨fun u args p hth => ?_, hstaff.lives⟩
        by_cases hu : u = t
        · subst hu
          rw [setThread_thread] at hth
          subst hth
          exact hm.staffed fun q hq => hstaff.threads u args q hq
        · exact hstaff.threads u args p
            ((Function.update_of_ne hu ..).symm.trans hth)
    | @step t pc _ hpc hs =>
        have hi := inv_reachable hr
        have hok : ThreadOk s.view t (.running pc) := hpc ▸ hi.threads t
        have he := effect_exec hi hok hs
        refine ⟨fun u args p hth => ?_, fun i g hpos hle => ?_⟩
        · by_cases hu : u = t
          · subst hu
            have hdoing := exec_doing hok hs
            rw [hth] at hdoing
            obtain ⟨q, rfl⟩ := Pc.alloc_of_job (show pc.job = _ from
              hdoing.symm)
            exact hstaff.threads u args q hpc
          · exact hstaff.threads u args p ((he.others u hu).symm.trans hth)
        · by_cases hgen : (s'.lives i).gen = (s.lives i).gen
          · have hargs : (s'.lives i).argsOf g = (s.lives i).argsOf g :=
              (he.sim i).argsOf_eq (show g ≤ (s.lives i).gen from hgen ▸ hle)
            rw [hargs]
            exact hstaff.lives i g hpos (hgen ▸ hle)
          · -- the cell was just taken, for the allocation that took it
            obtain ⟨args, rfl, hpop⟩ := (exec_lives hs).pop_of_gen hgen
            rw [hpop] at hle ⊢
            rw [CellLife.pop_argsOf]
            split
            · exact hstaff.threads t args _ hpc
            · next hne =>
              simp only [CellLife.pop_gen] at hle
              exact hstaff.lives i g hpos (by omega)

end Staffed

section Delivery

variable [DecidableEq τ] {cfg cfg' : TableConfig} {s s' s₁ : State τ}
  {t u : τ} {c : UInt64} {g n : Nat} {st : SlotState} {r : SlotResolution}

omit [DecidableEq τ] in
theorem Recorded.mono (h : Recorded s c g r)
    (hlog : ∀ e ∈ s.completed, e ∈ s'.completed) : Recorded s' c g r := by
  obtain ⟨e, he, hrest⟩ := h
  exact ⟨e, hlog e he, hrest⟩

/-- A publisher that lost its compare-and-swap to the pending state goes
to deliver it. -/
theorem publishLost_delivers (hr : pendingResolution st = some r) :
    (publishLost t c ⟨getVersion c, st⟩ s).threads t
      = .running (.publish c (.deliverPending st r)) := by
  unfold publishLost
  rw [if_pos rfl]
  simp only [hr]
  exact goto_thread ..

/-- The sender's own step before it wins. -/
theorem Delivery.publish {p : PublishPc} (hr : pendingResolution st = some r)
    (hun : Unsent s c g st) (hp : p.toWin c st r = some n) :
    ∃ m, 14 ≤ m ∧ m < n + 14
      ∧ Delivery (execPublish t c p s) t c g st r m := by
  have hne : s.word (getSlotId c) ≠ ⟨getVersion c, .arming⟩ := by
    rw [hun.word]
    intro heq
    cases congrArg Lifecycle.state heq
    cases hr
  cases p with
  | registerPublishedSlot =>
      cases hp
      simp only [execPublish]
      split
      · exact ⟨3 + 14, by omega, by omega, .waiting .publish 3
          (goto_thread ..) (hun.of_view rfl) rfl⟩
      · exact ⟨2 + 14, by omega, by omega, .waiting (.failArming _ _) 2
          (goto_thread ..) (hun.of_view rfl) rfl⟩
  | publish =>
      cases hp
      simp only [execPublish, if_neg hne]
      exact ⟨2 + 14, by omega, by omega, .waiting _ 2 (goto_thread ..)
        (hun.of_view rfl) (if_pos hun.word)⟩
  | failArming code message =>
      cases hp
      simp only [execPublish, if_neg hne]
      rw [hun.word]
      exact ⟨1 + 14, by omega, by omega, .waiting (.deliverPending st r) 1
        (publishLost_delivers hr) (hun.of_view (publishLost_view _))
        (if_pos ⟨rfl, rfl⟩)⟩
  | unregisterPublishedSlot observed =>
      simp only [PublishPc.toWin] at hp
      split at hp
      · next heq =>
        cases hp
        subst heq
        have hview : (publishLost t c ⟨getVersion c, st⟩ (s.setActiveCalls
            (s.table.activeCalls.erase c))).view = s.view :=
          publishLost_view _
        exact ⟨1 + 14, by omega, by omega, .waiting (.deliverPending st r) 1
          (publishLost_delivers hr) (hun.of_view hview)
          (if_pos ⟨rfl, rfl⟩)⟩
      · cases hp
  | deliverPending st' r' =>
      simp only [PublishPc.toWin] at hp
      split at hp
      · next heq =>
        cases hp
        obtain ⟨rfl, rfl⟩ := heq
        simp only [execPublish, if_pos hun.word]
        refine ⟨13 + 1, by omega, by omega, .won (.failureClear r') 13 ?_
          (if_pos rfl) (by rintro ⟨⟩)⟩
        rw [← hun.gen]
        exact goto_thread ..
      · cases hp
  | takeConnectionFailure | failInFlight => cases hp

/-- The sender's own step while it holds the cell. -/
theorem Delivery.hold {p : HoldPc} (hp : p.toRelease r = some n)
    (hrec : p.recorded = true → Recorded s c g r) :
    Delivery (execHold cfg t ⟨c, g, .publish (pendingOutcome r)⟩ p s) t c g
      st r n := by
  -- a step on the road that records nothing
  have hgo : ∀ {s₁ : State τ} {q : HoldPc} {m : Nat},
      s₁.completed = s.completed → q.toRelease r = some m →
      q.recorded = p.recorded →
      Delivery (s₁.goto t (.hold ⟨c, g, .publish (pendingOutcome r)⟩ q)) t
        c g st r (m + 1) := by
    intro s₁ q m hlog hq hsame
    refine .won q m (goto_thread ..) hq fun hq' => ?_
    refine (hrec (hsame ▸ hq')).mono fun e he => ?_
    show e ∈ s₁.completed
    exact hlog ▸ he
  have hctl : ∀ (i : UInt32) (f : Controller → Controller),
      (s.onController i f).completed = s.completed := by
    intro i f
    unfold State.onController
    split <;> rfl
  have htimer : ∀ i : UInt32,
      (s.cancelDeadlineTimer i).completed = s.completed := by
    intro i
    unfold State.cancelDeadlineTimer
    simp only
    split <;> rfl
  cases p with
  | failureClear r' =>
      obtain ⟨heq, ⟨⟩⟩ := Option.ite_none_right_eq_some.mp hp
      exact hgo (hctl ..) (if_pos heq) rfl
  | failureApply r' =>
      obtain ⟨heq, ⟨⟩⟩ := Option.ite_none_right_eq_some.mp hp
      exact hgo (hctl ..) (if_pos (congrArg _ heq)) rfl
  | readTask code =>
      obtain ⟨heq, ⟨⟩⟩ := Option.ite_none_right_eq_some.mp hp
      exact hgo rfl (if_pos heq) rfl
  | takeNotify code item =>
      obtain ⟨heq, ⟨⟩⟩ := Option.ite_none_right_eq_some.mp hp
      simp only [execHold]
      split <;> exact hgo rfl (if_pos heq) rfl
  | recordCompletion code item =>
      obtain ⟨heq, ⟨⟩⟩ := Option.ite_none_right_eq_some.mp hp
      refine .won (.unregister item) 8 (goto_thread ..) rfl fun _ => ?_
      exact ⟨⟨item.task, code, getSlotId c, g⟩,
        List.mem_append_right _ List.mem_cons_self, rfl, rfl, heq⟩
  | unregister item =>
      cases hp
      exact hgo rfl rfl rfl
  | cancelTimer item =>
      cases hp
      exact hgo (htimer _) rfl rfl
  | clearFields item | clearTimer item | storeFree item
  | releaseLiveSlot item | subInFlight item =>
      cases item with
      | none => cases hp
      | some d =>
          cases hp
          exact hgo rfl rfl rfl
  | pushFreeSlot item =>
      cases item with
      | none => cases hp
      | some d =>
          cases hp
          exact .released d (goto_thread ..)
            ((hrec rfl).mono fun _ he => he)
  | _ => cases hp

/-- The winner has told the caller when it reads the task, and leaves it
at that. -/
theorem hold_told {k : Nat} {w : Winner} {p : HoldPc}
    (hp : p.toRelease r = some n) (hn : n ≤ 12)
    (hk : p.intact = true → (s.args (getSlotId w.cid)).controller = some k)
    (h : n ≤ 11 → Told s k r) : Told (execHold cfg t w p s) k r := by
  cases p with
  | failureClear r' =>
      simp only [HoldPc.toRelease] at hp
      split at hp <;> cases hp
      omega
  | failureApply r' =>
      simp only [HoldPc.toRelease] at hp
      split at hp <;> cases hp
      next heq =>
      subst heq
      simp [Told, execHold, State.onController, hk rfl, State.goto,
        State.setThread, Controller.setFailed]
  | takeNotify code item =>
      simp only [HoldPc.toRelease] at hp
      split at hp <;> cases hp
      simpa [Told, execHold, hk rfl, State.goto, State.setThread,
        Controller.takeNotifyOnCompletion] using h (by omega)
  | readTask code | recordCompletion code item =>
      simp only [HoldPc.toRelease] at hp
      split at hp <;> cases hp
      exact h (by omega)
  | cancelTimer item =>
      cases hp
      have hheap : (execHold cfg t w (.cancelTimer item) s).heap
          = s.heap := by
        simp only [execHold, State.goto, State.setThread,
          State.cancelDeadlineTimer]
        split <;> rfl
      rw [Told, hheap]
      exact h (by omega)
  | unregister item =>
      cases hp
      exact h (by omega)
  | clearFields item | clearTimer item | storeFree item
  | releaseLiveSlot item | subInFlight item | pushFreeSlot item =>
      cases item with
      | none => cases hp
      | some d =>
          cases hp
          exact h (by omega)
  | _ => cases hp

/-- The sender is never stuck on its way, and each step brings it
nearer. -/
theorem Delivery.own (hi : Inv cfg s) (hstaff : Staffed s)
    (hr : pendingResolution st = some r) (h : Delivery s t c g st r n)
    (hn : n ≠ 0) :
    ∃ s' m, apply cfg (.step t) s = some s' ∧ m < n
      ∧ Delivery s' t c g st r m
      ∧ ∀ k, ((s.lives (getSlotId c)).argsOf g).controller = some k →
        (n ≤ 12 → Told s k r) → m ≤ 12 → Told s' k r := by
  cases h with
  | waiting p n hth hun hp =>
      obtain ⟨m, hlow, hm, hd⟩ := Delivery.publish (t := t) hr hun hp
      exact ⟨_, m, by simp only [apply, hth, exec], hm, hd,
        fun k hk htold hle => absurd hle (by omega)⟩
  | won p n hth hp hrec =>
      have hok : ThreadOk s.view t (.running (.hold _ p)) :=
        hth ▸ hi.threads t
      have hd : Delivery (execHold cfg t _ p s) t c g st r n :=
        Delivery.hold hp hrec
      refine ⟨_, n, by simp only [apply, hth, exec], by omega, hd,
        fun k hk htold hle => ?_⟩
      refine hold_told hp hle (fun hint => ?_) fun hle' => htold (by omega)
      have hfields : s.args (getSlotId c) = _ := HoldOk.fields hok hint
      rw [hfields]
      exact hk
  | released item hth hrec =>
      have hok : ThreadOk s.view t (.running (.dispatch _ item)) :=
        hth ▸ hi.threads t
      have hexec : item.executor ≠ none := by
        rw [(DispatchOk.item hok).executor]
        exact hstaff.lives _ _ (DispatchOk.pos hok) (DispatchOk.gen hok)
      have hsome : ∃ s', execDispatch t ⟨c, g, .publish (pendingOutcome r)⟩
          item s = some s' ∧ s'.threads t
            = .returned (.published c (pendingOutcome r)) := by
        unfold execDispatch
        split_ifs <;> exact ⟨_, rfl, setThread_thread ..⟩
      obtain ⟨s', hs', hth'⟩ := hsome
      refine ⟨s', 0, by simp only [apply, hth, exec, hs'], by omega,
        .done hth' ?_, fun k hk htold hle => ?_⟩
      · have hs : exec cfg t (.dispatch _ item) s = some s' := hs'
        exact hrec.mono fun e he => completed_exec hs he
      · rw [Told, (execDispatch_scheduled hs').1]
        exact htold (by omega)
  | done => exact absurd rfl hn

omit [DecidableEq τ] in
theorem Delivery.frame (h : Delivery s t c g st r n)
    (hth : s'.threads t = s.threads t)
    (hun : Unsent s c g st → Unsent s' c g st)
    (hlog : ∀ e ∈ s.completed, e ∈ s'.completed) :
    Delivery s' t c g st r n := by
  cases h with
  | waiting p n h hu hp => exact .waiting p n (hth.trans h) (hun hu) hp
  | won p n h hp hrec =>
      exact .won p n (hth.trans h) hp fun hp' => (hrec hp').mono hlog
  | released item h hrec =>
      exact .released item (hth.trans h) (hrec.mono hlog)
  | done h hrec => exact .done (hth.trans h) (hrec.mono hlog)

/-- Nobody else's step leads the sender off its way. -/
theorem Delivery.others (hi : Inv cfg s)
    (hr : pendingResolution st = some r) (h : Delivery s t c g st r n)
    {a : Action τ} (hsole : soleSender t c s a) (ha : a ≠ .step t)
    (hs : apply cfg a s = some s') : Delivery s' t c g st r n := by
  cases apply_acts hs with
  | client heap metrics =>
      exact h.frame rfl (fun hu => ⟨hu.word, hu.unpublished, hu.gen⟩)
        fun _ he => he
  | @move u _ th published hm =>
      have hu : u ≠ t := by
        rintro rfl
        cases h with
        | waiting p n hth | won p n hth | released item hth =>
            rw [hth] at hm
            cases hm
        | done hth =>
            rw [hth] at hm
            cases hm
            exact hsole.1 rfl
      exact h.frame (Function.update_of_ne hu.symm ..)
        (fun hu => ⟨hu.word, hu.unpublished, hu.gen⟩) fun _ he => he
  | @step u pc _ hpc hs =>
      have hu : u ≠ t := fun heq => ha (heq ▸ rfl)
      have hok : ThreadOk s.view u (.running pc) := hpc ▸ hi.threads u
      obtain ⟨hdiscard, hpublish⟩ := hsole.2 u rfl hu
      have hcas : senderCas c s (.step u) = false := by
        cases pc with
        | publish d p =>
            have hne : d ≠ c := fun heq => hpublish p (heq ▸ hpc)
            simp [senderCas, hpc, hne]
        | discard d =>
            have hne : d ≠ c := fun heq => hdiscard (heq ▸ hpc)
            simp [senderCas, hpc, hne]
        | _ => simp [senderCas, hpc]
      refine h.frame ((effect_exec hi hok hs).others t hu.symm)
        (fun hun => ?_) fun e he => completed_exec hs he
      obtain ⟨st', hun', hst'⟩ := hun.step hi hpc hs hcas
      rcases hst' with rfl | rfl
      · exact hun'
      · cases hr

omit [DecidableEq τ] in
theorem Delivery.gen_le (hi : Inv cfg s) (h : Delivery s t c g st r n)
    (hn : n ≠ 0) : g ≤ (s.lives (getSlotId c)).gen := by
  cases h with
  | waiting p n hth hun hp => exact hun.gen.ge
  | won p n hth hp hrec =>
      have hok : ThreadOk s.view t (.running (.hold _ p)) :=
        hth ▸ hi.threads t
      exact (HoldOk.gen hok).le
  | released item hth hrec =>
      have hok : ThreadOk s.view t (.running (.dispatch _ item)) :=
        hth ▸ hi.threads t
      exact DispatchOk.gen hok
  | done => exact absurd rfl hn

/-- On its own the sender comes back with the resolution, and the
caller's controller says so. -/
theorem Delivery.alone (hr : pendingResolution st = some r)
    (hreach : (machine cfg).Reachable s) (h : Delivery s t c g st r n) :
    ∃ m s', (machine cfg).run (List.replicate m (.step t)) s = some s'
      ∧ m ≤ n ∧ Delivery s' t c g st r 0
      ∧ ∀ k, ((s.lives (getSlotId c)).argsOf g).controller = some k →
        (n ≤ 12 → Told s k r) → Told s' k r := by
  -- on the steps left
  induction n using Nat.strong_induction_on generalizing s with
  | _ n ih =>
  by_cases hn : n = 0
  · subst hn
    exact ⟨0, s, rfl, le_rfl, h, fun k _ htold => htold (by omega)⟩
  · have hi := inv_reachable hreach
    obtain ⟨s₁, m, hs₁, hm, h₁, htold₁⟩ :=
      h.own hi (staffed_reachable hreach) hr hn
    have hkept : (s₁.lives (getSlotId c)).argsOf g
        = (s.lives (getSlotId c)).argsOf g := by
      cases apply_acts hs₁ with
      | step hpc hs =>
          exact ((effect_exec hi (hpc ▸ hi.threads t) hs).sim
            (getSlotId c)).argsOf_eq (h.gen_le hi hn)
      | move published hm => rfl
    obtain ⟨m', s', hrun, hm', hdone, htold'⟩ :=
      ih m hm (hreach.step (a := .step t) trivial hs₁) h₁
    refine ⟨m' + 1, s', ?_, by omega, hdone, fun k hk htold => ?_⟩
    · rw [List.replicate_succ, Machine.run]
      show (apply cfg (.step t) s).bind _ = _
      rw [hs₁]
      exact hrun
    · refine htold' k ?_ (htold₁ k hk htold)
      rw [hkept]
      exact hk

/-- As long as the sender is the only one, its delivery goes on. -/
theorem delivery_run {s₀ : State τ} (h₀ : (machine cfg).Reachable s₀)
    (hr : pendingResolution st = some r) (hd : Delivery s₀ t c g st r n)
    (h : ((machine cfg).startedAt s₀).Reach (soleSender t c) s) :
    ∃ m ≤ n, Delivery s t c g st r m := by
  induction h with
  | start h => exact ⟨n, le_rfl, h ▸ hd⟩
  | @step s s' a hreach hsole hs ih =>
      obtain ⟨m, hle, hm⟩ := ih
      have hall := h₀.onward hreach
      have hi := inv_reachable hall
      by_cases ha : a = .step t
      · subst ha
        by_cases hzero : m = 0
        · -- a thread that has returned takes no step
          subst hzero
          cases hm with
          | done hth =>
              change apply cfg (.step t) s = some s' at hs
              simp only [apply, hth] at hs
              cases hs
        · obtain ⟨s₁, m', hs₁, hlt, hm', -⟩ :=
            hm.own hi (staffed_reachable hall) hr hzero
          cases Option.some.inj (hs₁.symm.trans hs)
          exact ⟨m', by omega, hm'⟩
      · exact ⟨m, hle, hm.others hi hr hsole ha hs⟩

end Delivery

/-- `PublishSlot` has not tried its compare-and-swap. -/
def PublishPc.untried : PublishPc → Bool
  | .registerPublishedSlot | .publish | .failArming _ _ => true
  | .takeConnectionFailure | .failInFlight _ _
  | .unregisterPublishedSlot _ | .deliverPending _ _ => false

/-- **Armed and left alone.** While the word of a live id says ARMING or
pending, in every run: the table touches neither the call nor its cell
in any step but the sender's compare-and-swap, save for a controller or a
response that another call has too, which is just being resolved, and
nothing was dispatched or recorded; a timeout or a cancellation of an ARMING call only leaves
its mark and every later one leaves it in place; and the `PublishSlot`
that finds a mark comes back with just that resolution, told to the
caller, whatever the others do, `FailAllActiveSlots` included. -/
theorem arming_deferred [DecidableEq τ] (cfg : TableConfig) (s : State τ)
    (c : UInt64) (st : SlotState) (h : (machine cfg).Reachable s)
    (hword : s.word (getSlotId c) = ⟨getVersion c, st⟩)
    (hst : st.Unpublished) :
    -- the table leaves the call and its cell alone
    (∀ l, FreeList cfg s l → getSlotId c ∉ l)
      ∧ (∀ a s', a.thread.isSome = true → senderCas c s a = false →
        apply cfg a s = some s' →
        Spared s s' c (s.lives (getSlotId c)).gen)
    -- until the sender's compare-and-swap, in every run from here
      ∧ (∀ s', ((machine cfg).startedAt s).Reach
          (fun s a => senderCas c s a = false) s' →
        ∃ st', s'.word (getSlotId c) = ⟨getVersion c, st'⟩
          ∧ st'.Unpublished
          ∧ (s'.lives (getSlotId c)).gen = (s.lives (getSlotId c)).gen
          ∧ (st ≠ .arming → st' = st))
    -- a timeout or a cancellation of an ARMING call leaves its mark
      ∧ (∀ t r pending, st = .arming → r.pendingState = some pending →
        s.threads t = .running (.resolvePending c r) →
        apply cfg (.step t) s
          = some ((s.storeLifecycle (getSlotId c)
              ⟨getVersion c, pending⟩).ret t (.flag true)))
    -- and the sender delivers the mark it finds
      ∧ ∀ t p r, pendingResolution st = some r →
        s.threads t = .running (.publish c p) → p.untried = true →
        ∀ s', ((machine cfg).startedAt s).Reach (soleSender t c) s' →
          (∀ res, s'.threads t = .returned res →
            res = .published c (pendingOutcome r)
              ∧ Recorded s' c (s.lives (getSlotId c)).gen r)
          ∧ ∃ m s'', m ≤ 18
            ∧ (machine cfg).run (List.replicate m (.step t)) s' = some s''
            ∧ s''.threads t = .returned (.published c (pendingOutcome r))
            ∧ Recorded s'' c (s.lives (getSlotId c)).gen r
            ∧ ∀ k q, s'.threads t = .running (.publish c q) →
              (s'.args (getSlotId c)).controller = some k →
              Told s'' k r := by
  have hi := inv_reachable h
  have hun : Unsent s c (s.lives (getSlotId c)).gen st := ⟨hword, hst, rfl⟩
  refine ⟨fun l hl hmem => ?_, fun a s' ha hcas hs => ?_, fun s' hs' => ?_,
    fun t r pending harm hp hth => ?_, ?_⟩
  · have hclosed := hl.closed _ hmem
    rw [hun.live hi] at hclosed
    exact hclosed
  · exact hun.spared hi (tracked_reachable h).logged hs ha hcas
  · obtain ⟨st', hun', hst'⟩ := unsent_run h hun hs'
    exact ⟨st', hun'.word, hun'.unpublished, hun'.gen,
      fun hne => hst'.resolve_right hne⟩
  · subst harm
    simp only [apply, hth, exec, hp, if_pos hword]
  · intro t p r hr hth huntried s' hs'
    have hwin : ∃ n ≤ 4, p.toWin c st r = some n := by
      cases p with
      | registerPublishedSlot => exact ⟨4, le_rfl, rfl⟩
      | publish => exact ⟨3, by omega, rfl⟩
      | failArming => exact ⟨2, by omega, rfl⟩
      | _ => cases huntried
    obtain ⟨n, hle, hn⟩ := hwin
    obtain ⟨m, hle', hm⟩ := delivery_run h hr (.waiting p n hth hun hn) hs'
    have hreach := h.onward hs'
    refine ⟨fun res hres => ?_, ?_⟩
    · cases hm with
      | waiting p n hth | won p n hth | released item hth =>
          cases hth.symm.trans hres
      | done hth hrec =>
          cases hth.symm.trans hres
          exact ⟨rfl, hrec⟩
    · obtain ⟨m', s'', hrun, hm', hdone, htold⟩ := hm.alone hr hreach
      cases hdone with
      | done hth' hrec =>
          refine ⟨m', s'', by omega, hrun, hth', hrec, fun k q hq hk => ?_⟩
          cases hm with
          | waiting p n hth₁ hun₁ hp =>
              have hi' := inv_reachable hreach
              have hfields : s'.args (getSlotId c) = _ :=
                ((hi'.cells _).live (hun₁.live hi')).2.2.2
              rw [hfields] at hk
              refine htold k ?_ fun hsmall => absurd hsmall (by omega)
              rw [← hun₁.gen]
              exact hk
          | won p n hth₁ | released item hth₁ | done hth₁ =>
              cases hth₁.symm.trans hq

-- == a delivery

/-- Thread 1 cancels the only call while it is armed, thread 2 fails the
connection, and thread 0 comes to the compare-and-swap. -/
def canceledRun : List (Action Nat) :=
  publishRun.take 10 ++
    [.invoke 1 (.cancelSlot 0x100000000 "canceled"), .step 1,
      .invoke 2 (.failAllActiveSlots RPC_ECONN_FAILED "closed"), .step 2,
      .step 2, .invoke 0 (.publishSlot 0x100000000), .step 0]

def canceledState : State Nat :=
  (machine oneCell).final canceledRun { table := .init oneCell }

theorem canceledState_reachable :
    (machine oneCell).Reachable canceledState :=
  Machine.reachable_final ⟨{}, rfl⟩ (by decide)

/-- The sender of the canceled call comes back with the cancellation. -/
theorem canceledState_delivers :
    ∃ m s, m ≤ 18
      ∧ (machine oneCell).run (List.replicate m (.step 0)) canceledState
        = some s
      ∧ s.threads 0 = .returned (.published 0x100000000 .canceled) := by
  have h := (arming_deferred oneCell canceledState 0x100000000
    .cancelPending canceledState_reachable (by decide)
    (Or.inr (Or.inl rfl))).2.2.2.2 0 (.failArming RPC_ECONN_FAILED "closed") _ rfl
      rfl rfl canceledState (.start rfl)
  obtain ⟨m, s, hm, hrun, hth, -⟩ := h.2
  exact ⟨m, s, hm, hrun, hth⟩

-- == a shared controller

def pairTable : TableConfig := ⟨2, Nat.two_pos, fun _ body => (body, true)⟩

/-- A call with controller 0. -/
def sharingCall : List (Action Nat) :=
  .invoke 0 (.allocateSlot
    { task := some 7, controller := some 0, executor := some 1 } 2)
    :: List.replicate 8 (.step 0) ++ [.collect 0]

/-- Thread 0 publishes a call and arms another one with the same
controller; thread 1 cancels the first and is about to tell so. -/
def sharingRun : List (Action Nat) :=
  sharingCall ++ [.invoke 0 (.publishSlot 0x100000000)]
    ++ List.replicate 3 (.step 0) ++ [.collect 0] ++ sharingCall
    ++ [.invoke 1 (.cancelSlot 0x100000000 "canceled")]
    ++ List.replicate 3 (.step 1)

def sharingState : State Nat :=
  (machine pairTable).final sharingRun { table := .init pairTable }

/-- The thread that resolves the first call writes the controller of the
second, which is ARMING. -/
theorem sharingState_written :
    (machine pairTable).Reachable sharingState
      ∧ sharingState.word (getSlotId 0x100000001)
        = ⟨getVersion 0x100000001, .arming⟩
      ∧ (sharingState.args (getSlotId 0x100000001)).controller = some 0
      ∧ (sharingState.heap.controllers 0).failed = false
      ∧ senderCas 0x100000001 sharingState (.step 1) = false
      ∧ (((machine pairTable).final [.step 1] sharingState).heap.controllers
        0).failed = true :=
  ⟨Machine.reachable_final ⟨{}, rfl⟩ (by decide +kernel),
    by decide +kernel⟩

end AntRpc.Slot
