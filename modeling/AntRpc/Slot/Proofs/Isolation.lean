/-
An operation that carries an id acts on the allocation the id names and
on no other: not on an earlier or later occupant of the same cell, not
on another cell.

# How "reads" and "writes" are said

A step does not write what is equal before and after it. It does not
read the pointers of a cell when replacing them by any others before the
step gives the same step with the same replacement after it
(`exec_storeArgs`). The two together are one commutation, so the theorem
needs no list of the points at which a cell is accessed.

# Versions

The ownership invariant knows which allocation of a cell a thread has
won, and that the version in the id is that number modulo `2 ^ 32`. While
no cell was allocated `2 ^ 32` times the version is the number itself, so
ids and allocations are in one-to-one correspondence.
-/
import AntRpc.Slot.Proofs.Ownership

namespace AntRpc.Slot

variable {τ : Type} [DecidableEq τ]

/-- The id a running operation carries. -/
def Pc.carries : Pc → Option UInt64
  | .publish c _ | .discard c | .attachLoad c _ | .attachStore c _
  | .responseUnknown c | .responseCas c _ | .responseLate c
  | .resolvePending c _ | .transition c _ _ => some c
  | .hold w _ | .dispatch w _ => some w.cid
  | .alloc _ _ | .failAllTake _ _ | .failAllNext _ _ _ _ => none

/-- The allocation `c` names, modulo `2 ^ 32`, is the current one of its
cell. -/
def Current (s : State τ) (c : UInt64) : Prop :=
  0 < (s.lives (getSlotId c)).gen
    ∧ getVersion c = UInt32.ofNat (s.lives (getSlotId c)).gen

/-- The allocation whose id is `c` occupies its cell. -/
def Occupies (s : State τ) (c : UInt64) : Prop :=
  0 < (getVersion c).toNat
    ∧ (s.lives (getSlotId c)).gen = (getVersion c).toNat

/-- The arguments of the allocation whose id is `c`. -/
def allocation (s : State τ) (c : UInt64) : Option CallArgs :=
  let g := (getVersion c).toNat
  if 0 < g ∧ g ≤ (s.lives (getSlotId c)).gen then
    some ((s.lives (getSlotId c)).argsOf g)
  else none

omit [DecidableEq τ] in
theorem Current.occupies {s : State τ} {c : UInt64} (h : Current s c)
    (hb : ∀ i, (s.lives i).gen < 2 ^ 32) : Occupies s c := by
  obtain ⟨hpos, hver⟩ := h
  have hlt := hb (getSlotId c)
  have hnat : (getVersion c).toNat = (s.lives (getSlotId c)).gen := by
    rw [hver, UInt32.toNat_ofNat']
    omega
  exact ⟨hnat ▸ hpos, hnat.symm⟩

omit [DecidableEq τ] in
theorem Occupies.allocation_eq {s : State τ} {c : UInt64}
    (h : Occupies s c) : allocation s c
      = some ((s.lives (getSlotId c)).argsOf
          (s.lives (getSlotId c)).gen) := by
  obtain ⟨hpos, hgen⟩ := h
  rw [allocation, if_pos ⟨hpos, Nat.le_of_eq hgen.symm⟩, hgen]

-- == writes

/-- A step that carries `c` changes at most the cell `c` names, and that
only while it is `c`'s. -/
structure Confined (s s' : State τ) (c : UInt64) : Prop where
  elsewhere : ∀ i, i ≠ getSlotId c →
    s'.word i = s.word i ∧ s'.args i = s.args i
  here : (s'.word (getSlotId c) = s.word (getSlotId c)
      ∧ s'.args (getSlotId c) = s.args (getSlotId c)) ∨ Current s c

section Confined

variable {s s' s₁ : State τ} {t : τ} {c : UInt64}

omit [DecidableEq τ] in
/-- A step that no cell shows. -/
theorem Confined.quiet (hq : Quiet s s₁) (hv : s'.view = s₁.view) :
    Confined s s' c := by
  have hsame : ∀ i, s'.word i = s.word i ∧ s'.args i = s.args i := by
    intro i
    have hi : s'.view i = s.view i := by rw [hv, hq.view]
    exact ⟨congrArg CellView.word hi, congrArg CellView.fields hi⟩
  exact ⟨fun i _ => hsame i, Or.inl (hsame _)⟩

omit [DecidableEq τ] in
/-- A step on the cell of `c` while it is `c`'s. -/
theorem Confined.onCell (hcur : Current s c)
    (hother : ∀ j, j ≠ getSlotId c → s'.view j = s.view j) :
    Confined s s' c where
  elsewhere i hi :=
    ⟨congrArg CellView.word (hother i hi),
      congrArg CellView.fields (hother i hi)⟩
  here := Or.inr hcur

omit [DecidableEq τ] in
/-- A compare-and-swap that succeeds finds the allocation of its own
version. -/
theorem current_of_cas {cfg : TableConfig} (hi : Inv cfg s)
    {st : SlotState} (h : s.word (getSlotId c) = ⟨getVersion c, st⟩)
    (hst : st.Live) : Current s c := by
  have hw : (s.view (getSlotId c)).word = ⟨getVersion c, st⟩ := h
  have hlive : (s.view (getSlotId c)).word.state.Live := by
    rw [hw]
    exact hst
  obtain ⟨hpos, -, hver, -⟩ := (hi.cells _).live
    ((hi.cells _).live_of_state hlive)
  rw [hw] at hver
  exact ⟨hpos, hver⟩

omit [DecidableEq τ] in
/-- A winner's allocation is current while it holds the cell. -/
theorem HoldOk.current {cfg : TableConfig} (hi : Inv cfg s) {w : Winner}
    {p : HoldPc} (h : HoldOk s.view t w p) : Current s w.cid := by
  obtain ⟨hpos, -, -⟩ := (hi.cells _).holding t _ h.now
  exact ⟨hpos, h.gen ▸ h.version⟩

theorem confined_cas {cfg : TableConfig} (hi : Inv cfg s)
    {st st' : SlotState} {th : Thread}
    (h : s.word (getSlotId c) = ⟨getVersion c, st⟩) (hst : st.Live) :
    Confined s ((s.storeLifecycle (getSlotId c)
      ⟨getVersion c, st'⟩).setThread t th) c := by
  refine .onCell (current_of_cas hi h hst) ?_
  intro j hj
  rw [view_setThread, view_storeLifecycle, if_neg hj]

theorem confined_win {cfg : TableConfig} (hi : Inv cfg s)
    {st st' : SlotState} {after : After} {p : HoldPc}
    (h : s.word (getSlotId c) = ⟨getVersion c, st⟩) (hst : st.Live) :
    Confined s ((s.storeLifecycle (getSlotId c)
      ⟨getVersion c, st'⟩).win t c after p) c := by
  refine .onCell (current_of_cas hi h hst) ?_
  intro j hj
  rw [State.win, view_goto, State.turn, view_setLife, if_neg hj,
    view_storeLifecycle, if_neg hj]

theorem confined_publish {cfg : TableConfig} (hi : Inv cfg s)
    {p : PublishPc} (hp : p.Sound) :
    Confined s (execPublish t c p s) c := by
  have hlost : ∀ {s₁ : State τ} {observed : Lifecycle}, Quiet s s₁ →
      Confined s (publishLost t c observed s₁) c := by
    intro s₁ observed hq
    unfold publishLost
    split
    · split <;> exact .quiet hq rfl
    · exact .quiet hq rfl
  cases p with
  | registerPublishedSlot | takeConnectionFailure =>
      simp only [execPublish]
      split <;> exact .quiet ⟨rfl, rfl, rfl, rfl⟩ rfl
  | failArming code message =>
      simp only [execPublish]
      split
      · next h => exact confined_win hi h (by decide)
      · exact hlost ⟨rfl, rfl, rfl, rfl⟩
  | publish =>
      simp only [execPublish]
      split
      · next h => exact confined_cas hi h (by decide)
      · exact .quiet ⟨rfl, rfl, rfl, rfl⟩ rfl
  | failInFlight code message =>
      simp only [execPublish]
      split
      · next h => exact confined_win hi h (by decide)
      · exact .quiet ⟨rfl, rfl, rfl, rfl⟩ rfl
  | unregisterPublishedSlot observed => exact hlost ⟨rfl, rfl, rfl, rfl⟩
  | deliverPending st r =>
      simp only [execPublish]
      split
      · next h =>
        have hlive : st.Live := by
          rcases pendingResolution_live hp with rfl | rfl <;> decide
        exact confined_win hi h hlive
      · exact .quiet ⟨rfl, rfl, rfl, rfl⟩ rfl

theorem confined_hold {cfg cfg' : TableConfig} (hi : Inv cfg' s)
    {w : Winner} {p : HoldPc} (hok : HoldOk s.view t w p) :
    Confined s (execHold cfg t w p s) w.cid := by
  have hcur := hok.current hi
  cases p with
  | discardTimer => exact .quiet (quiet_cancelDeadlineTimer ..) rfl
  | discardClear | responseClear r | failureClear r | failureApply r =>
      exact .quiet (quiet_onController ..) rfl
  | responseApply r | responseCount code | readTask code | unregister item
  | releaseLiveSlot item | subInFlight item =>
      exact .quiet ⟨rfl, rfl, rfl, rfl⟩ rfl
  | takeNotify code item =>
      simp only [execHold]
      split <;> exact .quiet ⟨rfl, rfl, rfl, rfl⟩ rfl
  | recordCompletion code item =>
      refine .onCell hcur fun j hj => ?_
      simp only [execHold]
      rw [view_goto, view_setLife, if_neg hj]
      rfl
  | cancelTimer item => exact .quiet (quiet_cancelDeadlineTimer ..) rfl
  | clearFields item =>
      refine .onCell hcur fun j hj => ?_
      simp only [execHold]
      rw [view_goto, view_storeArgs, if_neg hj]
  | clearTimer item => exact .quiet (quiet_storeTimer ..) rfl
  | storeFree item =>
      refine .onCell hcur fun j hj => ?_
      simp only [execHold]
      rw [view_goto, view_storeLifecycle, if_neg hj]
  | pushFreeSlot item =>
      have hpush : ∀ j, (s.setSlot (getSlotId w.cid)
          { s.table.slots (getSlotId w.cid) with
            nextFree := s.table.freeHead }).view j = s.view j :=
        fun j => view_setSlot_same s j _ rfl rfl
      refine .onCell hcur fun j hj => ?_
      cases item with
      | some d =>
          simp only [execHold]
          rw [view_goto, State.turn, view_setLife, if_neg hj]
          exact hpush j
      | none =>
          simp only [execHold]
          rw [view_setThread, State.turn, view_setLife, if_neg hj]
          exact hpush j

theorem confined_dispatch {w : Winner} {item : Dispatch}
    (hs : execDispatch t w item s = some s') : Confined s s' w.cid := by
  have hsame : ∀ i, s'.word i = s.word i ∧ s'.args i = s.args i := by
    unfold execDispatch at hs
    simp only at hs
    split_ifs at hs <;> cases hs
    · exact fun i => ⟨rfl, rfl⟩
    · exact fun i => ⟨rfl, rfl⟩
  exact ⟨fun i _ => hsame i, Or.inl (hsame _)⟩

/-- Every step of an operation that carries `c` is confined to `c`'s
allocation. -/
theorem confined_exec {cfg cfg' : TableConfig} (hi : Inv cfg' s) {pc : Pc}
    (hok : ThreadOk s.view t (.running pc)) (hc : pc.carries = some c)
    (hs : exec cfg t pc s = some s') : Confined s s' c := by
  cases pc with
  | publish c' p =>
      cases hc
      cases hs
      exact confined_publish hi hok
  | discard c' | responseCas c' r | transition c' r after =>
      cases hc
      simp only [exec] at hs
      split at hs
      · next h =>
        cases hs
        exact confined_win hi h (by decide)
      · cases hs
        exact .quiet ⟨rfl, rfl, rfl, rfl⟩ rfl
  | attachLoad c' timerId =>
      cases hc
      simp only [exec] at hs
      split_ifs at hs <;> cases hs
      all_goals exact .quiet ⟨rfl, rfl, rfl, rfl⟩ rfl
  | attachStore c' timerId =>
      cases hs
      exact .quiet (quiet_storeTimer ..) rfl
  | responseUnknown c' | responseLate c' =>
      cases hs
      exact .quiet ⟨rfl, rfl, rfl, rfl⟩ rfl
  | resolvePending c' r =>
      cases hc
      simp only [exec] at hs
      split at hs
      · cases hs
        exact .quiet ⟨rfl, rfl, rfl, rfl⟩ rfl
      · split at hs
        · next h =>
          cases hs
          exact confined_cas hi h (by decide)
        · cases hs
          exact .quiet ⟨rfl, rfl, rfl, rfl⟩ rfl
  | hold w p =>
      cases hc
      cases hs
      exact confined_hold hi hok
  | dispatch w item =>
      cases hc
      exact confined_dispatch hs
  | _ => cases hc

end Confined

-- == reads

section Reads

variable (s : State τ) (i j : UInt32) (a : CallArgs)

omit [DecidableEq τ] in
@[simp] theorem word_storeArgs : (s.storeArgs i a).word j = s.word j := by
  unfold State.word State.storeArgs State.setSlot
  simp only [Function.update_apply]
  split
  · next h => rw [h]
  · rfl

omit [DecidableEq τ] in
theorem args_storeArgs (h : j ≠ i) :
    (s.storeArgs i a).args j = s.args j := by
  unfold State.args State.storeArgs State.setSlot
  simp only [Function.update_of_ne h]

omit [DecidableEq τ] in
/-- Updates of a cell that keep the pointers commute with a replacement
of the pointers. -/
theorem setSlot_storeArgs (f : CallSlot → CallSlot)
    (hf : ∀ cell, f { cell with args := a }
      = { f cell with args := a }) :
    (s.storeArgs i a).setSlot j (f ((s.storeArgs i a).table.slots j))
      = (s.setSlot j (f (s.table.slots j))).storeArgs i a := by
  unfold State.storeArgs State.setSlot
  simp only [State.mk.injEq, SlotTable.mk.injEq, and_true]
  funext k
  simp only [Function.update_apply]
  by_cases hk : k = j
  · subst hk
    by_cases hki : k = i
    · subst hki
      simp [hf]
    · simp [hki]
  · by_cases hki : k = i
    · subst hki
      simp [hk]
    · simp [hk, hki]

omit [DecidableEq τ] in
theorem storeLifecycle_storeArgs (w : Lifecycle) :
    (s.storeArgs i a).storeLifecycle j w
      = (s.storeLifecycle j w).storeArgs i a :=
  setSlot_storeArgs s i j a (fun cell => { cell with lifecycle := w })
    fun _ => rfl

omit [DecidableEq τ] in
theorem storeTimer_storeArgs (timerId : UInt64) :
    (s.storeArgs i a).storeTimer j timerId
      = (s.storeTimer j timerId).storeArgs i a :=
  setSlot_storeArgs s i j a
    (fun cell => { cell with deadlineTimerId := timerId }) fun _ => rfl

omit [DecidableEq τ] in
theorem cancelDeadlineTimer_storeArgs :
    (s.storeArgs i a).cancelDeadlineTimer j
      = (s.cancelDeadlineTimer j).storeArgs i a := by
  have htimer : ((s.storeArgs i a).table.slots j).deadlineTimerId
      = (s.table.slots j).deadlineTimerId := by
    unfold State.storeArgs State.setSlot
    simp only [Function.update_apply]
    split
    · next h => rw [h]
    · rfl
  unfold State.cancelDeadlineTimer
  simp only [htimer, storeTimer_storeArgs]
  split <;> rfl

omit [DecidableEq τ] in
theorem onController_storeArgs (f : Controller → Controller) (h : j ≠ i) :
    (s.storeArgs i a).onController j f
      = (s.onController j f).storeArgs i a := by
  unfold State.onController
  rw [args_storeArgs s i j a h]
  split <;> rfl

theorem publishLost_storeArgs (t : τ) (c : UInt64) (w : Lifecycle) :
    publishLost t c w (s.storeArgs i a)
      = (publishLost t c w s).storeArgs i a := by
  unfold publishLost
  split
  · split <;> rfl
  · rfl

theorem execPublish_storeArgs (t : τ) (c : UInt64) (p : PublishPc) :
    execPublish t c p (s.storeArgs i a)
      = (execPublish t c p s).storeArgs i a := by
  have hfailed : (s.storeArgs i a).table.connectionFailed
      = s.table.connectionFailed := rfl
  cases p with
  | registerPublishedSlot =>
      simp only [execPublish, hfailed]
      split <;> rfl
  | failArming code message =>
      simp only [execPublish, word_storeArgs, storeLifecycle_storeArgs,
        publishLost_storeArgs]
      split <;> rfl
  | publish | failInFlight code message | deliverPending st r =>
      simp only [execPublish, word_storeArgs, storeLifecycle_storeArgs]
      split <;> rfl
  | takeConnectionFailure =>
      simp only [execPublish, hfailed]
      split <;> rfl
  | unregisterPublishedSlot observed =>
      exact publishLost_storeArgs
        (s.setActiveCalls (s.table.activeCalls.erase c)) i a t c observed

/-- A winner reads and writes the pointers of its own cell only. -/
theorem execHold_storeArgs (cfg : TableConfig) (t : τ) (w : Winner)
    (p : HoldPc) (h : getSlotId w.cid ≠ i) :
    execHold cfg t w p (s.storeArgs i a)
      = (execHold cfg t w p s).storeArgs i a := by
  have hargs := args_storeArgs s i (getSlotId w.cid) a h
  have hslot : (s.storeArgs i a).table.slots (getSlotId w.cid)
      = s.table.slots (getSlotId w.cid) := Function.update_of_ne h ..
  have hset : ∀ cell, (s.storeArgs i a).setSlot (getSlotId w.cid) cell
      = (s.setSlot (getSlotId w.cid) cell).storeArgs i a := by
    intro cell
    have hi : (s.setSlot (getSlotId w.cid) cell).table.slots i
        = s.table.slots i := Function.update_of_ne h.symm ..
    unfold State.storeArgs
    rw [hi]
    unfold State.setSlot
    simp only [State.mk.injEq, SlotTable.mk.injEq, and_true]
    exact Function.update_comm h.symm ..
  cases p with
  | discardTimer | cancelTimer item =>
      simp only [execHold, cancelDeadlineTimer_storeArgs]
      rfl
  | discardClear | responseClear r | failureClear r | failureApply r =>
      simp only [execHold, onController_storeArgs s i _ a _ h]
      rfl
  | responseApply r | readTask code =>
      simp only [execHold, hargs]
      rfl
  | takeNotify code item =>
      simp only [execHold, hargs]
      split <;> rfl
  | clearFields item =>
      have hclear : (s.storeArgs i a).storeArgs (getSlotId w.cid) {}
          = (s.storeArgs (getSlotId w.cid) {}).storeArgs i a := by
        have hcell := hset { s.table.slots (getSlotId w.cid) with args := {} }
        rw [← hslot] at hcell
        exact hcell.trans (by rw [hslot]; rfl)
      simp only [execHold, hclear]
      rfl
  | clearTimer item =>
      simp only [execHold, storeTimer_storeArgs]
      rfl
  | storeFree item =>
      simp only [execHold, storeLifecycle_storeArgs]
      rfl
  | pushFreeSlot item =>
      cases item <;> simp only [execHold, hslot, hset] <;> rfl
  | _ => rfl

theorem execDispatch_storeArgs (t : τ) (w : Winner) (item : Dispatch) :
    execDispatch t w item (s.storeArgs i a)
      = (execDispatch t w item s).map (·.storeArgs i a) := by
  unfold execDispatch
  simp only
  split_ifs
  · rfl
  · rfl
  · rfl

/-- A step that carries `c` neither reads nor writes the pointers of any
cell, unless it is a winner's and the cell is its own. -/
theorem exec_storeArgs (cfg : TableConfig) (t : τ) {pc : Pc} {c : UInt64}
    (hc : pc.carries = some c)
    (h : (∃ w p, pc = .hold w p) → getSlotId c ≠ i) :
    exec cfg t pc (s.storeArgs i a)
      = (exec cfg t pc s).map (·.storeArgs i a) := by
  cases pc with
  | publish c' p =>
      simp only [exec, execPublish_storeArgs]
      rfl
  | discard c' | responseCas c' r | transition c' r after =>
      simp only [exec, word_storeArgs, storeLifecycle_storeArgs]
      split <;> rfl
  | attachLoad c' timerId =>
      simp only [exec, word_storeArgs]
      split_ifs
      · rfl
      · rfl
      · rfl
  | attachStore c' timerId =>
      simp only [exec, storeTimer_storeArgs]
      rfl
  | responseUnknown c' | responseLate c' => rfl
  | resolvePending c' r =>
      simp only [exec, word_storeArgs, storeLifecycle_storeArgs]
      split
      · rfl
      · split <;> rfl
  | hold w p =>
      cases hc
      have hne := h ⟨w, p, rfl⟩
      simp only [exec, execHold_storeArgs s i a cfg t w p hne]
      rfl
  | dispatch w item => exact execDispatch_storeArgs s i a t w item
  | _ => cases hc

end Reads

-- == the caller's own objects

/-- The objects changed are the ones `args` point to. -/
structure Writes (h h' : Heap) (args : CallArgs) : Prop where
  controllers : ∀ k, args.controller ≠ some k →
    h'.controllers k = h.controllers k
  messages : ∀ m, args.responseMsg ≠ some m → h'.messages m = h.messages m
  rawBodies : ∀ b, args.rawRespBody ≠ some b →
    h'.rawBodies b = h.rawBodies b

theorem Writes.refl (h : Heap) (args : CallArgs) : Writes h h args :=
  ⟨fun _ _ => rfl, fun _ _ => rfl, fun _ _ => rfl⟩

theorem Writes.trans {h₁ h₂ h₃ : Heap} {args : CallArgs}
    (h12 : Writes h₁ h₂ args) (h23 : Writes h₂ h₃ args) :
    Writes h₁ h₃ args where
  controllers k hk := (h23.controllers k hk).trans (h12.controllers k hk)
  messages m hm := (h23.messages m hm).trans (h12.messages m hm)
  rawBodies b hb := (h23.rawBodies b hb).trans (h12.rawBodies b hb)

/-- A write to the controller the arguments point to. -/
theorem writes_controller {h : Heap} {args : CallArgs} {k : Nat}
    (hk : args.controller = some k) (ctl : Controller) :
    Writes h { h with controllers := Function.update h.controllers k ctl }
      args where
  controllers k' hne := by
    refine Function.update_of_ne ?_ ..
    rintro rfl
    exact hne hk
  messages _ _ := rfl
  rawBodies _ _ := rfl

theorem writes_message {h : Heap} {args : CallArgs} {m : Nat}
    (hm : args.responseMsg = some m) (content : Protocol.Bytes) :
    Writes h { h with messages := Function.update h.messages m content }
      args where
  controllers _ _ := rfl
  messages m' hne := by
    refine Function.update_of_ne ?_ ..
    rintro rfl
    exact hne hm
  rawBodies _ _ := rfl

theorem writes_rawBody {h : Heap} {args : CallArgs} {b : Nat}
    (hb : args.rawRespBody = some b) (body : Protocol.Bytes) :
    Writes h { h with rawBodies := Function.update h.rawBodies b body }
      args where
  controllers _ _ := rfl
  messages _ _ := rfl
  rawBodies b' hne := by
    refine Function.update_of_ne ?_ ..
    rintro rfl
    exact hne hb

theorem applyMeta_writes (args : CallArgs) (r : Response) (h : Heap) :
    Writes h (applyMeta args r h) args := by
  unfold applyMeta
  split
  · exact .refl h args
  · next k hk => exact writes_controller hk _

theorem parseBody_writes (cfg : TableConfig) (args : CallArgs)
    (r : Response) (h : Heap) :
    Writes h (parseBody cfg args r h).1 args := by
  unfold parseBody
  split
  · exact .refl h args
  · next m hm =>
    split
    · simp only
      split
      · exact writes_message hm _
      · split
        · exact writes_message hm _
        · next k hk =>
          exact (writes_message hm _).trans (writes_controller hk _)
    · exact .refl h args

theorem storeRawBody_writes (args : CallArgs) (r : Response) (h : Heap) :
    Writes h (storeRawBody args r h) args := by
  unfold storeRawBody
  split
  · exact .refl h args
  · next b hb => exact writes_rawBody hb _

/-- A response is applied to the caller's own objects. -/
theorem applyResponse_writes (cfg : TableConfig) (args : CallArgs)
    (r : Response) (h : Heap) :
    Writes h (applyResponse cfg args r h).1 args :=
  ((applyMeta_writes args r h).trans (parseBody_writes cfg args r _)).trans
    (storeRawBody_writes args r _)

omit [DecidableEq τ] in
theorem onController_writes (s : State τ) (i : UInt32)
    (f : Controller → Controller) :
    Writes s.heap (s.onController i f).heap (s.args i) := by
  unfold State.onController
  split
  · exact .refl ..
  · next k hk => exact writes_controller hk _

/-- What a winner does to the caller's objects goes through the pointers
of its cell, and only before it clears them. -/
theorem execHold_writes (cfg : TableConfig) (t : τ) (w : Winner)
    (p : HoldPc) (s : State τ) :
    (execHold cfg t w p s).heap = s.heap
      ∨ p.intact = true ∧ Writes s.heap (execHold cfg t w p s).heap
          (s.args (getSlotId w.cid)) := by
  cases p with
  | discardTimer | cancelTimer item =>
      left
      simp only [execHold, State.goto, State.setThread,
        State.cancelDeadlineTimer]
      split <;> rfl
  | discardClear | responseClear r | failureClear r | failureApply r =>
      exact Or.inr ⟨rfl, onController_writes ..⟩
  | responseApply r => exact Or.inr ⟨rfl, applyResponse_writes ..⟩
  | takeNotify code item =>
      right
      refine ⟨rfl, ?_⟩
      simp only [execHold]
      split
      · exact .refl ..
      · next k hk => exact writes_controller hk _
  | pushFreeSlot item =>
      left
      cases item <;> rfl
  | _ => exact Or.inl rfl

/-- Only winners touch the caller's objects or the executor. -/
theorem exec_outside {cfg : TableConfig} {t : τ} {pc : Pc} {s s' : State τ}
    (hs : exec cfg t pc s = some s') (hhold : ∀ w p, pc ≠ .hold w p)
    (hdispatch : ∀ w d, pc ≠ .dispatch w d) :
    s'.heap = s.heap ∧ s'.scheduled = s.scheduled := by
  cases pc with
  | alloc args p =>
      cases hs
      cases p with
      | casActive limit current =>
          simp only [execAlloc]
          split_ifs <;> exact ⟨rfl, rfl⟩
      | popFreeSlot =>
          simp only [execAlloc]
          split <;> exact ⟨rfl, rfl⟩
      | _ => exact ⟨rfl, rfl⟩
  | publish c p =>
      cases hs
      cases p with
      | unregisterPublishedSlot observed =>
          simp only [execPublish, publishLost]
          split_ifs
          · split <;> exact ⟨rfl, rfl⟩
          · exact ⟨rfl, rfl⟩
      | failArming code message =>
          simp only [execPublish, publishLost]
          split_ifs
          · exact ⟨rfl, rfl⟩
          · split <;> exact ⟨rfl, rfl⟩
          · exact ⟨rfl, rfl⟩
      | _ =>
          simp only [execPublish]
          split_ifs <;> exact ⟨rfl, rfl⟩
  | resolvePending c r =>
      simp only [exec] at hs
      split at hs
      · cases hs
        exact ⟨rfl, rfl⟩
      · split_ifs at hs <;> cases hs <;> exact ⟨rfl, rfl⟩
  | hold w p => exact absurd rfl (hhold w p)
  | dispatch w d => exact absurd rfl (hdispatch w d)
  | _ =>
      simp only [exec] at hs
      first
        | (cases hs; exact ⟨rfl, rfl⟩)
        | (split_ifs at hs <;> cases hs <;> exact ⟨rfl, rfl⟩)

theorem execHold_scheduled (cfg : TableConfig) (t : τ) (w : Winner)
    (p : HoldPc) (s : State τ) :
    (execHold cfg t w p s).scheduled = s.scheduled := by
  have hctl : ∀ i f, (s.onController i f).scheduled = s.scheduled := by
    intro i f
    unfold State.onController
    split <;> rfl
  have htimer : ∀ i, (s.cancelDeadlineTimer i).scheduled = s.scheduled := by
    intro i
    unfold State.cancelDeadlineTimer
    simp only
    split <;> rfl
  cases p with
  | discardTimer | cancelTimer item => exact htimer _
  | discardClear | responseClear r | failureClear r | failureApply r =>
      exact hctl _ _
  | takeNotify code item =>
      simp only [execHold]
      split <;> rfl
  | pushFreeSlot item => cases item <;> rfl
  | _ => rfl

/-- What a dispatch schedules. -/
theorem execDispatch_scheduled {t : τ} {w : Winner} {d : Dispatch}
    {s s' : State τ} (hs : execDispatch t w d s = some s') :
    s'.heap = s.heap
      ∧ (s'.scheduled = s.scheduled
        ∨ s'.scheduled = s.scheduled ++ [⟨d, getSlotId w.cid, w.gen⟩]) := by
  unfold execDispatch at hs
  simp only at hs
  split_ifs at hs <;> cases hs
  · exact ⟨rfl, Or.inl rfl⟩
  · exact ⟨rfl, Or.inr rfl⟩

-- == isolation

section Isolation

variable {s s' : State τ} {t : τ} {c : UInt64}

omit [DecidableEq τ] in
/-- Below `2 ^ 32` allocations a name is a number. -/
theorem Named.allocation_eq {args : CallArgs} (h : Named s.view c args)
    (hb : ∀ i, (s.lives i).gen < 2 ^ 32) : allocation s c = some args := by
  obtain ⟨g, hpos, hle, hver, hargs⟩ := h
  have hlt := hb (getSlotId c)
  change g ≤ (s.lives (getSlotId c)).gen at hle
  have hnat : (getVersion c).toNat = g := by
    rw [hver, UInt32.toNat_ofNat']
    omega
  rw [allocation, hnat, if_pos ⟨hpos, hle⟩]
  exact congrArg some hargs

/-- The objects a step for `c` changes are those of `c`'s allocation. -/
theorem exec_writes {cfg cfg' : TableConfig} (hi : Inv cfg' s) {pc : Pc}
    (hb : ∀ i, (s.lives i).gen < 2 ^ 32)
    (hok : ThreadOk s.view t (.running pc)) (hc : pc.carries = some c)
    (hs : exec cfg t pc s = some s') :
    s'.heap = s.heap
      ∨ ∃ args, allocation s c = some args ∧ Writes s.heap s'.heap args := by
  by_cases hpc : ∃ w p, pc = .hold w p
  · obtain ⟨w, p, rfl⟩ := hpc
    cases hc
    cases hs
    rcases execHold_writes cfg t w p s with h | ⟨hintact, h⟩
    · exact Or.inl h
    · right
      have hfields : s.args (getSlotId w.cid)
          = (s.lives (getSlotId w.cid)).argsOf w.gen :=
        hok.fields hintact
      have hgen : w.gen = (s.lives (getSlotId w.cid)).gen := hok.gen
      refine ⟨_, ((hok.current hi).occupies hb).allocation_eq, ?_⟩
      rw [← hgen, ← hfields]
      exact h
  · left
    by_cases hd : ∃ w d, pc = .dispatch w d
    · obtain ⟨w, d, rfl⟩ := hd
      exact (execDispatch_scheduled hs).1
    · exact (exec_outside hs (fun w p h => hpc ⟨w, p, h⟩)
        fun w d h => hd ⟨w, d, h⟩).1

/-- What a step for `c` schedules is the continuation of `c`'s
allocation. -/
theorem exec_schedules {cfg : TableConfig} {pc : Pc}
    (hb : ∀ i, (s.lives i).gen < 2 ^ 32)
    (hok : ThreadOk s.view t (.running pc)) (hc : pc.carries = some c)
    (hs : exec cfg t pc s = some s') :
    s'.scheduled = s.scheduled
      ∨ ∃ e args, s'.scheduled = s.scheduled ++ [e]
          ∧ allocation s c = some args ∧ e.item.For args := by
  by_cases hd : ∃ w d, pc = .dispatch w d
  · obtain ⟨w, d, rfl⟩ := hd
    cases hc
    rcases (execDispatch_scheduled hs).2 with h | h
    · exact Or.inl h
    · right
      have hnamed : Named s.view w.cid _ :=
        ⟨w.gen, hok.pos, hok.gen, hok.version, rfl⟩
      exact ⟨_, _, h, hnamed.allocation_eq hb, hok.item⟩
  · left
    by_cases hpc : ∃ w p, pc = .hold w p
    · obtain ⟨w, p, rfl⟩ := hpc
      cases hs
      exact execHold_scheduled ..
    · exact (exec_outside hs (fun w p h => hpc ⟨w, p, h⟩)
        fun w d h => hd ⟨w, d, h⟩).2

/-- `AllocateSlot` writes a cell only while it holds it for its own
allocation. -/
theorem execAlloc_writes {args : CallArgs} {p : AllocPc}
    (hok : AllocOk s.view t args p) (i : UInt32)
    (hne : (execAlloc t args p s).word i ≠ s.word i
      ∨ (execAlloc t args p s).args i ≠ s.args i) :
    (s.lives i).now = .allocating t
      ∧ (s.lives i).argsOf (s.lives i).gen = args := by
  have hquiet : ∀ {s₁ : State τ}, s₁.view i = s.view i →
      ¬ (s₁.word i ≠ s.word i ∨ s₁.args i ≠ s.args i) := by
    intro s₁ h hor
    exact hor.elim (fun hw => hw (congrArg CellView.word h))
      fun ha => ha (congrArg CellView.fields h)
  cases p with
  | storeFields j ver =>
      by_cases hij : i = j
      · rw [hij]
        exact ⟨hok.1.now, hok.1.args⟩
      · refine absurd hne (hquiet ?_)
        simp only [execAlloc]
        rw [view_goto, view_storeArgs, if_neg hij]
  | storeArming j ver =>
      by_cases hij : i = j
      · rw [hij]
        exact ⟨hok.1.now, hok.1.args⟩
      · refine absurd hne (hquiet ?_)
        simp only [execAlloc]
        rw [view_goto, State.turn, view_setLife, if_neg hij,
          view_storeLifecycle, if_neg hij]
  | resetTimer j ver =>
      exact absurd hne (hquiet (view_storeTimer s i j 0))
  | casActive limit current | popFreeSlot =>
      refine absurd hne ?_
      simp only [execAlloc]
      split_ifs <;> exact not_or.mpr ⟨fun h => h rfl, fun h => h rfl⟩
  | loadActive _ | undoActive | loadVersion _ | addInFlight _ _ =>
      exact absurd hne (not_or.mpr ⟨fun h => h rfl, fun h => h rfl⟩)

end Isolation

/-- **Isolation of allocations.** In every run of the table in which no
cell was allocated `2 ^ 32` times: an id returned by `AllocateSlot` names
that call's own allocation and no other; `AllocateSlot` writes only the
cell it took for its own allocation; and a step of any other operation,
carrying any 64-bit id `c`, changes the word and reads or writes the
pointers only of the cell `c`'s allocation occupies, changes only the
objects that were passed to that allocation, and schedules only its
continuation. -/
theorem table_isolation (cfg : TableConfig) (s : State τ)
    (hreach : (machine cfg).Reachable s)
    (hbound : ∀ i, (s.lives i).gen < 2 ^ 32) :
    (∀ u args c, s.threads u = .returned (.allocated args c) → c ≠ 0 →
        allocation s c = some args)
    ∧ (∀ i j g h, 0 < g → g ≤ (s.lives i).gen → 0 < h →
        h ≤ (s.lives j).gen →
        makeCorrelationId (UInt32.ofNat g) i
          = makeCorrelationId (UInt32.ofNat h) j → i = j ∧ g = h)
    ∧ (∀ t args p s', s.threads t = .running (.alloc args p) →
        exec cfg t (.alloc args p) s = some s' → ∀ i,
        s'.word i ≠ s.word i ∨ s'.args i ≠ s.args i →
        (s.lives i).now = .allocating t
          ∧ (s.lives i).argsOf (s.lives i).gen = args)
    ∧ ∀ t pc c s', s.threads t = .running pc → pc.carries = some c →
        exec cfg t pc s = some s' →
        (∀ i, s'.word i ≠ s.word i → i = getSlotId c ∧ Occupies s c)
        ∧ (∀ i a, ¬ (i = getSlotId c ∧ Occupies s c) →
            exec cfg t pc (s.storeArgs i a) = some (s'.storeArgs i a))
        ∧ (s'.heap = s.heap ∨ ∃ args, allocation s c = some args
            ∧ Writes s.heap s'.heap args)
        ∧ (s'.scheduled = s.scheduled ∨ ∃ e args,
            s'.scheduled = s.scheduled ++ [e]
              ∧ allocation s c = some args ∧ e.item.For args) := by
  have hi := inv_reachable hreach
  refine ⟨?_, ?_, ?_, ?_⟩
  · intro u args c hu hc
    have hok := hi.threads u
    rw [hu] at hok
    exact (hok.resolve_left hc).allocation_eq hbound
  · intro i j g h hg hgi hh hhj heq
    have hlti := hbound i
    have hltj := hbound j
    obtain ⟨hver, hslot⟩ := Lib.join_inj heq
    have hnat := congrArg UInt32.toNat hver
    rw [UInt32.toNat_ofNat', UInt32.toNat_ofNat'] at hnat
    exact ⟨hslot, by omega⟩
  · intro t args p s' ht hs i hne
    have hok := hi.threads t
    rw [ht] at hok
    cases hs
    exact execAlloc_writes hok i hne
  · intro t pc c s' ht hc hs
    have hok := hi.threads t
    rw [ht] at hok
    have hconf := confined_exec hi hok hc hs
    refine ⟨?_, ?_, exec_writes hi hbound hok hc hs,
      exec_schedules hbound hok hc hs⟩
    · intro i hne
      have hslot : i = getSlotId c := by
        by_contra hni
        exact hne (hconf.elsewhere i hni).1
      subst hslot
      exact ⟨rfl, (hconf.here.resolve_left fun h => hne h.1).occupies
        hbound⟩
    · intro i a hfree
      have hcommute := exec_storeArgs s i a cfg t hc (by
        rintro ⟨w, p, rfl⟩ hslot
        cases hc
        exact hfree ⟨hslot.symm, (hok.current hi).occupies hbound⟩)
      rw [hcommute, hs]
      rfl

-- == one run

/-- A table of one cell. -/
def oneCell : TableConfig := ⟨1, by decide, fun _ body => (body, true)⟩

/-- Thread 0 allocates the cell for task 7 and stands before the
compare-and-swap of its `PublishSlot`. -/
def publishRun : List (Action Nat) :=
  [.invoke 0 (.allocateSlot { task := some 7, executor := some 1 } 1),
    .step 0, .step 0, .step 0, .step 0, .step 0, .step 0, .step 0, .step 0,
    .collect 0, .invoke 0 (.publishSlot 0x100000000), .step 0]

/-- The state `publishRun` ends in. -/
def publishState : State Nat :=
  ((machine oneCell).run publishRun { table := .init oneCell }).getD
    { table := .init oneCell }

theorem publishState_reachable : (machine oneCell).Reachable publishState :=
  Lib.Machine.reachable_of_run (.start ⟨{}, rfl⟩)
    (show (machine oneCell).run publishRun _ = some publishState from rfl)

theorem publishState_bound (i : UInt32) :
    (publishState.lives i).gen < 2 ^ 32 := by
  by_cases hi : i = 0
  · subst hi
    decide
  · have hlife : publishState.lives i = ({} : CellLife Nat) := by
      show Function.update
        (Function.update (fun _ => ({} : CellLife Nat)) 0 _) 0 _ i = _
      rw [Function.update_of_ne hi, Function.update_of_ne hi]
    rw [hlife]
    decide

/-- The publisher's compare-and-swap changes the word of the cell its own
allocation occupies. -/
theorem table_isolation_publish :
    ∃ s', exec oneCell 0 (.publish 0x100000000 .publish) publishState
        = some s'
      ∧ s'.word 0 ≠ publishState.word 0
      ∧ 0 = getSlotId 0x100000000 ∧ Occupies publishState 0x100000000 := by
  refine ⟨_, rfl, by decide, ?_⟩
  exact ((table_isolation oneCell publishState publishState_reachable
    publishState_bound).2.2.2 0 _ _ _ rfl rfl rfl).1 0 (by decide)

end AntRpc.Slot
