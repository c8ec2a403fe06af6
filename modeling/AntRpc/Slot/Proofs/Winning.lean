/-
How a thread comes to hold a cell. A winner begins at one of three points,
in a cell that was live until then (`exec_seizes`).

What it does to the call's controller when a response resolves the call
is not about what ties the controller to the call (`applyResponse_ties`).
-/
import AntRpc.Slot.Proofs.Stakes

namespace AntRpc.Slot

/-- The first point of a winner. -/
def HoldPc.opening : HoldPc → Bool
  | .discardTimer | .responseClear _ | .failureClear _ => true
  | _ => false

variable {τ : Type} [DecidableEq τ] {cfg : TableConfig} {s s' : State τ}
  {t : τ} {pc : Pc} {w : Winner} {p : HoldPc}

/-- A thread that has just won stands at its first point, and the cell it
won was live. -/
structure Seizes (s : State τ) (w : Winner) (p : HoldPc) : Prop where
  opening : p.opening = true
  live : (s.word (getSlotId w.cid)).state.Live
  gen : w.gen = (s.lives (getSlotId w.cid)).gen

omit [DecidableEq τ] in
theorem After.won_not_hold (a : After) (c : UInt64) :
    a.won c ≠ .running (.hold w p) := by
  cases a <;> nofun

omit [DecidableEq τ] in
theorem After.lost_not_hold (a : After) : a.lost ≠ .running (.hold w p) := by
  cases a <;> nofun

theorem seizes_win {c : UInt64} {l : Lifecycle} {version : UInt32}
    {st : SlotState} {after : After} {q : HoldPc} (hlive : st.Live)
    (hw : s.word (getSlotId c) = ⟨version, st⟩) (hq : q.opening = true)
    (hth : ((s.storeLifecycle (getSlotId c) l).win t c after q).threads t
      = .running (.hold w p)) : Seizes s w p := by
  have hself : ((s.storeLifecycle (getSlotId c) l).win t c after q).threads t
      = .running (.hold ⟨c, (s.lives (getSlotId c)).gen, after⟩ q) :=
    goto_thread ..
  rw [hself] at hth
  cases hth
  exact ⟨hq, by rw [hw]; exact hlive, rfl⟩

theorem publishLost_not_hold (c : UInt64) (l : Lifecycle) :
    (publishLost t c l s).threads t ≠ .running (.hold w p) := by
  unfold publishLost
  split
  · split
    · rw [goto_thread]
      nofun
    · rw [ret_thread]
      nofun
  · rw [ret_thread]
    nofun

theorem execPublish_seizes {c : UInt64} {q : PublishPc} (hsound : q.Sound)
    (hth : (execPublish t c q s).threads t = .running (.hold w p)) :
    Seizes s w p := by
  cases q with
  | failArming code message =>
      simp only [execPublish] at hth
      split at hth
      · next hw => exact seizes_win (by decide) hw rfl hth
      · exact (publishLost_not_hold _ _ hth).elim
  | failInFlight code message =>
      simp only [execPublish] at hth
      split at hth
      · next hw => exact seizes_win (by decide) hw rfl hth
      · rw [ret_thread] at hth
        cases hth
  | deliverPending st r =>
      simp only [execPublish] at hth
      split at hth
      · next hw =>
        refine seizes_win ?_ hw rfl hth
        rcases pendingResolution_live hsound with rfl | rfl <;> decide
      · rw [ret_thread] at hth
        cases hth
  | unregisterPublishedSlot observed =>
      exact (publishLost_not_hold _ _ hth).elim
  | registerPublishedSlot | publish =>
      simp only [execPublish] at hth
      split at hth <;> rw [goto_thread] at hth <;> cases hth
  | takeConnectionFailure =>
      simp only [execPublish] at hth
      split at hth
      · rw [ret_thread] at hth
        cases hth
      · rw [goto_thread] at hth
        cases hth

theorem exec_seizes (hok : ThreadOk s.view t (.running pc))
    (hpc : ∀ w p, pc ≠ .hold w p) (hs : exec cfg t pc s = some s')
    (hth : s'.threads t = .running (.hold w p)) : Seizes s w p := by
  have hjob := exec_doing hok hs
  rw [hth] at hjob
  change w.after.job w.cid = pc.job at hjob
  cases pc with
  | hold w' p' => exact absurd rfl (hpc w' p')
  | dispatch w' d =>
      rw [execDispatch_thread hs] at hth
      exact (After.won_not_hold _ _ hth).elim
  | alloc args q =>
      cases hafter : w.after <;> rw [hafter] at hjob <;> cases hjob
  | attachLoad c id | attachStore c id =>
      cases hafter : w.after <;> rw [hafter] at hjob <;> cases hjob
  | publish c q =>
      cases hs
      exact execPublish_seizes hok hth
  | discard c | responseCas c r =>
      simp only [exec] at hs
      split at hs
      · next hw =>
        cases hs
        exact seizes_win (by decide) hw rfl hth
      · cases hs
        first
          | (rw [ret_thread] at hth; cases hth)
          | (rw [goto_thread] at hth; cases hth)
  | transition c r after =>
      simp only [exec] at hs
      split at hs
      · next hw =>
        cases hs
        exact seizes_win (by decide) hw rfl hth
      · cases hs
        rw [setThread_thread] at hth
        exact (After.lost_not_hold _ hth).elim
  | resolvePending c r =>
      simp only [exec] at hs
      split at hs
      · cases hs
        rw [goto_thread] at hth
        cases hth
      · split at hs <;> cases hs
        · rw [ret_thread] at hth
          cases hth
        · rw [goto_thread] at hth
          cases hth
  | responseUnknown c | responseLate c =>
      cases hs
      rw [ret_thread] at hth
      cases hth
  | failAllTake code message =>
      simp only [exec] at hs
      split at hs <;> cases hs
      · rw [ret_thread] at hth
        cases hth
      · rw [goto_thread] at hth
        cases hth
  | failAllNext rest total code message =>
      simp only [exec] at hs
      split at hs <;> cases hs
      rw [ret_thread] at hth
      cases hth

end AntRpc.Slot

namespace AntRpc

/-- What ties a controller to its call: the registration, and what
`StartCancel`, `NotifyOnCancel` and the completion write. -/
def Controller.ties (ctl : Controller) :
    Bool × Option UInt64 × Option Nat × Bool :=
  (ctl.cancelRequested, ctl.activeSlot, ctl.notifyOnCancel,
    ctl.rpcCompleted)

/-- The same without the registration. -/
def Controller.notices (ctl : Controller) : Bool × Option Nat × Bool :=
  (ctl.cancelRequested, ctl.notifyOnCancel, ctl.rpcCompleted)

end AntRpc

namespace AntRpc.Slot

-- == resolutions

theorem applyMeta_ties (args : CallArgs) (r : Response) (h : Heap)
    (j : Nat) : ((applyMeta args r h).controllers j).ties
      = (h.controllers j).ties := by
  unfold applyMeta
  split
  · rfl
  · next k _ =>
    by_cases hj : j = k
    · subst hj
      simp only [Function.update_self]
      split_ifs <;> rfl
    · simp only [Function.update_of_ne hj]

theorem parseBody_ties (cfg : TableConfig) (args : CallArgs)
    (r : Response) (h : Heap) (j : Nat) :
    ((parseBody cfg args r h).1.controllers j).ties
      = (h.controllers j).ties := by
  unfold parseBody
  split
  · rfl
  · split_ifs
    · simp only
      split_ifs
      · rfl
      · split
        · rfl
        · next k _ =>
          by_cases hj : j = k
          · subst hj
            simp only [Function.update_self]
            rfl
          · simp only [Function.update_of_ne hj]
    · rfl

/-- A response does not touch them. -/
theorem applyResponse_ties (cfg : TableConfig) (args : CallArgs)
    (r : Response) (h : Heap) (j : Nat) :
    ((applyResponse cfg args r h).1.controllers j).ties
      = (h.controllers j).ties := by
  have hraw : ∀ h₁ : Heap,
      (storeRawBody args r h₁).controllers = h₁.controllers := by
    intro h₁
    unfold storeRawBody
    split <;> rfl
  rw [applyResponse, hraw, parseBody_ties, applyMeta_ties]

end AntRpc.Slot
