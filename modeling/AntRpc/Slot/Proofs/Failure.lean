/-
A channel-level failure leaves no published call behind: the table's
steps, seen from one id, are the steps of Slot/Publication.lean, for
every id at once (`pubStep_apply`).

# The second caller of FailAllActiveSlots

`FailAllActiveSlots` returns 0 at once when another call already marked
the table failed, while that other call may still be failing the ids it
took. So it is the return of the call that marked the table that clears
it, not the return of just any call.
-/
import AntRpc.Slot.Publication
import AntRpc.Slot.Proofs.Isolation

namespace AntRpc.Slot

variable {τ : Type}

-- == the view of an id

/-- The winner's caller is `PublishSlot`. -/
def After.isPublish : After → Bool
  | .publish _ => true
  | .complete | .resolve | .discard | .failAll _ _ _ _ => false

/-- The winner has yet to unregister its id. A discarding one never
does. -/
def HoldPc.registered : HoldPc → Bool
  | .responseClear _ | .responseApply _ | .responseCount _
  | .failureClear _ | .failureApply _ | .readTask _ | .takeNotify _ _
  | .recordCompletion _ _ | .unregister _ => true
  | .discardTimer | .discardClear | .cancelTimer _ | .clearFields _
  | .clearTimer _ | .storeFree _ | .releaseLiveSlot _ | .subInFlight _
  | .pushFreeSlot _ => false

/-- Where `PublishSlot` stands. -/
def PublishPc.phase : PublishPc → Phase
  | .registerPublishedSlot => .entering
  | .failArming _ _ => .refused
  | .publish => .publishing
  | .takeConnectionFailure => .published
  | .failInFlight _ _ => .rechecking
  | .unregisterPublishedSlot _ => .lost
  | .deliverPending _ _ => .delivering

/-- A winner that is done with the registration. -/
def After.phase (a : After) : Phase :=
  if a.isPublish then .leaving else .out

/-- Where a thread stands about the id `c`. -/
def phaseOf (c : UInt64) : Thread → Phase
  | .running (.publish d p) => if d = c then p.phase else .out
  | .running (.hold w p) =>
      if w.cid = c then
        if p.registered then .winner w.after.isPublish else w.after.phase
      else .out
  | .running (.dispatch w _) => if w.cid = c then w.after.phase else .out
  | _ => .out

theorem phaseOf_publish (c d : UInt64) (p : PublishPc) :
    phaseOf c (.running (.publish d p)) = if d = c then p.phase else .out :=
  rfl

theorem phaseOf_hold (c : UInt64) (w : Winner) (p : HoldPc) :
    phaseOf c (.running (.hold w p))
      = if w.cid = c then
          if p.registered then .winner w.after.isPublish else w.after.phase
        else .out := rfl

theorem phaseOf_dispatch (c : UInt64) (w : Winner) (item : Dispatch) :
    phaseOf c (.running (.dispatch w item))
      = if w.cid = c then w.after.phase else .out := rfl

/-- The ids `FailAllActiveSlots` has still to fail, after its caller. -/
def After.toFail : After → List UInt64
  | .failAll rest _ _ _ => rest
  | .publish _ | .complete | .resolve | .discard => []

/-- The ids a thread has still to fail. -/
def Thread.toFail : Thread → List UInt64
  | .running (.failAllNext rest _ _ _) => rest
  | .running (.transition c _ (.failAll rest _ _ _)) => c :: rest
  | .running (.hold w _) | .running (.dispatch w _) => w.after.toFail
  | _ => []

/-- The table as seen from `c`. -/
def State.pub (s : State τ) (c : UInt64) : PubView τ where
  inFlight := s.word (getSlotId c) = ⟨getVersion c, .inFlight⟩
  failed := s.table.connectionFailed = true
  active := c ∈ s.table.activeCalls
  count := s.published c
  phase u := phaseOf c (s.threads u)
  pending u := c ∈ (s.threads u).toFail

variable [DecidableEq τ]

/-- The view after thread `t` went on to `th`, in a state that differs
from `s` in the table only. -/
theorem pub_setThread {s s₁ : State τ} {t : τ} {th : Thread} {c : UInt64}
    {p q r : Prop} {n : Nat} (hin : (s₁.pub c).inFlight ↔ p)
    (hact : (s₁.pub c).active ↔ q) (hfail : (s₁.pub c).failed ↔ r)
    (hcount : s₁.published c = n) (hth : s₁.threads = s.threads) :
    (s₁.setThread t th).pub c
      = { ((s.pub c).to t (phaseOf c th)).work t (c ∈ th.toFail) with
          inFlight := p, failed := r, active := q, count := n } := by
  have hphase : (fun u => phaseOf c ((s₁.setThread t th).threads u))
      = Function.update (fun u => phaseOf c (s.threads u)) t
          (phaseOf c th) := by
    funext u
    simp only [State.setThread, hth, Function.update_apply]
    split <;> rfl
  have hpending : (fun u => c ∈ ((s₁.setThread t th).threads u).toFail)
      = Function.update (fun u => c ∈ (s.threads u).toFail) t
          (c ∈ th.toFail) := by
    funext u
    simp only [State.setThread, hth, Function.update_apply]
    split <;> rfl
  unfold State.pub
  rw [hphase, hpending]
  simp only [PubView.to, PubView.work, PubView.mk.injEq, and_true]
  exact ⟨propext hin, propext hfail, propext hact, hcount⟩

/-- A change of a state in its cells and registrations only. -/
structure TableOnly (s s₁ : State τ) : Prop where
  failed : s₁.table.connectionFailed = s.table.connectionFailed
  published : s₁.published = s.published
  threads : s₁.threads = s.threads

section Moves

variable {s s₁ : State τ} {t : τ} {th : Thread} {c : UInt64}

/-- The view after a move that leaves the thread's work as it is. -/
theorem pub_move {p q : Prop} (ho : TableOnly s s₁)
    (hin : (s₁.pub c).inFlight ↔ p) (hact : (s₁.pub c).active ↔ q)
    (hwork : c ∈ th.toFail ↔ (s.pub c).pending t) :
    (s₁.setThread t th).pub c
      = { (s.pub c).to t (phaseOf c th) with inFlight := p, active := q } := by
  have hfail : (s₁.pub c).failed ↔ (s.pub c).failed := by
    show s₁.table.connectionFailed = true ↔ s.table.connectionFailed = true
    rw [ho.failed]
  rw [pub_setThread hin hact hfail (congrFun ho.published c) ho.threads,
    propext hwork]
  have hself : ((s.pub c).to t (phaseOf c th)).work t ((s.pub c).pending t)
      = (s.pub c).to t (phaseOf c th) := PubView.work_self ..
  rw [hself]
  rfl

/-- A move, by the step it is for the id. -/
theorem pubStep_move {p q : Prop} (ho : TableOnly s s₁)
    (hin : (s₁.pub c).inFlight ↔ p) (hact : (s₁.pub c).active ↔ q)
    (hwork : c ∈ th.toFail ↔ (s.pub c).pending t)
    (hstep : PubStep t (s.pub c)
      { (s.pub c).to t (phaseOf c th) with inFlight := p, active := q }) :
    PubStep t (s.pub c) ((s₁.setThread t th).pub c) := by
  rw [pub_move ho hin hact hwork]
  exact hstep

/-- A move the id does not see. -/
theorem pubStep_same (ho : TableOnly s s₁)
    (hin : (s₁.pub c).inFlight ↔ (s.pub c).inFlight)
    (hact : (s₁.pub c).active ↔ (s.pub c).active)
    (hwork : c ∈ th.toFail ↔ (s.pub c).pending t)
    (hphase : phaseOf c th = (s.pub c).phase t) :
    PubStep t (s.pub c) ((s₁.setThread t th).pub c) := by
  refine pubStep_move ho hin hact hwork ?_
  rw [hphase, PubView.to_self]
  exact .stay

/-- A change that no id sees. -/
structure Unseen (s s₁ : State τ) : Prop extends TableOnly s s₁ where
  word : ∀ i, s₁.word i = s.word i
  calls : s₁.table.activeCalls = s.table.activeCalls

/-- A thread goes on, and the id sees nothing of it. -/
theorem pubStep_unseen (ho : Unseen s s₁)
    (hwork : th.toFail = (s.threads t).toFail)
    (hphase : phaseOf c th = phaseOf c (s.threads t)) :
    PubStep t (s.pub c) ((s₁.setThread t th).pub c) := by
  refine pubStep_same ho.toTableOnly ?_ ?_ ?_ hphase
  · show s₁.word _ = _ ↔ s.word _ = _
    rw [ho.word]
  · show c ∈ s₁.table.activeCalls ↔ c ∈ s.table.activeCalls
    rw [ho.calls]
  · show c ∈ th.toFail ↔ c ∈ (s.threads t).toFail
    rw [hwork]

/-- A thread has less to fail, and the id sees nothing else. -/
theorem pubStep_work (hphase : phaseOf c th = phaseOf c (s.threads t))
    (hwork : c ∈ (s.threads t).toFail →
      c ∈ th.toFail ∨ s.word (getSlotId c) ≠ ⟨getVersion c, .inFlight⟩) :
    PubStep t (s.pub c) ((s.setThread t th).pub c) := by
  have hself : (s.pub c).to t (phaseOf c th) = s.pub c := by
    rw [hphase]
    exact PubView.to_self ..
  rw [pub_setThread Iff.rfl Iff.rfl Iff.rfl rfl rfl, hself]
  exact .work _ hwork

end Moves

omit [DecidableEq τ] in
theorem unseen_setSlot {s : State τ} {i : UInt32} {cell : CallSlot}
    (hw : cell.lifecycle = s.word i) : Unseen s (s.setSlot i cell) where
  failed := rfl
  published := rfl
  threads := rfl
  calls := rfl
  word j := by
    unfold State.word State.setSlot
    simp only [Function.update_apply]
    split
    · next h => exact h ▸ hw
    · rfl

omit [DecidableEq τ] in
theorem unseen_cancelDeadlineTimer (s : State τ) (i : UInt32) :
    Unseen s (s.cancelDeadlineTimer i) := by
  obtain ⟨hrest, hword, hcalls⟩ : Unseen s (s.storeTimer i 0) :=
    unseen_setSlot rfl
  unfold State.cancelDeadlineTimer
  simp only
  split
  · exact ⟨⟨hrest.failed, hrest.published, hrest.threads⟩, hword, hcalls⟩
  · exact ⟨hrest, hword, hcalls⟩

omit [DecidableEq τ] in
theorem unseen_onController (s : State τ) (i : UInt32)
    (f : Controller → Controller) : Unseen s (s.onController i f) := by
  unfold State.onController
  split <;> exact ⟨⟨rfl, rfl, rfl⟩, fun _ => rfl, rfl⟩

-- == words, as an id sees them

section Words

variable {s : State τ} {i : UInt32} {w : Lifecycle} {c d : UInt64}

omit [DecidableEq τ] in
/-- A store between two words that are not IN_FLIGHT. -/
theorem inFlight_other (hold : (s.word i).state ≠ .inFlight)
    (hnew : w.state ≠ .inFlight) :
    ((s.storeLifecycle i w).pub c).inFlight ↔ (s.pub c).inFlight := by
  have hword := congrArg CellView.word
    (view_storeLifecycle s (getSlotId c) i w)
  show (s.storeLifecycle i w).word (getSlotId c) = _ ↔ _
  change (s.storeLifecycle i w).word (getSlotId c) = _ at hword
  rw [hword]
  split
  · next hi =>
    constructor
    · intro h
      exact absurd (congrArg Lifecycle.state h) hnew
    · intro h
      have h' : s.word (getSlotId c) = ⟨getVersion c, .inFlight⟩ := h
      rw [hi] at h'
      exact absurd (congrArg Lifecycle.state h') hold
  · exact Iff.rfl

omit [DecidableEq τ] in
/-- A store to the cell of `d`, of `d`'s version, over a word of `d`'s
version. -/
theorem inFlight_same {st : SlotState}
    (hold : (s.word (getSlotId d)).version = getVersion d)
    (hcd : d ≠ c) :
    ((s.storeLifecycle (getSlotId d) ⟨getVersion d, st⟩).pub c).inFlight
      ↔ (s.pub c).inFlight := by
  have hword := congrArg CellView.word
    (view_storeLifecycle s (getSlotId c) (getSlotId d) ⟨getVersion d, st⟩)
  show (s.storeLifecycle _ _).word (getSlotId c) = _ ↔ _
  change (s.storeLifecycle _ _).word (getSlotId c) = _ at hword
  rw [hword]
  split
  · next hi =>
    have hver : getVersion c ≠ getVersion d := by
      intro hv
      exact hcd (by rw [← make_get c, ← make_get d, hi, hv])
    constructor
    · intro h
      exact absurd (congrArg Lifecycle.version h).symm hver
    · intro h
      have h' : s.word (getSlotId c) = ⟨getVersion c, .inFlight⟩ := h
      rw [hi] at h'
      rw [h'] at hold
      exact absurd hold hver
  · exact Iff.rfl

omit [DecidableEq τ] in
/-- The word of `c` right after a store to it. -/
theorem inFlight_self {st : SlotState} :
    ((s.storeLifecycle (getSlotId c) ⟨getVersion c, st⟩).pub c).inFlight
      ↔ st = .inFlight := by
  have hword := congrArg CellView.word
    (view_storeLifecycle s (getSlotId c) (getSlotId c) ⟨getVersion c, st⟩)
  rw [if_pos rfl] at hword
  show (s.storeLifecycle _ _).word (getSlotId c) = _ ↔ _
  change (s.storeLifecycle _ _).word (getSlotId c) = _ at hword
  rw [hword]
  simp

end Words

-- == steps, as an id sees them

section Steps

variable {s s₁ : State τ} {t : τ} {c d : UInt64}

omit [DecidableEq τ] in
/-- A loser of the compare-and-swap on `⟨version, state⟩`. -/
theorem word_state_ne {st : SlotState}
    (h : s.word (getSlotId d) = ⟨getVersion d, st⟩) (hst : st ≠ .inFlight) :
    (s.word (getSlotId d)).state ≠ .inFlight := by
  rw [h]
  exact hst

omit [DecidableEq τ] in
theorem pending_iff {th th' : Thread} (ht : s.threads t = th)
    (h : th'.toFail = th.toFail) :
    c ∈ th'.toFail ↔ (s.pub c).pending t := by
  show _ ↔ c ∈ (s.threads t).toFail
  rw [ht, h]

/-- A publisher's word was not IN_FLIGHT, and it won. -/
theorem pubStep_winUnpublished {p : PublishPc} {st st' : SlotState}
    {outcome : PublishOutcome} {r : SlotResolution}
    (ht : s.threads t = .running (.publish d p))
    (hp : p.phase = .refused ∨ p.phase = .delivering)
    (h : s.word (getSlotId d) = ⟨getVersion d, st⟩)
    (hst : st ≠ .inFlight) (hst' : st' ≠ .inFlight) :
    PubStep t (s.pub c) (((s.storeLifecycle (getSlotId d)
      ⟨getVersion d, st'⟩).win t d (.publish outcome)
        (.failureClear r)).pub c) := by
  have hphase : (s.pub c).phase t = phaseOf c (.running (.publish d p)) :=
    congrArg (phaseOf c) ht
  refine pubStep_move ⟨rfl, rfl, rfl⟩
    (inFlight_other (word_state_ne h hst) hst') Iff.rfl
    (pending_iff ht rfl) ?_
  rw [phaseOf_publish] at hphase
  rw [phaseOf_hold]
  by_cases hcd : d = c
  · subst hcd
    rw [if_pos rfl] at hphase ⊢
    rw [← hphase] at hp
    exact .winUnpublished hp
  · rw [if_neg hcd] at hphase ⊢
    rw [← hphase, PubView.to_self]
    exact .stay

omit [DecidableEq τ] in
theorem not_failed (h : (!s.table.connectionFailed) = true) :
    ¬ (s.pub c).failed := by
  show ¬ (s.table.connectionFailed = true)
  simpa using h

omit [DecidableEq τ] in
theorem is_failed (h : ¬ (!s.table.connectionFailed) = true) :
    (s.pub c).failed := by
  show s.table.connectionFailed = true
  simpa using h

/-- A thread won the IN_FLIGHT call of `d`. -/
theorem pubStep_win {th : Thread} {after : After} {p : HoldPc}
    {st' : SlotState} (ht : s.threads t = th)
    (hth : phaseOf d th = if after.isPublish then .rechecking else .out)
    (hother : d ≠ c → phaseOf c th = .out)
    (hwork : d ≠ c → (c ∈ after.toFail ↔ c ∈ th.toFail))
    (h : s.word (getSlotId d) = ⟨getVersion d, .inFlight⟩)
    (hst' : st' ≠ .inFlight) (hreg : p.registered = true) :
    PubStep t (s.pub c) (((s.storeLifecycle (getSlotId d)
      ⟨getVersion d, st'⟩).win t d after p).pub c) := by
  by_cases hcd : d = c
  · subst hcd
    have hphase : (s.pub d).phase t
        = if after.isPublish then .rechecking else .out := by
      rw [← hth, ← ht]
      rfl
    have hin : (((s.storeLifecycle (getSlotId d)
        ⟨getVersion d, st'⟩).turn (getSlotId d)
          (.holding t false)).pub d).inFlight ↔ False :=
      inFlight_self.trans (iff_false_intro hst')
    show PubStep t _ ((State.setThread _ t _).pub d)
    rw [pub_setThread hin Iff.rfl Iff.rfl rfl rfl, phaseOf_hold, if_pos rfl,
      if_pos hreg]
    exact .win _ _ hphase h
  · refine pubStep_same ⟨rfl, rfl, rfl⟩
      (inFlight_same (congrArg Lifecycle.version h) hcd) Iff.rfl ?_ ?_
    · show c ∈ after.toFail ↔ c ∈ (s.threads t).toFail
      rw [ht]
      exact hwork hcd
    · show phaseOf c _ = phaseOf c (s.threads t)
      rw [phaseOf_hold, if_neg hcd, ht, hother hcd]

/-- A publisher moves on within `PublishSlot`, or returns. -/
theorem pubStep_publishing {p : PublishPc} {th : Thread} {q q' : Prop}
    {next : Phase} (ht : s.threads t = .running (.publish d p))
    (ho : TableOnly s s₁)
    (hin : d = c → ((s₁.pub c).inFlight ↔ q))
    (hact : d = c → ((s₁.pub c).active ↔ q'))
    (hin' : d ≠ c → ((s₁.pub c).inFlight ↔ (s.pub c).inFlight))
    (hact' : d ≠ c → ((s₁.pub c).active ↔ (s.pub c).active))
    (hwork : th.toFail = [])
    (hth : phaseOf c th = if d = c then next else .out)
    (hstep : (s.pub c).phase t = p.phase → d = c →
      PubStep t (s.pub c)
        { (s.pub c).to t next with inFlight := q, active := q' }) :
    PubStep t (s.pub c) ((s₁.setThread t th).pub c) := by
  have hphase : (s.pub c).phase t = phaseOf c (.running (.publish d p)) :=
    congrArg (phaseOf c) ht
  rw [phaseOf_publish] at hphase
  by_cases hcd : d = c
  · refine pubStep_move ho (hin hcd) (hact hcd) (pending_iff ht hwork) ?_
    rw [if_pos hcd] at hphase hth
    rw [hth]
    exact hstep hphase hcd
  · refine pubStep_same ho (hin' hcd) (hact' hcd) (pending_iff ht hwork) ?_
    rw [if_neg hcd] at hphase hth
    rw [hth, hphase]

/-- A publisher moves on without touching the table. -/
theorem pubStep_quietly {p : PublishPc} {th : Thread} {next : Phase}
    (ht : s.threads t = .running (.publish d p)) (hwork : th.toFail = [])
    (hth : phaseOf c th = if d = c then next else .out)
    (hstep : (s.pub c).phase t = p.phase → d = c →
      PubStep t (s.pub c) ((s.pub c).to t next)) :
    PubStep t (s.pub c) ((s.setThread t th).pub c) :=
  pubStep_publishing ht ⟨rfl, rfl, rfl⟩ (fun _ => Iff.rfl)
    (fun _ => Iff.rfl) (fun _ => Iff.rfl) (fun _ => Iff.rfl) hwork hth hstep

/-- A publisher that lost its compare-and-swap from ARMING: in the
refused case nothing was registered, in the other it has just
unregistered. -/
theorem pubStep_publishLost {p : PublishPc} {observed : Lifecycle}
    {calls : List UInt64}
    (ht : s.threads t = .running (.publish d p))
    (hcalls : d ≠ c → (c ∈ calls ↔ c ∈ s.table.activeCalls))
    (hstep : ∀ next, next = .delivering ∨ next = .out →
      (s.pub c).phase t = p.phase → d = c →
      PubStep t (s.pub c)
        { (s.pub c).to t next with active := c ∈ calls }) :
    PubStep t (s.pub c)
      ((publishLost t d observed (s.setActiveCalls calls)).pub c) := by
  unfold publishLost
  split
  · split
    · exact pubStep_publishing ht ⟨rfl, rfl, rfl⟩ (fun _ => Iff.rfl)
        (fun _ => Iff.rfl) (fun _ => Iff.rfl) hcalls rfl rfl
        (hstep .delivering (Or.inl rfl))
    · exact pubStep_publishing ht ⟨rfl, rfl, rfl⟩ (fun _ => Iff.rfl)
        (fun _ => Iff.rfl) (fun _ => Iff.rfl) hcalls rfl (ite_self _).symm
        (hstep .out (Or.inr rfl))
  · exact pubStep_publishing ht ⟨rfl, rfl, rfl⟩ (fun _ => Iff.rfl)
      (fun _ => Iff.rfl) (fun _ => Iff.rfl) hcalls rfl (ite_self _).symm
      (hstep .out (Or.inr rfl))

/-- `PublishSlot`. -/
theorem pubStep_execPublish {p : PublishPc} (hsound : p.Sound)
    (ht : s.threads t = .running (.publish d p)) :
    PubStep t (s.pub c) ((execPublish t d p s).pub c) := by
  cases p with
  | registerPublishedSlot =>
      simp only [execPublish]
      split
      · next hf =>
        have hself : d = c →
            (c ∈ s.table.activeCalls.insert d ↔ True) := by
          rintro rfl
          exact iff_true_intro List.mem_insert_self
        have hother : d ≠ c → (c ∈ s.table.activeCalls.insert d
            ↔ c ∈ s.table.activeCalls) := by
          intro hcd
          rw [List.mem_insert_iff]
          exact or_iff_right fun h => hcd h.symm
        exact pubStep_publishing ht ⟨rfl, rfl, rfl⟩ (fun _ => Iff.rfl)
          hself (fun _ => Iff.rfl) hother rfl rfl
          fun h _ => .register h (not_failed hf)
      · next hf =>
        have hfailed := is_failed hf (c := c)
        exact pubStep_quietly ht rfl rfl fun h _ => .refuse h hfailed
  | failArming code message =>
      simp only [execPublish]
      split
      · next h =>
        exact pubStep_winUnpublished ht (Or.inl rfl) h (by decide)
          (by decide)
      · show PubStep t _ ((publishLost t d _
          (s.setActiveCalls s.table.activeCalls)).pub c)
        refine pubStep_publishLost ht (fun _ => Iff.rfl) ?_
        rintro next (rfl | rfl) h _
        · exact .fallBack h
        · exact .giveUp (Or.inl h)
  | publish =>
      simp only [execPublish]
      split
      · next h =>
        refine pubStep_publishing (q := True) ht ⟨rfl, rfl, rfl⟩ ?_
          (fun _ => Iff.rfl) ?_ (fun _ => Iff.rfl) rfl rfl
          fun h _ => .publish h
        · rintro rfl
          exact inFlight_self.trans (iff_true_intro rfl)
        · intro hcd
          exact inFlight_same (congrArg Lifecycle.version h) hcd
      · exact pubStep_quietly ht rfl rfl fun h _ => .miss h
  | takeConnectionFailure =>
      simp only [execPublish]
      split
      · next hf =>
        exact pubStep_quietly ht rfl (ite_self _).symm
          fun h _ => .keep h (not_failed hf)
      · next hf =>
        have hfailed := is_failed hf (c := c)
        refine pubStep_publishing ht ⟨rfl, rfl, rfl⟩ (fun _ => Iff.rfl)
          (fun _ => Iff.rfl) (fun _ => Iff.rfl) ?_ rfl rfl
          fun h _ => .recheck _ List.mem_of_mem_erase h hfailed
        intro hcd
        exact List.mem_erase_of_ne fun h => hcd h.symm
  | failInFlight code message =>
      simp only [execPublish]
      split
      · next h =>
        exact pubStep_win ht (if_pos rfl) (fun hcd => if_neg hcd)
          (fun _ => Iff.rfl) h (by decide) rfl
      · next h =>
        refine pubStep_quietly ht rfl (ite_self _).symm ?_
        rintro hphase rfl
        exact .giveUp (Or.inr (Or.inr ⟨hphase, h⟩))
  | unregisterPublishedSlot observed =>
      refine pubStep_publishLost ht ?_ ?_
      · intro hcd
        exact List.mem_erase_of_ne fun h => hcd h.symm
      · exact fun next hnext h _ =>
          .unregister next _ List.mem_of_mem_erase h hnext
  | deliverPending st r =>
      simp only [execPublish]
      split
      · next h =>
        refine pubStep_winUnpublished ht (Or.inr rfl) h ?_ ?_
        · rcases pendingResolution_live hsound with rfl | rfl <;> decide
        · intro heq
          exact terminalState_not_live r (heq ▸ by decide)
      · refine pubStep_quietly ht rfl (ite_self _).symm ?_
        exact fun h _ => .giveUp (Or.inr (Or.inl h))

/-- A winner goes on while it holds its cell. -/
theorem pubStep_held {w : Winner} {p p' : HoldPc}
    (ht : s.threads t = .running (.hold w p)) (ho : Unseen s s₁)
    (hreg : p'.registered = p.registered) :
    PubStep t (s.pub c) ((s₁.goto t (.hold w p')).pub c) := by
  refine pubStep_unseen ho ?_ ?_
  · rw [ht]
    rfl
  · rw [ht, phaseOf_hold, phaseOf_hold, hreg]

omit [DecidableEq τ] in
theorem After.won_phase (a : After) (c d : UInt64) :
    phaseOf c (a.won d) = .out := by
  cases a <;> rfl

omit [DecidableEq τ] in
theorem After.won_toFail (a : After) (d : UInt64) :
    (a.won d).toFail = a.toFail := by
  cases a <;> rfl

/-- A winner is done and its caller goes on. -/
theorem pubStep_won {w : Winner} {th : Thread} (ht : s.threads t = th)
    (hwork : th.toFail = w.after.toFail)
    (hphase : phaseOf c th = if w.cid = c then w.after.phase else .out)
    (ho : Unseen s s₁) :
    PubStep t (s.pub c) ((s₁.setThread t (w.after.won w.cid)).pub c) := by
  have hfail : (w.after.won w.cid).toFail = (s.threads t).toFail := by
    rw [ht, hwork, After.won_toFail]
  by_cases hleave : phaseOf c th = .leaving
  · refine pubStep_move ho.toTableOnly ?_ ?_
      (pending_iff ht (hfail.trans (by rw [ht]))) ?_ (p := (s.pub c).inFlight)
      (q := (s.pub c).active)
    · show s₁.word _ = _ ↔ s.word _ = _
      rw [ho.word]
    · show c ∈ s₁.table.activeCalls ↔ c ∈ s.table.activeCalls
      rw [ho.calls]
    · rw [After.won_phase]
      exact .leave ((congrArg (phaseOf c) ht).trans hleave)
  · refine pubStep_unseen ho hfail ?_
    rw [ht, After.won_phase]
    revert hleave
    rw [hphase]
    unfold After.phase
    split_ifs <;> simp

/-- A winner, while it holds its cell. -/
theorem pubStep_execHold {cfg cfg' : TableConfig} (hi : Inv cfg' s)
    {w : Winner} {p : HoldPc} (hok : HoldOk s.view t w p)
    (ht : s.threads t = .running (.hold w p)) :
    PubStep t (s.pub c) ((execHold cfg t w p s).pub c) := by
  have hplain : Unseen s s := ⟨⟨rfl, rfl, rfl⟩, fun _ => rfl, rfl⟩
  have hdead : (s.word (getSlotId w.cid)).state ≠ .inFlight := by
    intro h
    refine ((hi.cells _).holding t _ hok.now).2.1 ?_
    show (s.word (getSlotId w.cid)).state.Live
    rw [h]
    decide
  cases p with
  | discardTimer | cancelTimer item =>
      exact pubStep_held ht (unseen_cancelDeadlineTimer ..) rfl
  | discardClear | responseClear r | failureClear r | failureApply r =>
      exact pubStep_held ht (unseen_onController ..) rfl
  | responseApply r | responseCount code | recordCompletion code item
  | releaseLiveSlot item | subInFlight item =>
      exact pubStep_held ht ⟨⟨rfl, rfl, rfl⟩, fun _ => rfl, rfl⟩ rfl
  | readTask code => exact pubStep_held ht hplain rfl
  | takeNotify code item =>
      simp only [execHold]
      split
      · exact pubStep_held ht hplain rfl
      · exact pubStep_held ht ⟨⟨rfl, rfl, rfl⟩, fun _ => rfl, rfl⟩ rfl
  | unregister item =>
      have hphase : (s.pub c).phase t
          = if w.cid = c then .winner w.after.isPublish else .out :=
        congrArg (phaseOf c) ht
      simp only [execHold]
      by_cases hcd : w.cid = c
      · refine pubStep_move ⟨rfl, rfl, rfl⟩ Iff.rfl Iff.rfl
          (pending_iff ht rfl) ?_
        rw [phaseOf_hold, if_pos hcd]
        rw [if_pos hcd] at hphase
        refine .erase _ _ List.mem_of_mem_erase hphase fun hin => hdead ?_
        rw [hcd]
        exact congrArg Lifecycle.state hin
      · refine pubStep_same ⟨rfl, rfl, rfl⟩ Iff.rfl ?_
          (pending_iff ht rfl) ?_
        · exact List.mem_erase_of_ne fun h => hcd h.symm
        · rw [hphase, phaseOf_hold, if_neg hcd, if_neg hcd]
  | clearFields item | clearTimer item =>
      exact pubStep_held ht (unseen_setSlot rfl) rfl
  | storeFree item =>
      refine pubStep_same ⟨rfl, rfl, rfl⟩
        (inFlight_other hdead (by simp)) Iff.rfl (pending_iff ht rfl) ?_
      exact (congrArg (phaseOf c) ht).symm
  | pushFreeSlot item =>
      obtain ⟨hrest, hword, hcalls⟩ : Unseen s
          (s.setSlot (getSlotId w.cid)
            { s.table.slots (getSlotId w.cid) with
              nextFree := s.table.freeHead }) := unseen_setSlot rfl
      cases item with
      | some d =>
          refine pubStep_unseen ⟨⟨rfl, rfl, rfl⟩, hword, hcalls⟩ ?_ ?_
          · rw [ht]
            rfl
          · rw [ht]
            rfl
      | none => exact pubStep_won ht rfl rfl ⟨⟨rfl, rfl, rfl⟩, hword, hcalls⟩

/-- The end of a finalizer. -/
theorem pubStep_execDispatch {w : Winner} {item : Dispatch} {s' : State τ}
    (ht : s.threads t = .running (.dispatch w item))
    (hs : execDispatch t w item s = some s') :
    PubStep t (s.pub c) (s'.pub c) := by
  unfold execDispatch at hs
  simp only at hs
  split_ifs at hs <;> cases hs
  · exact pubStep_won ht rfl rfl ⟨⟨rfl, rfl, rfl⟩, fun _ => rfl, rfl⟩
  · exact pubStep_won ht rfl rfl ⟨⟨rfl, rfl, rfl⟩, fun _ => rfl, rfl⟩

/-- `AllocateSlot`. -/
theorem pubStep_execAlloc {cfg : TableConfig} (hi : Inv cfg s)
    {args : CallArgs} {p : AllocPc} (hok : AllocOk s.view t args p)
    (ht : s.threads t = .running (.alloc args p)) :
    PubStep t (s.pub c) ((execAlloc t args p s).pub c) := by
  have hgo : ∀ {s₁ : State τ} {th : Thread}, Unseen s s₁ →
      th.toFail = [] → phaseOf c th = .out →
      PubStep t (s.pub c) ((s₁.setThread t th).pub c) := by
    intro s₁ th ho hwork hphase
    refine pubStep_unseen ho ?_ ?_
    · rw [ht, hwork]
      rfl
    · rw [ht, hphase]
      rfl
  have hplain : Unseen s s := ⟨⟨rfl, rfl, rfl⟩, fun _ => rfl, rfl⟩
  cases p with
  | loadActive limit => exact hgo hplain rfl rfl
  | casActive limit current =>
      simp only [execAlloc]
      split_ifs
      · exact hgo ⟨⟨rfl, rfl, rfl⟩, fun _ => rfl, rfl⟩ rfl rfl
      · exact hgo hplain rfl rfl
      · exact hgo hplain rfl rfl
  | popFreeSlot =>
      simp only [execAlloc]
      split
      · exact hgo hplain rfl rfl
      · exact hgo ⟨⟨rfl, rfl, rfl⟩, fun _ => rfl, rfl⟩ rfl rfl
  | undoActive => exact hgo ⟨⟨rfl, rfl, rfl⟩, fun _ => rfl, rfl⟩ rfl rfl
  | loadVersion slot => exact hgo hplain rfl rfl
  | storeFields slot version => exact hgo (unseen_setSlot rfl) rfl rfl
  | resetTimer slot version => exact hgo (unseen_setSlot rfl) rfl rfl
  | storeArming slot version =>
      have hfree : (s.word slot).state = .free :=
        ((hi.cells slot).allocating t hok.1.now).2.1
      refine pubStep_same ⟨rfl, rfl, rfl⟩
        (inFlight_other (hfree ▸ by decide) (by simp)) Iff.rfl
        (pending_iff ht rfl) ?_
      exact (congrArg (phaseOf c) ht).symm
  | addInFlight slot version =>
      exact hgo ⟨⟨rfl, rfl, rfl⟩, fun _ => rfl, rfl⟩ rfl rfl

omit [DecidableEq τ] in
/-- An id that is IN_FLIGHT names a cell of the table. -/
theorem hasSlot_of_inFlight {cfg : TableConfig} (hi : Inv cfg s)
    (h : s.word (getSlotId c) = ⟨getVersion c, .inFlight⟩) :
    cfg.hasSlot c = true := by
  have hcur := current_of_cas hi h (by decide)
  exact decide_eq_true (hi.popped _ hcur.1).2

/-- `TransitionAndFinalize`. -/
theorem pubStep_transition {cfg : TableConfig} {r : SlotResolution}
    {after : After} {s' : State τ} (hok : after.Resolves)
    (ht : s.threads t = .running (.transition d r after))
    (hs : exec cfg t (.transition d r after) s = some s') :
    PubStep t (s.pub c) (s'.pub c) := by
  have hfail : (s.threads t).toFail
      = (Thread.running (.transition d r after)).toFail := by rw [ht]
  simp only [exec] at hs
  split at hs
  · next h =>
    cases hs
    have hst : r.terminalState ≠ .inFlight := by
      intro heq
      exact terminalState_not_live r (heq ▸ by decide)
    refine pubStep_win ht ?_ (fun _ => rfl) ?_ h hst rfl
    · cases after with
      | resolve | failAll => rfl
      | publish | complete | discard => exact hok.elim
    · intro hcd
      cases after with
      | resolve => exact Iff.rfl
      | failAll rest total code message =>
          have hne : c ≠ d := fun heq => hcd heq.symm
          exact (List.mem_cons.trans (or_iff_right hne)).symm
      | publish | complete | discard => exact hok.elim
  · next h =>
    cases hs
    refine pubStep_work ?_ ?_
    · rw [ht]
      cases after <;> rfl
    · rw [hfail]
      intro hmem
      cases after with
      | failAll rest total code message =>
          rcases List.mem_cons.mp hmem with rfl | hrest
          · exact Or.inr h
          · exact Or.inl hrest
      | resolve | publish | complete | discard => exact Or.inl hmem

/-- The section of `FailAllActiveSlots` that marks the table. -/
theorem pubStep_failAllTake {cfg : TableConfig} {code : Int32}
    {message : String} {s' : State τ}
    (ht : s.threads t = .running (.failAllTake code message))
    (hs : exec cfg t (.failAllTake code message) s = some s') :
    PubStep t (s.pub c) (s'.pub c) := by
  simp only [exec] at hs
  split at hs
  · cases hs
    exact pubStep_unseen ⟨⟨rfl, rfl, rfl⟩, fun _ => rfl, rfl⟩
      (by rw [ht]; rfl) (by rw [ht]; rfl)
  · next hf =>
    cases hs
    have hself : (s.pub c).to t .out = s.pub c := by
      have hphase : phaseOf c (s.threads t) = .out := by
        rw [ht]
        rfl
      rw [← hphase]
      exact PubView.to_self ..
    rw [State.goto, pub_setThread (s := s) (p := (s.pub c).inFlight)
      (q := False) (r := True) ?_ ?_ ?_ ?_ ?_]
    · show PubStep t _ { ((s.pub c).to t .out).work t (s.pub c).active with
        failed := True, active := False }
      rw [hself]
      exact .failAll hf
    · exact Iff.rfl
    · exact iff_false_intro List.not_mem_nil
    · exact iff_true_intro rfl
    · rfl
    · rfl

/-- One step of a running operation. -/
theorem pubStep_exec {cfg cfg' : TableConfig} (hi : Inv cfg' s) {pc : Pc}
    {s' : State τ} (ht : s.threads t = .running pc)
    (hs : exec cfg t pc s = some s') :
    PubStep t (s.pub c) (s'.pub c) := by
  have hok := hi.threads t
  rw [ht] at hok
  have hgo : ∀ {s₁ : State τ} {th : Thread}, Unseen s s₁ →
      (Thread.running pc).toFail = [] → phaseOf c (.running pc) = .out →
      th.toFail = [] → phaseOf c th = .out →
      PubStep t (s.pub c) ((s₁.setThread t th).pub c) := by
    intro s₁ th ho hwork hphase hwork' hphase'
    refine pubStep_unseen ho ?_ ?_
    · rw [ht, hwork, hwork']
    · rw [ht, hphase, hphase']
  have hplain : Unseen s s := ⟨⟨rfl, rfl, rfl⟩, fun _ => rfl, rfl⟩
  cases pc with
  | alloc args p => cases hs; exact pubStep_execAlloc hi hok ht
  | publish d p => cases hs; exact pubStep_execPublish hok ht
  | hold w p => cases hs; exact pubStep_execHold hi hok ht
  | dispatch w item => exact pubStep_execDispatch ht hs
  | transition d r after => exact pubStep_transition hok ht hs
  | failAllTake code message => exact pubStep_failAllTake ht hs
  | discard d =>
      simp only [exec] at hs
      split at hs
      · next h =>
        cases hs
        refine pubStep_same ⟨rfl, rfl, rfl⟩
          (inFlight_other (word_state_ne h (by decide)) (by simp)) Iff.rfl
          (pending_iff ht rfl) ?_
        show phaseOf c _ = phaseOf c (s.threads t)
        rw [ht]
        exact ite_self _
      · cases hs
        exact hgo hplain rfl rfl rfl rfl
  | attachLoad d timerId =>
      simp only [exec] at hs
      split_ifs at hs <;> cases hs
      · exact hgo hplain rfl rfl rfl rfl
      · exact hgo hplain rfl rfl rfl rfl
      · exact hgo hplain rfl rfl rfl rfl
  | attachStore d timerId =>
      cases hs
      exact hgo (unseen_setSlot rfl) rfl rfl rfl rfl
  | responseUnknown d | responseLate d =>
      cases hs
      exact hgo ⟨⟨rfl, rfl, rfl⟩, fun _ => rfl, rfl⟩ rfl rfl rfl rfl
  | responseCas d r =>
      simp only [exec] at hs
      split at hs
      · next h =>
        cases hs
        exact pubStep_win ht rfl (fun _ => rfl) (fun _ => Iff.rfl) h
          (by decide) rfl
      · cases hs
        exact hgo hplain rfl rfl rfl rfl
  | resolvePending d r =>
      simp only [exec] at hs
      split at hs
      · cases hs
        exact hgo hplain rfl rfl rfl rfl
      · next pending hpending =>
        split at hs
        · next h =>
          cases hs
          have hst : pending ≠ .inFlight := by
            rcases pendingState_eq hpending with rfl | rfl <;> decide
          refine pubStep_same ⟨rfl, rfl, rfl⟩
            (inFlight_other (word_state_ne h (by decide)) hst) Iff.rfl
            (pending_iff ht rfl) ?_
          exact (congrArg (phaseOf c) ht).symm
        · cases hs
          exact hgo hplain rfl rfl rfl rfl
  | failAllNext rest total code message =>
      simp only [exec] at hs
      split at hs
      · next h =>
        cases hs
        subst h
        exact hgo hplain rfl rfl rfl rfl
      · cases hs

/-- The next id of `FailAllActiveSlots`. An id without a cell is
dropped, and no such id is IN_FLIGHT. -/
theorem pubStep_pick {cfg : TableConfig} (hi : Inv cfg s) {pc : Pc}
    {s' : State τ} (ht : s.threads t = .running pc)
    (hs : execPick cfg t d pc s = some s') :
    PubStep t (s.pub c) (s'.pub c) := by
  cases pc with
  | failAllNext rest total code message =>
      simp only [execPick] at hs
      split at hs
      · next hmem =>
        split at hs
        · cases hs
          refine pubStep_work (by rw [ht]; rfl) fun h => Or.inl ?_
          rw [ht] at h
          exact (List.perm_cons_erase hmem).mem_iff.mp h
        · next hslot =>
          cases hs
          refine pubStep_work (by rw [ht]; rfl) fun h => ?_
          rw [ht] at h
          by_cases hcd : c = d
          · subst hcd
            exact Or.inr fun hin => hslot (hasSlot_of_inFlight hi hin)
          · exact Or.inl ((List.mem_erase_of_ne hcd).mpr h)
      · cases hs
  | _ => cases hs

/-- Entering `PublishSlot`. An id without a cell goes no further. -/
theorem pubStep_enterPublish {cfg : TableConfig}
    (ht : s.threads t = .idle) :
    PubStep t (s.pub c) ((invoke cfg t (.publishSlot d) s).pub c) := by
  have hout : (s.pub c).phase t = .out := by
    show phaseOf c (s.threads t) = .out
    rw [ht]
    rfl
  -- the view after entering, by the count the id gets
  have hview : ∀ (th : Thread) (n : Nat), th.toFail = [] →
      Function.update s.published d (s.published d + 1) c = n →
      (State.setThread { s with
        published := Function.update s.published d (s.published d + 1) }
          t th).pub c
        = { (s.pub c).to t (phaseOf c th) with count := n } := by
    intro th n hth hn
    have hwork : (c ∈ th.toFail) = (s.pub c).pending t := by
      show _ = (c ∈ (s.threads t).toFail)
      rw [ht, hth]
      rfl
    refine Eq.trans (pub_setThread (s := s) (p := (s.pub c).inFlight)
      (q := (s.pub c).active) (r := (s.pub c).failed) ?_ ?_ ?_ hn rfl) ?_
    · exact Iff.rfl
    · exact Iff.rfl
    · exact Iff.rfl
    · rw [hwork]
      have hself := PubView.work_self ((s.pub c).to t (phaseOf c th)) t
      show { ((s.pub c).to t (phaseOf c th)).work t
        (((s.pub c).to t (phaseOf c th)).pending t) with count := n } = _
      rw [hself]
  by_cases hcd : d = c
  · subst hcd
    have hcount : Function.update s.published d (s.published d + 1) d
        = (s.pub d).count + 1 := Function.update_self ..
    simp only [invoke, enter]
    split
    · rw [hview _ _ rfl hcount, phaseOf_publish, if_pos rfl]
      exact .enter hout
    · rw [hview _ _ rfl hcount]
      show PubStep t _ { (s.pub d).to t .out with
        count := (s.pub d).count + 1 }
      rw [← hout, PubView.to_self]
      exact .bounce
  · have hcount : Function.update s.published d (s.published d + 1) c
        = (s.pub c).count := Function.update_of_ne (fun h => hcd h.symm) ..
    have hstay : ∀ th : Thread, phaseOf c th = .out →
        PubStep t (s.pub c) { (s.pub c).to t (phaseOf c th) with
          count := (s.pub c).count } := by
      intro th hth
      rw [hth, ← hout, PubView.to_self]
      exact .stay
    simp only [invoke, enter]
    split
    · rw [hview _ _ rfl hcount]
      exact hstay _ (if_neg hcd)
    · rw [hview _ _ rfl hcount]
      exact hstay _ rfl

/-- Entering an operation. -/
theorem pubStep_invoke {cfg : TableConfig} {op : Op}
    (ht : s.threads t = .idle) :
    PubStep t (s.pub c) ((invoke cfg t op s).pub c) := by
  have hgo : ∀ {th : Thread}, th.toFail = [] → phaseOf c th = .out →
      PubStep t (s.pub c) ((s.setThread t th).pub c) := by
    intro th hwork hphase
    refine pubStep_unseen ⟨⟨rfl, rfl, rfl⟩, fun _ => rfl, rfl⟩ ?_ ?_
    · rw [ht, hwork]
      rfl
    · rw [ht, hphase]
      rfl
  cases op with
  | publishSlot d => exact pubStep_enterPublish ht
  | allocateSlot args maxInFlight | discardArmingSlot d
  | attachDeadlineTimer d timerId | completeResponseSlot d response =>
      simp only [invoke, enter]
      split_ifs <;> exact hgo rfl rfl
  | timeoutSlot d message | cancelSlot d message | failSlot d code message =>
      simp only [invoke, enter, resolveTerminal]
      split_ifs <;> exact hgo rfl rfl
  | failAllActiveSlots code message => exact hgo rfl rfl

end Steps

/-- Every action is a step of its thread about the id, or the id does not
see it. -/
theorem pubStep_apply {cfg : TableConfig} {s s' : State τ} {a : Action τ}
    (hi : Inv cfg s) (c : UInt64) (hs : apply cfg a s = some s') :
    match a.thread with
    | some t => PubStep t (s.pub c) (s'.pub c)
    | none => s'.pub c = s.pub c := by
  cases a with
  | invoke t op =>
      simp only [apply] at hs
      split at hs
      · next ht =>
        cases hs
        exact pubStep_invoke ht
      · cases hs
  | step t =>
      simp only [apply] at hs
      split at hs
      · next pc ht => exact pubStep_exec hi ht hs
      · cases hs
  | spurious t =>
      simp only [apply] at hs
      split at hs
      · next args limit current ht =>
        split at hs
        · cases hs
          exact pubStep_unseen ⟨⟨rfl, rfl, rfl⟩, fun _ => rfl, rfl⟩
            (by rw [ht]; rfl) (by rw [ht]; rfl)
        · cases hs
      · cases hs
  | pick t d =>
      simp only [apply] at hs
      split at hs
      · next pc ht => exact pubStep_pick hi ht hs
      · cases hs
  | collect t =>
      simp only [apply] at hs
      split at hs
      · next r ht =>
        cases hs
        exact pubStep_unseen ⟨⟨rfl, rfl, rfl⟩, fun _ => rfl, rfl⟩
          (by rw [ht]; rfl) (by rw [ht]; rfl)
      · cases hs
  | client heap metrics =>
      cases hs
      rfl

-- == invariants

omit [DecidableEq τ] in
/-- Nobody has touched any id yet. -/
theorem pubInv_init {cfg : TableConfig} {s : State τ} (hs : Start cfg s)
    (c : UInt64) : PubInv (s.pub c) := by
  obtain ⟨heap, rfl⟩ := hs
  have hnot : ¬ (State.pub (τ := τ)
      { table := .init cfg, heap := heap } c).inFlight := by
    intro h
    exact absurd (congrArg Lifecycle.state h) (by simp [State.word,
      SlotTable.init])
  exact {
    zero := fun _ => ⟨hnot, fun _ => rfl⟩
    unique := fun u _ h => absurd rfl h.1
    early := fun u h => by rcases h with h | h | h <;> cases h
    lost := fun u h => by rcases h with h | h <;> cases h
    registered := fun u h => by cases h
    safe := fun h => absurd h hnot
    resolved := fun _ h => absurd h hnot }

/-- The invariant of every id published at most once. -/
theorem pubInv_reachable {cfg : TableConfig} {s : State τ}
    (h : (machine cfg).Reachable s) (c : UInt64)
    (hcount : s.published c ≤ 1) : PubInv (s.pub c) := by
  refine h.invariant
    (I := fun s => s.published c ≤ 1 → PubInv (s.pub c))
    (fun s hs _ => pubInv_init hs c) ?_ hcount
  intro s s' a hreach ih _ hs hle
  have hstep := pubStep_apply (inv_reachable hreach) c hs
  cases hth : a.thread with
  | some t =>
      simp only [hth] at hstep
      exact hstep.inv (ih (hstep.count_le.trans hle)) hle
  | none =>
      simp only [hth] at hstep
      have hcount : s'.published c = s.published c :=
        congrArg PubView.count hstep
      rw [hstep]
      exact ih (hcount ▸ hle)

/-- A failed table stays failed and has nothing registered. -/
theorem failed_step {cfg : TableConfig} {s s' : State τ} {a : Action τ}
    (hi : Inv cfg s) (hs : apply cfg a s = some s') (c : UInt64)
    (h : (s.pub c).failed → ¬ (s.pub c).active) :
    ((s.pub c).failed → (s'.pub c).failed)
      ∧ ((s'.pub c).failed → ¬ (s'.pub c).active) := by
  have hstep := pubStep_apply hi c hs
  cases hth : a.thread with
  | some t =>
      simp only [hth] at hstep
      refine ⟨fun hf => (hstep.failed_mono hf (h hf)).1, fun hf' => ?_⟩
      by_cases hf : (s.pub c).failed
      · exact (hstep.failed_mono hf (h hf)).2
      · exact hstep.marks hf hf'
  | none =>
      simp only [hth] at hstep
      rw [hstep]
      exact ⟨id, h⟩

theorem failed_reachable {cfg : TableConfig} {s : State τ}
    (h : (machine cfg).Reachable s) (c : UInt64) :
    (s.pub c).failed → ¬ (s.pub c).active := by
  refine h.invariant
    (I := fun s : State τ => (s.pub c).failed → ¬ (s.pub c).active) ?_ ?_
  · rintro s ⟨heap, rfl⟩ hf
    cases hf
  · intro s s' a hreach ih _ hs
    exact (failed_step (inv_reachable hreach) hs c ih).2

/-- The mark stays. -/
theorem failed_run {cfg : TableConfig} {s s' : State τ}
    {as : List (Action τ)} (h : (machine cfg).Reachable s)
    (hr : (machine cfg).run as s = some s')
    (hf : s.table.connectionFailed = true) :
    s'.table.connectionFailed = true := by
  induction as generalizing s with
  | nil =>
      cases hr
      exact hf
  | cons a as ih =>
      obtain ⟨s₁, h₁, h₂⟩ := Option.bind_eq_some_iff.mp hr
      have hkeep := (failed_step (inv_reachable h) h₁ 0
        (failed_reachable h 0)).1 hf
      exact ih (h.step trivial h₁) h₂ hkeep

-- == results

/-- The thread is inside `PublishSlot`. -/
def Thread.publishing : Thread → Bool
  | .running (.publish _ _) => true
  | .running (.hold w _) | .running (.dispatch w _) => w.after.isPublish
  | _ => false

/-- The winner's caller is `FailAllActiveSlots`. -/
def After.isFailAll : After → Bool
  | .failAll _ _ _ _ => true
  | .publish _ | .complete | .resolve | .discard => false

/-- The thread is inside the `FailAllActiveSlots` that marked the
table. -/
def Thread.failing : Thread → Bool
  | .running (.failAllNext _ _ _ _) => true
  | .running (.transition _ _ after) => after.isFailAll
  | .running (.hold w _) | .running (.dispatch w _) => w.after.isFailAll
  | _ => false

theorem publishing_of_phase {c : UInt64} {th : Thread}
    (h : phaseOf c th = .published ∨ phaseOf c th = .rechecking) :
    th.publishing = true := by
  match th, h with
  | .running (.publish _ _), _ => rfl
  | .running (.hold w p), h =>
      rw [phaseOf_hold] at h
      unfold After.phase at h
      split_ifs at h <;> simp_all
  | .running (.dispatch w p), h =>
      rw [phaseOf_dispatch] at h
      unfold After.phase at h
      split_ifs at h <;> simp_all
  | .idle, h | .returned _, h
  | .running (.alloc _ _), h | .running (.discard _), h
  | .running (.attachLoad _ _), h | .running (.attachStore _ _), h
  | .running (.responseUnknown _), h | .running (.responseCas _ _), h
  | .running (.responseLate _), h | .running (.resolvePending _ _), h
  | .running (.transition _ _ _), h | .running (.failAllTake _ _), h
  | .running (.failAllNext _ _ _ _), h => rcases h with h | h <;> cases h

theorem failing_of_toFail {c : UInt64} {th : Thread} (h : c ∈ th.toFail) :
    th.failing = true := by
  have hafter : ∀ a : After, c ∈ a.toFail → a.isFailAll = true := by
    intro a ha
    cases a with
    | failAll => rfl
    | publish | complete | resolve | discard => cases ha
  match th, h with
  | .running (.failAllNext _ _ _ _), _ => rfl
  | .running (.transition _ _ (.failAll _ _ _ _)), _ => rfl
  | .running (.hold w _), h => exact hafter _ h
  | .running (.dispatch w _), h => exact hafter _ h

/-- **A channel-level failure leaves no published call unresolved.** In
every run in which each allocated id is published at most once: while the
table is not failed every IN_FLIGHT cell is registered; once it is failed
nothing is registered any more, in any continuation of the run; and once
the `FailAllActiveSlots` that marked the table has returned, whenever no
thread is inside `PublishSlot` no cell is IN_FLIGHT. -/
theorem failure_leaves_none_inFlight (cfg : TableConfig) (s : State τ)
    (hreach : (machine cfg).Reachable s)
    (honce : ∀ c args, Named s.view c args → s.published c ≤ 1) :
    (s.table.connectionFailed = false → ∀ i,
        (s.word i).state = .inFlight →
        makeCorrelationId (s.word i).version i ∈ s.table.activeCalls)
    ∧ (s.table.connectionFailed = true → ∀ as s',
        (machine cfg).run as s = some s' →
        s'.table.connectionFailed = true ∧ s'.table.activeCalls = [])
    ∧ (s.table.connectionFailed = true →
        (∀ u, (s.threads u).failing = false) →
        (∀ u, (s.threads u).publishing = false) →
        ∀ i, (s.word i).state ≠ .inFlight) := by
  have hinv := inv_reachable hreach
  -- the id of an IN_FLIGHT cell is allocated, so it was published once
  have hpub : ∀ i, (s.word i).state = .inFlight →
      (s.pub (makeCorrelationId (s.word i).version i)).inFlight
        ∧ PubInv (s.pub (makeCorrelationId (s.word i).version i)) := by
    intro i hi
    have hin : s.word (getSlotId (makeCorrelationId (s.word i).version i))
        = ⟨getVersion (makeCorrelationId (s.word i).version i),
            .inFlight⟩ := by
      rw [getSlotId_make, getVersion_make, ← hi]
    obtain ⟨hpos, hver⟩ := current_of_cas hinv hin (by decide)
    refine ⟨hin, pubInv_reachable hreach _ ?_⟩
    exact honce _ _ ⟨_, hpos, Nat.le_refl _, hver, rfl⟩
  refine ⟨?_, ?_, ?_⟩
  · intro hf i hi
    obtain ⟨hin, hp⟩ := hpub i hi
    refine (hp.safe hin).resolve_left fun hfailed => ?_
    exact Bool.false_ne_true (hf.symm.trans hfailed)
  · intro hf as s' hr
    have hf' := failed_run hreach hr hf
    refine ⟨hf', List.eq_nil_iff_forall_not_mem.mpr fun c => ?_⟩
    exact failed_reachable (Lib.Machine.reachable_of_run hreach hr) c hf'
  · intro hf hfailing hpublishing i hi
    obtain ⟨hin, hp⟩ := hpub i hi
    rcases hp.resolved hf hin with ⟨u, hu⟩ | ⟨u, hu⟩
    · exact Bool.false_ne_true
        ((hpublishing u).symm.trans (publishing_of_phase hu))
    · exact Bool.false_ne_true
        ((hfailing u).symm.trans (failing_of_toFail hu))

-- == two failures

/-- Thread 0 publishes a call and returns, thread 1 marks the table
failed and takes the id, thread 2 finds the table marked and returns. -/
def failAllRun : List (Action Nat) :=
  publishRun ++ [.step 0, .step 0, .collect 0,
    .invoke 1 (.failAllActiveSlots 5 "connection closed"), .step 1,
    .invoke 2 (.failAllActiveSlots 6 "write failed"), .step 2]

/-- The state `failAllRun` ends in. -/
def failAllState : State Nat :=
  ((machine oneCell).run failAllRun { table := .init oneCell }).getD
    { table := .init oneCell }

/-- The call that returned did not mark the table, and the one that did
has yet to fail the call in flight. -/
theorem failAll_second_returns :
    (machine oneCell).Reachable failAllState
    ∧ (∀ c, failAllState.published c ≤ 1)
    ∧ failAllState.threads 2 = .returned (.count 0)
    ∧ (∀ u, (failAllState.threads u).publishing = false)
    ∧ (failAllState.word 0).state = .inFlight := by
  refine ⟨Lib.Machine.reachable_of_run (.start ⟨{}, rfl⟩)
    (show (machine oneCell).run failAllRun _ = some failAllState from rfl),
    ?_, rfl, ?_, by decide⟩
  · intro c
    show Function.update (fun _ => 0) (0x100000000 : UInt64) 1 c ≤ 1
    rw [Function.update_apply]
    split <;> decide
  · intro u
    match u with
    | 0 | 1 | 2 => rfl
    | n + 3 => rfl

/-- Thread 1 fails the call and returns as well. -/
def failedRun : List (Action Nat) :=
  failAllRun ++ [.pick 1 0x100000000] ++ List.replicate 16 (.step 1)

/-- The state `failedRun` ends in. -/
def failedState : State Nat :=
  ((machine oneCell).run failedRun { table := .init oneCell }).getD
    { table := .init oneCell }

theorem failedState_none_inFlight :
    failedState.threads 1 = .returned (.count 1)
    ∧ ∀ i, (failedState.word i).state ≠ .inFlight := by
  refine ⟨rfl, (failure_leaves_none_inFlight oneCell failedState
    (Lib.Machine.reachable_of_run (.start ⟨{}, rfl⟩)
      (show (machine oneCell).run failedRun _ = some failedState from rfl))
    ?_).2.2 rfl ?_ ?_⟩
  · intro c _ _
    show Function.update (fun _ => 0) (0x100000000 : UInt64) 1 c ≤ 1
    rw [Function.update_apply]
    split <;> decide
  · intro u
    match u with
    | 0 | 1 | 2 => rfl
    | n + 3 => rfl
  · intro u
    match u with
    | 0 | 1 | 2 => rfl
    | n + 3 => rfl

end AntRpc.Slot
