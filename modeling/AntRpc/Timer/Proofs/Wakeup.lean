/-
The timer thread never sleeps through, or pops past, a timer that is
still in a bucket's list.

# The earliest of a bucket

A bucket's nearest run time is the time of one of its timers, and none of
them is earlier (`Nearest`). The thread that added that timer was told
that it is the earliest, and goes on to the global minimum.

# Open buckets

Between the reset of the global minimum and the drain of a bucket the
minimum says nothing about that bucket. From its drain on the bucket is
open: the minimum is at or below the earliest of what was added since, or
the thread that added it is still on its way (`Covered`). Threads only
lower the minimum, and so does the timer thread before it waits.
-/
import AntRpc.Timer.Proofs.Custody

namespace AntRpc.Timer

open Lib

variable {τ : Type} {s s' : State τ}

/-- The thread that added timer `y` has not finished its check of the
global minimum. -/
def State.Unfinished (s : State τ) (y : Nat) : Prop :=
  ∃ t id, s.adders t = .loadGlobal y id (s.expireAt y)
    ∨ s.adders t = .lockGlobal y id (s.expireAt y)

/-- The minimum is there and at or below `u`. -/
def AtMost (g : Option Int) (u : Int) : Prop := ∃ v, g = some v ∧ v ≤ u

/-- The nearest run time of a bucket is that of its earliest timer. -/
def Nearest (expireAt : Nat → Int) (b : Bucket) : Prop :=
  match b.nearestRunTime with
  | none => b.tasks = []
  | some m => (∃ y ∈ b.tasks, expireAt y = m) ∧ ∀ x ∈ b.tasks, m ≤ expireAt x

/-- Bucket `j` was drained since the global minimum was reset. -/
def RunPc.opened (j : Fin kNumBuckets) : RunPc → Prop
  | .reset => False
  | .consume i => j.val < i
  | .drain i _ | .drainUnregister i _ _ | .drainDelete i _ _ => j ≤ i
  | _ => True

/-- The earliest timer of the bucket is covered by the global minimum, or
will be looked at by the thread that added it. -/
def Covered (s : State τ) (b : Bucket) : Prop :=
  ∀ m, b.nearestRunTime = some m → ∃ y ∈ b.tasks, s.expireAt y = m
    ∧ (s.Unfinished y ∨ AtMost s.globalNearestRunTimeUs (toUs m))

structure Timely (s : State τ) : Prop where
  nearest : ∀ i, Nearest s.expireAt (s.buckets i)
  covered : ∀ i, s.run.opened i → Covered s (s.buckets i)

-- == times

theorem toUs_mono {a b : Int} (h : a ≤ b) : toUs a ≤ toUs b := by
  unfold toUs
  rcases Int.lt_or_le a 0 with ha | ha
  · rcases Int.lt_or_le b 0 with hb | hb
    · have h1 := Int.tdiv_eq_ediv_of_nonneg (a := -a) (b := 1000) (by omega)
      have h2 := Int.tdiv_eq_ediv_of_nonneg (a := -b) (b := 1000) (by omega)
      rw [Int.neg_tdiv] at h1 h2
      omega
    · have h1 := Int.tdiv_eq_ediv_of_nonneg (a := -a) (b := 1000) (by omega)
      rw [Int.neg_tdiv] at h1
      rw [Int.tdiv_eq_ediv_of_nonneg hb]
      omega
  · rw [Int.tdiv_eq_ediv_of_nonneg ha, Int.tdiv_eq_ediv_of_nonneg (by omega)]
    omega

/-- What is not above the minimum. -/
theorem atMost_of_not_earlier {g : Option Int} {u : Int}
    (h : earlier (some u) g ≠ true) : AtMost g u := by
  cases g with
  | none => exact absurd rfl h
  | some v => exact ⟨v, rfl, not_lt.mp (by simpa [earlier] using h)⟩

/-- Lowering the minimum keeps what it covers. -/
theorem AtMost.lower {g g' : Option Int} {u : Int} (h : AtMost g u)
    (hlow : earlier g g' ≠ true) : AtMost g' u := by
  obtain ⟨v, rfl, hv⟩ := h
  obtain ⟨w, rfl, hw⟩ := atMost_of_not_earlier hlow
  exact ⟨w, rfl, hw.trans hv⟩

-- == frame lemmas

theorem Nearest.congr {expireAt expireAt' : Nat → Int} {b b' : Bucket}
    (h : Nearest expireAt b) (htasks : b'.tasks = b.tasks)
    (hnear : b'.nearestRunTime = b.nearestRunTime)
    (hexpire : ∀ x ∈ b.tasks, expireAt' x = expireAt x) :
    Nearest expireAt' b' := by
  unfold Nearest at h ⊢
  rw [hnear, htasks]
  cases hm : b.nearestRunTime with
  | none =>
      rw [hm] at h
      exact h
  | some m =>
      rw [hm] at h
      obtain ⟨⟨y, hy, heq⟩, hall⟩ := h
      refine ⟨⟨y, hy, by rw [hexpire y hy]; exact heq⟩, fun x hx => ?_⟩
      rw [hexpire x hx]
      exact hall x hx

theorem Covered.congr {b b' : Bucket} (h : Covered s b)
    (htasks : b'.tasks = b.tasks)
    (hnear : b'.nearestRunTime = b.nearestRunTime)
    (hexpire : ∀ x ∈ b.tasks, s'.expireAt x = s.expireAt x)
    (hchecks : ∀ y ∈ b.tasks, s.Unfinished y → s'.Unfinished y
      ∨ AtMost s'.globalNearestRunTimeUs (toUs (s.expireAt y)))
    (hglobal : ∀ u, AtMost s.globalNearestRunTimeUs u →
      AtMost s'.globalNearestRunTimeUs u) : Covered s' b' := by
  intro m hm
  rw [hnear] at hm
  obtain ⟨y, hy, heq, hcov⟩ := h m hm
  refine ⟨y, by rw [htasks]; exact hy, by rw [hexpire y hy]; exact heq, ?_⟩
  rcases hcov with hun | hle
  · rcases hchecks y hy hun with hun | hle
    · exact Or.inl hun
    · rw [heq] at hle
      exact Or.inr hle
  · exact Or.inr (hglobal _ hle)

/-- A step that touches no bucket's list. -/
theorem Timely.frame (h : Timely s)
    (htasks : ∀ i, (s'.buckets i).tasks = (s.buckets i).tasks)
    (hnear : ∀ i, (s'.buckets i).nearestRunTime
      = (s.buckets i).nearestRunTime)
    (hexpire : ∀ i, ∀ x ∈ (s.buckets i).tasks, s'.expireAt x = s.expireAt x)
    (hchecks : ∀ i, ∀ y ∈ (s.buckets i).tasks, s.Unfinished y →
      s'.Unfinished y
        ∨ AtMost s'.globalNearestRunTimeUs (toUs (s.expireAt y)))
    (hopen : ∀ i, s'.run.opened i → s.run.opened i
      ∧ ∀ u, AtMost s.globalNearestRunTimeUs u →
        AtMost s'.globalNearestRunTimeUs u) : Timely s' where
  nearest i := (h.nearest i).congr (htasks i) (hnear i) (hexpire i)
  covered i hi := (h.covered i (hopen i hi).1).congr (htasks i) (hnear i)
    (hexpire i) (hchecks i) (hopen i hi).2

/-- The timer a thread checks the global minimum for. -/
def AddPc.checks : AddPc → Option Nat
  | .loadGlobal n _ _ | .lockGlobal n _ _ => some n
  | _ => none

/-- Another thread's move leaves a check unfinished. -/
theorem State.Unfinished.keep {y : Nat} {t : τ} (h : s.Unfinished y)
    (hne : (s.adders t).checks ≠ some y)
    (hadders : ∀ u, u ≠ t → s'.adders u = s.adders u)
    (hexpire : s'.expireAt y = s.expireAt y) : s'.Unfinished y := by
  obtain ⟨u, id, hu⟩ := h
  have hut : u ≠ t := by
    rintro rfl
    rcases hu with hu | hu <;> rw [hu] at hne <;> exact hne rfl
  refine ⟨u, id, ?_⟩
  rw [hadders u hut, hexpire]
  exact hu

variable [DecidableEq τ]

-- == adder steps

/-- A thread moves that checks nothing, and no list changes. -/
theorem Timely.adderTo (h : Timely s) {t : τ} {pc : AddPc}
    (hpc : (s.adders t).checks = none) : Timely (s.adderTo t pc) := by
  refine h.frame (fun _ => rfl) (fun _ => rfl) (fun _ _ _ => rfl)
    (fun i y hy hun => Or.inl ?_) (fun i hi => ⟨hi, fun _ hu => hu⟩)
  exact hun.keep (by rw [hpc]; nofun)
    (fun u hu => Function.update_of_ne hu _ _) rfl

/-- A thread ends its check: the minimum is now at or below its time. -/
theorem Timely.endCheck (h : Timely s) {t : τ} {n : Nat} {id : UInt64}
    {e : Int} {pc : AddPc} {g : Option Int}
    (hpc : s.adders t = .loadGlobal n id e ∨ s.adders t = .lockGlobal n id e)
    (hlow : earlier s.globalNearestRunTimeUs g ≠ true)
    (hg : AtMost g (toUs e)) :
    Timely (State.adderTo { s with globalNearestRunTimeUs := g } t pc) := by
  refine h.frame (fun _ => rfl) (fun _ => rfl) (fun _ _ _ => rfl)
    (fun i y hy hun => ?_) (fun i hi => ⟨hi, fun _ hu => hu.lower hlow⟩)
  -- its own timer is covered by the minimum, another thread goes on
  obtain ⟨u, id', hu⟩ := hun
  rcases eq_or_ne u t with rfl | hut
  · right
    have : e = s.expireAt y := by
      rcases hpc with hpc | hpc <;> rcases hu with hu | hu <;>
        rw [hpc] at hu <;> cases hu <;> rfl
    rw [← this]
    exact hg
  · left
    refine ⟨u, id', ?_⟩
    show Function.update s.adders t pc u = _
      ∨ Function.update s.adders t pc u = _
    rw [Function.update_of_ne hut]
    exact hu

/-- The first check of a thread passes: it goes on to the second. -/
theorem Timely.passCheck (h : Timely s) {t : τ} {n : Nat} {id : UInt64}
    {e : Int} (hpc : s.adders t = .loadGlobal n id e) :
    Timely (s.adderTo t (.lockGlobal n id e)) := by
  refine h.frame (fun _ => rfl) (fun _ => rfl) (fun _ _ _ => rfl)
    (fun i y hy hun => Or.inl ?_) (fun i hi => ⟨hi, fun _ hu => hu⟩)
  obtain ⟨u, id', hu⟩ := hun
  rcases eq_or_ne u t with rfl | hut
  · refine ⟨u, id', Or.inr ?_⟩
    show Function.update s.adders u (AddPc.lockGlobal n id e) u = _
    rw [Function.update_self]
    rw [hpc] at hu
    rcases hu with hu | hu
    · cases hu
      rfl
    · cases hu
  · refine ⟨u, id', ?_⟩
    show Function.update s.adders t _ u = _ ∨ Function.update s.adders t _ u = _
    rw [Function.update_of_ne hut]
    exact hu

/-- An entry is filled in before it is in any list. -/
theorem Timely.prepare (h : Timely s) (hinv : Inv s) {t : τ} {n : Nat}
    {e : TimerEntry} {pc : AddPc} (hheld : n ∈ (s.adders t).held)
    (hpc : (s.adders t).checks = none) :
    Timely ((s.setEntry n e).adderTo t pc) := by
  have hexpire (i : Fin kNumBuckets) (x : Nat)
      (hx : x ∈ (s.buckets i).tasks) :
      ((s.setEntry n e).adderTo t pc).expireAt x = s.expireAt x := by
    have hne : x ≠ n := by
      rintro rfl
      cases hinv.unique (show x ∈ s.holds (.adding t) from hheld)
        (show x ∈ s.holds (.bucket i) from List.mem_append_left _ hx)
    show (Function.update s.entries n e x).expireAt = _
    rw [Function.update_of_ne hne]
    rfl
  refine h.frame (fun _ => rfl) (fun _ => rfl) hexpire
    (fun i y hy hun => Or.inl ?_) (fun i hi => ⟨hi, fun _ hu => hu⟩)
  exact hun.keep (by rw [hpc]; nofun)
    (fun u hu => Function.update_of_ne hu _ _) (hexpire i y hy)

/-- A timer enters its bucket's list. -/
theorem Timely.publish (h : Timely s) {t : τ} {n : Nat}
    {i : Fin kNumBuckets} (hpc : s.adders t = .schedule n i) :
    Timely ((s.setBucket i ((s.buckets i).schedule n (s.entries n)).1).adderTo t
      (if ((s.buckets i).schedule n (s.entries n)).2 then
        .loadGlobal n (s.entries n).id (s.entries n).expireAt
      else .returned (s.entries n).id)) := by
  generalize hs' : State.adderTo (s.setBucket i _) t _ = s'
  have hexpire : s'.expireAt = s.expireAt := by rw [← hs']; rfl
  have hglobal : s'.globalNearestRunTimeUs = s.globalNearestRunTimeUs := by
    rw [← hs']; rfl
  have hother (j : Fin kNumBuckets) (hj : j ≠ i) :
      s'.buckets j = s.buckets j := by
    rw [← hs']
    exact Function.update_of_ne hj _ _
  have hself : s'.buckets i = ((s.buckets i).schedule n (s.entries n)).1 := by
    rw [← hs']
    exact Function.update_self _ _ _
  have hun {y : Nat} (hy : s.Unfinished y) : s'.Unfinished y := by
    refine hy.keep (t := t) (by rw [hpc]; nofun) (fun u hu => ?_)
      (by rw [hexpire])
    rw [← hs']
    exact Function.update_of_ne hu _ _
  have hrun : s'.run = s.run := by rw [← hs']; rfl
  have hnear := h.nearest i
  -- the new timer is the earliest of the list, or it is not
  by_cases hearlier : earlier (some (s.expireAt n))
      (s.buckets i).nearestRunTime = true
  · have hsched : ((s.buckets i).schedule n (s.entries n)) =
        ({ nearestRunTime := some (s.expireAt n)
           tasks := n :: (s.buckets i).tasks
           activeTimers := Function.update (s.buckets i).activeTimers
            (s.entries n).id (some n) }, true) := by
      unfold Bucket.schedule
      exact if_pos hearlier
    rw [hsched] at hself
    have hchecks : s'.Unfinished n := by
      refine ⟨t, (s.entries n).id, Or.inl ?_⟩
      rw [← hs', hsched]
      exact Function.update_self _ _ _
    have hbelow : ∀ x ∈ (s.buckets i).tasks, s.expireAt n ≤ s.expireAt x := by
      intro x hx
      unfold Nearest at hnear
      cases hm : (s.buckets i).nearestRunTime with
      | none =>
          rw [hm] at hnear
          rw [hnear] at hx
          cases hx
      | some m =>
          rw [hm] at hnear hearlier
          have hlt : s.expireAt n < m := of_decide_eq_true hearlier
          exact hlt.le.trans (hnear.2 x hx)
    refine ⟨fun j => ?_, fun j hj => ?_⟩
    · rw [hexpire]
      rcases eq_or_ne j i with rfl | hne
      · rw [hself]
        refine ⟨⟨n, List.mem_cons_self, rfl⟩, fun x hx => ?_⟩
        rcases List.mem_cons.mp hx with rfl | hx
        · exact le_rfl
        · exact hbelow x hx
      · rw [hother j hne]
        exact h.nearest j
    · rw [hrun] at hj
      rcases eq_or_ne j i with rfl | hne
      · rw [hself]
        intro m hm
        cases hm
        exact ⟨n, List.mem_cons_self, by rw [hexpire], Or.inl hchecks⟩
      · rw [hother j hne]
        exact (h.covered j hj).congr rfl rfl (fun x _ => by rw [hexpire])
          (fun y _ hy => Or.inl (hun hy)) (fun u hu => hglobal ▸ hu)
  · obtain ⟨m, hm, hle⟩ := atMost_of_not_earlier hearlier
    have hsched : ((s.buckets i).schedule n (s.entries n)) =
        ({ nearestRunTime := (s.buckets i).nearestRunTime
           tasks := n :: (s.buckets i).tasks
           activeTimers := Function.update (s.buckets i).activeTimers
            (s.entries n).id (some n) }, false) := by
      unfold Bucket.schedule
      exact if_neg hearlier
    rw [hsched] at hself
    unfold Nearest at hnear
    rw [hm] at hnear
    obtain ⟨⟨y, hy, heq⟩, hall⟩ := hnear
    refine ⟨fun j => ?_, fun j hj => ?_⟩
    · rw [hexpire]
      rcases eq_or_ne j i with rfl | hne
      · rw [hself]
        unfold Nearest
        rw [hm]
        refine ⟨⟨y, List.mem_cons_of_mem _ hy, heq⟩, fun x hx => ?_⟩
        rcases List.mem_cons.mp hx with rfl | hx
        · exact hle
        · exact hall x hx
      · rw [hother j hne]
        exact h.nearest j
    · rw [hrun] at hj
      rcases eq_or_ne j i with rfl | hne
      · intro m' hm'
        rw [hself] at hm' ⊢
        obtain ⟨z, hz, hzeq, hcov⟩ := h.covered j hj m' hm'
        refine ⟨z, List.mem_cons_of_mem _ hz, by rw [hexpire]; exact hzeq, ?_⟩
        rw [hglobal]
        exact hcov.imp_left hun
      · rw [hother j hne]
        exact (h.covered j hj).congr rfl rfl (fun x _ => by rw [hexpire])
          (fun y _ hy => Or.inl (hun hy)) (fun u hu => hglobal ▸ hu)

theorem not_earlier_self (g : Option Int) : earlier g g ≠ true := by
  cases g with
  | none => nofun
  | some v => simp [earlier]

theorem Timely.execAdd (h : Timely s) (hinv : Inv s) {t : τ}
    {i : Fin kNumBuckets} (hs : execAdd s t i (s.adders t) = some s') :
    Timely s' := by
  generalize hpc : s.adders t = pc at hs
  cases pc with
  | idle => cases hs
  | fetchSeq delay owns =>
      cases hs
      have h' : Timely { s with
          nextSeq := s.nextSeq + 1, allocated := s.allocated + 1 } :=
        h.frame (fun _ => rfl) (fun _ => rfl) (fun _ _ _ => rfl)
          (fun _ _ _ hun => Or.inl hun) (fun _ hi => ⟨hi, fun _ hu => hu⟩)
      exact h'.adderTo (by show (s.adders t).checks = none; rw [hpc]; rfl)
  | prepare n seq delay owns =>
      cases hs
      exact h.prepare hinv (by rw [hpc]; exact List.mem_singleton.mpr rfl)
        (by rw [hpc]; rfl)
  | schedule n j =>
      cases hs
      exact h.publish hpc
  | loadGlobal n id e =>
      cases hs
      split
      · exact h.passCheck hpc
      · next hnot =>
        exact h.endCheck (Or.inl hpc) (not_earlier_self _)
          (atMost_of_not_earlier hnot)
  | lockGlobal n id e =>
      simp only [Timer.execAdd] at hs
      split at hs <;> cases hs
      · next hlow =>
        refine h.endCheck (Or.inr hpc) (fun hc => ?_) ⟨_, rfl, le_rfl⟩
        -- the minimum was above the new one
        cases hg : s.globalNearestRunTimeUs with
        | none =>
            rw [hg] at hc
            cases hc
        | some v =>
            rw [hg] at hc hlow
            simp only [earlier, decide_eq_true_eq] at hc hlow
            omega
      · next hnot =>
        exact h.endCheck (Or.inr hpc) (not_earlier_self _)
          (atMost_of_not_earlier hnot)
  | signal id | returned id =>
      cases hs
      exact h.adderTo (by rw [hpc]; rfl)

-- == cancels and the thread

omit [DecidableEq τ] in
theorem cancelTimer_frame (id : UInt64) :
    (∀ i, ((cancelTimer s id).buckets i).tasks = (s.buckets i).tasks
      ∧ ((cancelTimer s id).buckets i).nearestRunTime
        = (s.buckets i).nearestRunTime)
      ∧ (cancelTimer s id).expireAt = s.expireAt
      ∧ (cancelTimer s id).adders = s.adders
      ∧ (cancelTimer s id).run = s.run
      ∧ (cancelTimer s id).globalNearestRunTimeUs
        = s.globalNearestRunTimeUs := by
  unfold cancelTimer
  split
  · exact ⟨fun _ => ⟨rfl, rfl⟩, rfl, rfl, rfl, rfl⟩
  · simp only
    split
    · exact ⟨fun _ => ⟨rfl, rfl⟩, rfl, rfl, rfl, rfl⟩
    · next n _ =>
      refine ⟨fun j => ?_, ?_, rfl, rfl, rfl⟩
      · show (Function.update s.buckets _ _ j).tasks = _
          ∧ (Function.update s.buckets _ _ j).nearestRunTime = _
        rcases eq_or_ne j (bucketOf id) with rfl | hne
        · rw [Function.update_self]
          exact ⟨rfl, rfl⟩
        · rw [Function.update_of_ne hne]
          exact ⟨rfl, rfl⟩
      · funext m
        show (Function.update s.entries n _ m).expireAt = _
        rcases eq_or_ne m n with rfl | hne
        · rw [Function.update_self]
          rfl
        · rw [Function.update_of_ne hne]
          rfl

omit [DecidableEq τ] in
/-- The thread moves on, the buckets and times stay, and the minimum is
not raised while a bucket is open. -/
theorem Timely.runStep (h : Timely s)
    (htasks : ∀ i, (s'.buckets i).tasks = (s.buckets i).tasks)
    (hnear : ∀ i, (s'.buckets i).nearestRunTime
      = (s.buckets i).nearestRunTime)
    (hexpire : s'.expireAt = s.expireAt) (hadders : s'.adders = s.adders)
    (hopen : ∀ i, s'.run.opened i → s.run.opened i
      ∧ earlier s.globalNearestRunTimeUs s'.globalNearestRunTimeUs ≠ true) :
    Timely s' := by
  refine h.frame htasks hnear (fun _ x _ => by rw [hexpire])
    (fun i y _ hun => Or.inl ?_)
    (fun i hi => ⟨(hopen i hi).1, fun _ hu => hu.lower (hopen i hi).2⟩)
  obtain ⟨t, id, ht⟩ := hun
  refine ⟨t, id, ?_⟩
  rw [hadders, hexpire]
  exact ht

omit [DecidableEq τ] in
theorem unregister_frame (i : Fin kNumBuckets) (n : Nat)
    (j : Fin kNumBuckets) :
    ((s.unregister i n).buckets j).tasks = (s.buckets j).tasks
      ∧ ((s.unregister i n).buckets j).nearestRunTime
        = (s.buckets j).nearestRunTime := by
  show (Function.update s.buckets i _ j).tasks = _
    ∧ (Function.update s.buckets i _ j).nearestRunTime = _
  rcases eq_or_ne j i with rfl | hne
  · rw [Function.update_self]
    exact ⟨rfl, rfl⟩
  · rw [Function.update_of_ne hne]
    exact ⟨rfl, rfl⟩

omit [DecidableEq τ] in
theorem setEntry_expireAt {n : Nat} {e : TimerEntry}
    (he : e.expireAt = s.expireAt n) : (s.setEntry n e).expireAt = s.expireAt := by
  funext m
  show (Function.update s.entries n e m).expireAt = _
  rcases eq_or_ne m n with rfl | hne
  · rw [Function.update_self, he]
  · rw [Function.update_of_ne hne]
    rfl

omit [DecidableEq τ] in
/-- A drained bucket is empty: it is open with nothing to cover. -/
theorem Timely.consume (h : Timely s) {i : Nat} (hi : i < kNumBuckets)
    (hpc : s.run = .consume i) :
    Timely { s.setBucket ⟨i, hi⟩ (s.buckets ⟨i, hi⟩).consumeTasks.1 with
      run := .drain ⟨i, hi⟩ (s.buckets ⟨i, hi⟩).consumeTasks.2 } := by
  generalize hs' : ({ s.setBucket ⟨i, hi⟩ _ with run := _ } : State τ) = s'
  have hexpire : s'.expireAt = s.expireAt := by rw [← hs']; rfl
  have hadders : s'.adders = s.adders := by rw [← hs']; rfl
  have hglobal : s'.globalNearestRunTimeUs = s.globalNearestRunTimeUs := by
    rw [← hs']; rfl
  have hother (j : Fin kNumBuckets) (hj : j ≠ ⟨i, hi⟩) :
      s'.buckets j = s.buckets j := by
    rw [← hs']
    exact Function.update_of_ne hj _ _
  have hempty : (s'.buckets ⟨i, hi⟩).tasks = []
      ∧ (s'.buckets ⟨i, hi⟩).nearestRunTime = none := by
    have hself : s'.buckets ⟨i, hi⟩
        = (s.buckets ⟨i, hi⟩).consumeTasks.1 := by
      rw [← hs']
      exact Function.update_self _ _ _
    rw [hself]
    unfold Bucket.consumeTasks
    split
    · next hnil =>
      refine ⟨hnil, ?_⟩
      have hnear := h.nearest ⟨i, hi⟩
      unfold Nearest at hnear
      split at hnear
      · assumption
      · obtain ⟨⟨y, hy, -⟩, -⟩ := hnear
        rw [hnil] at hy
        cases hy
    · exact ⟨rfl, rfl⟩
  refine ⟨fun j => ?_, fun j hj => ?_⟩
  · rw [hexpire]
    rcases eq_or_ne j ⟨i, hi⟩ with rfl | hne
    · unfold Nearest
      rw [hempty.2]
      exact hempty.1
    · rw [hother j hne]
      exact h.nearest j
  · rcases eq_or_ne j ⟨i, hi⟩ with rfl | hne
    · intro m hm
      rw [hempty.2] at hm
      cases hm
    · have hopen : s.run.opened j := by
        rw [← hs'] at hj
        rw [hpc]
        have hle : j ≤ ⟨i, hi⟩ := hj
        exact lt_of_le_of_ne hle fun heq => hne (Fin.ext heq)
      rw [hother j hne]
      refine (h.covered j hopen).congr rfl rfl (fun x _ => by rw [hexpire])
        (fun y _ hun => Or.inl ?_) (fun u hu => hglobal ▸ hu)
      obtain ⟨t, id, ht⟩ := hun
      refine ⟨t, id, ?_⟩
      rw [hadders, hexpire]
      exact ht

omit [DecidableEq τ] in
theorem Timely.execRun (h : Timely s) (hs : execRun s s.run = some s') :
    Timely s' := by
  generalize hpc : s.run = pc at hs
  -- the buckets stay open, or the step is the one that closes them
  have hto {us : Option Int} {heap : List Nat} {handed : List (Nat × Int)}
      {pc' : RunPc} (hopen : ∀ i, pc'.opened i → pc.opened i
        ∧ earlier s.globalNearestRunTimeUs us ≠ true) :
      Timely { s with
        globalNearestRunTimeUs := us, heap := heap, handed := handed
        run := pc' } :=
    h.runStep (fun _ => rfl) (fun _ => rfl) rfl rfl
      fun i hi => by rw [hpc]; exact hopen i hi
  have hsame := not_earlier_self s.globalNearestRunTimeUs
  cases pc with
  | reset =>
      cases hs
      exact hto fun i hi => absurd hi (Nat.not_lt_zero _)
  | consume i =>
      simp only [Timer.execRun] at hs
      split at hs <;> cases hs
      · exact h.consume _ hpc
      · next hi => exact hto fun j _ => ⟨j.isLt.trans_le (not_lt.mp hi), hsame⟩
  | drain i chain =>
      cases chain with
      | nil =>
          cases hs
          exact hto fun j hj => ⟨Nat.lt_succ_iff.mp hj, hsame⟩
      | cons p chain =>
          simp only [Timer.execRun] at hs
          split at hs
          · cases hs
            exact hto fun j hj => ⟨hj, hsame⟩
          · obtain ⟨heap, -, rfl⟩ := Option.map_eq_some_iff.mp hs
            exact hto fun j hj => ⟨hj, hsame⟩
  | drainUnregister i p chain =>
      cases hs
      exact h.runStep (fun j => (unregister_frame i p j).1)
        (fun j => (unregister_frame i p j).2) rfl rfl
        fun j hj => ⟨by rw [hpc]; exact hj, hsame⟩
  | drainDelete i p chain =>
      cases hs
      exact h.runStep (fun _ => rfl) (fun _ => rfl)
        (setEntry_expireAt (by rfl)) rfl
        fun j hj => ⟨by rw [hpc]; exact hj, hsame⟩
  | checkTop batch =>
      simp only [Timer.execRun] at hs
      repeat' split at hs
      all_goals
        cases hs
        exact hto fun j _ => ⟨trivial, hsame⟩
  | checkGlobal top batch =>
      simp only [Timer.execRun] at hs
      split at hs
      · cases hs
        exact hto fun j _ => ⟨trivial, hsame⟩
      · obtain ⟨popped, -, rfl⟩ := Option.map_eq_some_iff.mp hs
        exact hto fun j _ => ⟨trivial, hsame⟩
  | unregisterTop top batch =>
      cases hs
      exact h.runStep (fun j => (unregister_frame _ top j).1)
        (fun j => (unregister_frame _ top j).2) rfl rfl
        fun j _ => ⟨by rw [hpc]; trivial, hsame⟩
  | checkCanceled top batch =>
      simp only [Timer.execRun] at hs
      split at hs <;> cases hs <;>
        exact h.runStep (fun _ => rfl) (fun _ => rfl)
          (setEntry_expireAt (by rfl)) rfl
          fun j _ => ⟨by rw [hpc]; trivial, hsame⟩
  | dispatch batch pullAgain =>
      cases batch with
      | nil =>
          cases hs
          cases pullAgain
          · exact hto fun j _ => ⟨trivial, hsame⟩
          · exact hto fun j hj => absurd hj id
      | cons n batch =>
          cases hs
          exact hto fun j _ => ⟨trivial, hsame⟩
  | prepareWait =>
      simp only [Timer.execRun] at hs
      split at hs
      · cases hs
        exact hto fun j hj => absurd hj id
      · next hlow =>
        repeat' split at hs
        all_goals
          cases hs
          exact hto fun j _ => ⟨trivial, hlow⟩
  | waiting deadline =>
      cases hs
      exact hto fun j hj => absurd hj id

theorem timely_apply {a : Action τ} (h : Timely s) (hinv : Inv s)
    (hs : apply a s = some s') : Timely s' := by
  cases a with
  | addTimer t hasTask delay owns =>
      simp only [apply] at hs
      split at hs <;> cases hs
      next hidle => exact h.adderTo (by rw [hidle]; rfl)
  | adder t bucket => exact h.execAdd hinv hs
  | cancelTimer id =>
      cases hs
      obtain ⟨hbuckets, hexpire, hadders, hrun, hglobal⟩ :=
        cancelTimer_frame (s := s) id
      refine h.runStep (fun i => (hbuckets i).1) (fun i => (hbuckets i).2)
        hexpire hadders fun i hi => ⟨hrun ▸ hi, ?_⟩
      rw [hglobal]
      exact not_earlier_self _
  | run => exact h.execRun hs
  | tick d =>
      cases hs
      exact h.runStep (fun _ => rfl) (fun _ => rfl) rfl rfl
        fun i hi => ⟨hi, not_earlier_self _⟩

theorem timely_reachable (h : (machine τ).Reachable s) : Timely s := by
  refine h.invariant (I := Timely) ?_ fun s₁ _ _ hr ht _ hs =>
    timely_apply ht (inv_reachable hr) hs
  rintro _ ⟨now, rfl⟩
  exact ⟨fun _ => rfl, fun _ hi => absurd hi id⟩

-- == no lost wakeup

/-- Timer `x` of bucket `i` does not expire before `deadline`, or it
shares its list with a timer that is no later and whose thread has not
finished its check of the global minimum. -/
def NotMissed (s : State τ) (deadline : Option Int) (i : Fin kNumBuckets)
    (x : Nat) : Prop :=
  (∃ d, deadline = some d ∧ toUs d ≤ toUs (s.expireAt x))
    ∨ ∃ y ∈ (s.buckets i).tasks, s.expireAt y ≤ s.expireAt x
      ∧ s.Unfinished y

omit [DecidableEq τ] in
/-- A deadline at or below the minimum misses nothing in an open
bucket. -/
theorem Timely.notMissed (h : Timely s) {deadline : Option Int}
    {i : Fin kNumBuckets} {x : Nat} (hopen : s.run.opened i)
    (hx : x ∈ (s.buckets i).tasks)
    (hlow : earlier s.globalNearestRunTimeUs (deadline.map toUs) ≠ true) :
    NotMissed s deadline i x := by
  have hnear := h.nearest i
  unfold Nearest at hnear
  cases hm : (s.buckets i).nearestRunTime with
  | none =>
      rw [hm] at hnear
      rw [hnear] at hx
      cases hx
  | some m =>
      rw [hm] at hnear
      obtain ⟨y, hy, rfl, hun | hle⟩ := h.covered i hopen m hm
      · exact Or.inr ⟨y, hy, hnear.2 x hx, hun⟩
      · obtain ⟨v, hv, hle⟩ := hle.lower hlow
        obtain ⟨d, rfl, rfl⟩ := Option.map_eq_some_iff.mp hv
        exact Or.inl ⟨d, rfl, hle.trans (toUs_mono (hnear.2 x hx))⟩

omit [DecidableEq τ] in
/-- The step that starts a wait, and the step that pops the top, change no
bucket and no thread. -/
theorem NotMissed.congr {deadline : Option Int} {i : Fin kNumBuckets}
    {x : Nat} (h : NotMissed s deadline i x)
    (hbuckets : s'.buckets = s.buckets) (hentries : s'.entries = s.entries)
    (hadders : s'.adders = s.adders) : NotMissed s' deadline i x := by
  have hexpire : s'.expireAt = s.expireAt := by
    funext n
    rw [State.expireAt, hentries]
    rfl
  unfold NotMissed State.Unfinished at h ⊢
  rw [hbuckets, hexpire, hadders]
  exact h

/-- Only its own steps move the timer thread. -/
theorem apply_run {a : Action τ} (hs : apply a s = some s') :
    s'.run = s.run ∨ execRun s s.run = some s' := by
  cases a with
  | addTimer t hasTask delay owns =>
      simp only [apply] at hs
      split at hs <;> cases hs
      exact Or.inl rfl
  | adder t bucket =>
      simp only [apply] at hs
      left
      cases hpc : s.adders t with
      | idle =>
          rw [hpc] at hs
          cases hs
      | lockGlobal n id e =>
          simp only [hpc, execAdd] at hs
          split at hs <;> cases hs <;> rfl
      | _ =>
          simp only [hpc, execAdd] at hs
          cases hs
          rfl
  | cancelTimer id =>
      cases hs
      exact Or.inl (cancelTimer_frame id).2.2.2.1
  | run => exact Or.inr hs
  | tick d =>
      cases hs
      exact Or.inl rfl

omit [DecidableEq τ] in
/-- A wait starts with a deadline at or below the minimum. -/
theorem execRun_waits {deadline : Option Int}
    (hs : execRun s .prepareWait = some s')
    (hpc' : s'.run = .waiting deadline) :
    s'.buckets = s.buckets ∧ s'.entries = s.entries ∧ s'.adders = s.adders
      ∧ earlier s.globalNearestRunTimeUs (deadline.map toUs) ≠ true := by
  simp only [execRun] at hs
  split at hs
  · cases hs
    cases hpc'
  · next hlow =>
    split at hs
    · next hnone =>
      cases hs
      cases hpc'
      rw [hnone] at hlow
      exact ⟨rfl, rfl, rfl, hlow⟩
    · next t hsome =>
      rw [hsome] at hlow
      split at hs <;> cases hs <;> cases hpc'
      exact ⟨rfl, rfl, rfl, hlow⟩

/-- When the timer thread starts to wait, and when it pops the top of its
heap, no timer in a bucket's list is missed. -/
theorem wait_misses_none {a : Action τ} (h : (machine τ).Reachable s)
    (hs : apply a s = some s') :
    (∀ deadline, s.run = .prepareWait → s'.run = .waiting deadline →
      ∀ i, ∀ x ∈ (s'.buckets i).tasks, NotMissed s' deadline i x)
    ∧ (∀ top batch, s.run = .checkGlobal top batch →
      s'.run = .unregisterTop top batch →
      ∀ i, ∀ x ∈ (s'.buckets i).tasks,
        NotMissed s' (some (s'.expireAt top)) i x) := by
  have htimely := timely_reachable h
  rcases apply_run hs with hsame | hs
  · refine ⟨fun d hpc hpc' => ?_, fun top batch hpc hpc' => ?_⟩
    · rw [hsame, hpc] at hpc'
      cases hpc'
    · rw [hsame, hpc] at hpc'
      cases hpc'
  · refine ⟨fun d hpc hpc' i x hx => ?_, fun top batch hpc hpc' i x hx => ?_⟩
    · obtain ⟨hbuckets, hentries, hadders, hlow⟩ :=
        execRun_waits (hpc ▸ hs) hpc'
      rw [hbuckets] at hx
      exact (htimely.notMissed (by rw [hpc]; trivial) hx hlow).congr hbuckets
        hentries hadders
    · rw [hpc] at hs
      simp only [execRun] at hs
      split at hs
      · cases hs
        cases hpc'
      · next hlow =>
        obtain ⟨popped, -, rfl⟩ := Option.map_eq_some_iff.mp hs
        have hnot : NotMissed s (some (s.expireAt top)) i x :=
          htimely.notMissed (by rw [hpc]; trivial) hx hlow
        exact hnot.congr rfl rfl rfl

/-- The timer thread goes through empty buckets; meanwhile a thread adds a
timer and has not looked at the global minimum yet. -/
def sleepRun : List (Action Unit) :=
  List.replicate 36 Action.run ++ addSteps ⟨0, kNumBuckets_pos⟩ 3

def sleepState : State Unit := (machine Unit).final sleepRun {}

/-- The thread goes to sleep for good, with the timer in the list: its
thread will wake it. -/
theorem sleepState_misses_none :
    (((machine Unit).final [.run] sleepState).buckets ⟨0, by decide⟩).tasks
        = [0]
      ∧ NotMissed ((machine Unit).final [.run] sleepState) none
        ⟨0, by decide⟩ 0 := by
  refine ⟨by decide +kernel, ?_⟩
  have hreach : (machine Unit).Reachable sleepState :=
    Machine.reachable_final ⟨0, rfl⟩ (by decide +kernel)
  have hstep : apply Action.run sleepState
      = some ((machine Unit).final [.run] sleepState) :=
    Machine.apply_final (m := machine Unit) (a := .run) (s := sleepState)
      (by decide +kernel)
  exact (wait_misses_none hreach hstep).1 none (by decide +kernel)
    (by decide +kernel) ⟨0, by decide⟩ 0 (by decide +kernel)

end AntRpc.Timer
