/-
The order in which expired timers reach the executor.

# A pass

The timer thread turns to its heap, pops what has expired onto the list
`expired_head`, and then schedules that list. A pass is what it has
scheduled since it last turned to the heap.

# The list

A popped task goes to the front of the list, so the list has the latest
deadline first. A pass is in the order of its deadlines only if they are
all the same.
-/
import AntRpc.Timer.Proofs.Custody
import AntRpc.Timer.Proofs.Wakeup

namespace AntRpc.Timer

open Lib

variable {τ : Type} [DecidableEq τ] {s s' : State τ}

-- == passes

/-- The keeper, and the timers of the current pass in the order in which
the executor got them. -/
abbrev Watched (τ : Type) := State τ × List Nat

/-- What a step of the timer thread does to the current pass. -/
def RunPc.passAfter (pass : List Nat) : RunPc → List Nat
  | .consume i => if i < kNumBuckets then pass else []
  | .dispatch (n :: _) _ => pass ++ [n]
  | _ => pass

def passAfter (s : State τ) (pass : List Nat) : Action τ → List Nat
  | .run => s.run.passAfter pass
  | _ => pass

def watchedMachine (τ : Type) [DecidableEq τ] :
    Machine (Watched τ) (Action τ) where
  start w := Start w.1 ∧ w.2 = []
  apply a w := (apply a w.1).map fun s' => (s', passAfter w.1 w.2 a)

/-- Watching does not change the keeper. -/
theorem watched_refines (ok : Watched τ → Action τ → Prop) :
    (watchedMachine τ).Refines (machine τ) Prod.fst ok where
  start _ h := h.1
  step w w' a _ _ hs := by
    obtain ⟨s', hs', rfl⟩ := Option.map_eq_some_iff.mp hs
    exact Or.inr ⟨a, hs'⟩

-- == deadlines

omit [DecidableEq τ] in
theorem discard_expireAt (s : State τ) (n : Nat) :
    (s.discard n).expireAt = s.expireAt :=
  setEntry_expireAt (s := s) rfl

omit [DecidableEq τ] in
/-- A step of the timer thread changes no deadline. -/
theorem execRun_expireAt {pc : RunPc} (hs : execRun s pc = some s') :
    s'.expireAt = s.expireAt := by
  cases pc with
  | drainDelete i p chain => cases hs; exact discard_expireAt s p
  | drain i chain =>
      cases chain with
      | nil => cases hs; rfl
      | cons p chain =>
          simp only [execRun] at hs
          split at hs
          · cases hs
            rfl
          · obtain ⟨heap, -, rfl⟩ := Option.map_eq_some_iff.mp hs
            rfl
  | checkGlobal top batch =>
      simp only [execRun] at hs
      split at hs
      · cases hs
        rfl
      · obtain ⟨popped, -, rfl⟩ := Option.map_eq_some_iff.mp hs
        rfl
  | checkCanceled top batch =>
      simp only [execRun] at hs
      split at hs <;> cases hs
      · exact discard_expireAt s top
      · exact setEntry_expireAt (s := s) rfl
  | dispatch batch pullAgain => cases batch <;> cases hs <;> rfl
  | _ =>
      simp only [execRun] at hs
      repeat' split at hs
      all_goals
        cases hs
        rfl

/-- Adding a timer gives a deadline to a timer nobody else has. -/
theorem execAdd_expireAt {t : τ} {bucket : Fin kNumBuckets}
    (hs : execAdd s t bucket (s.adders t) = some s') {n : Nat}
    (hn : n ∉ s.holds (.adding t)) : s'.expireAt n = s.expireAt n := by
  cases hpc : s.adders t with
  | idle => rw [hpc] at hs; cases hs
  | prepare m seq delay owns =>
      rw [hpc] at hs
      cases hs
      have hne : n ≠ m := by
        rintro rfl
        exact hn (by rw [State.holds, hpc]; exact List.mem_singleton_self n)
      show (Function.update s.entries m _ n).expireAt = _
      rw [Function.update_of_ne hne]
      rfl
  | lockGlobal m id expireAt =>
      rw [hpc] at hs
      simp only [execAdd] at hs
      split at hs <;> cases hs <;> rfl
  | fetchSeq | schedule | loadGlobal | signal | returned =>
      rw [hpc] at hs
      cases hs
      rfl

/-- The deadline of a timer that has left the heap is fixed. -/
theorem gone_expireAt {a : Action τ} (hi : Inv s)
    (hs : apply a s = some s') {n : Nat} (hn : s.Gone n) :
    s'.expireAt n = s.expireAt n := by
  cases a with
  | addTimer t hasTask delay owns =>
      simp only [apply] at hs
      split at hs <;> cases hs
      rfl
  | adder t bucket =>
      exact execAdd_expireAt hs fun hadding => (hi.fresh hadding).gone hn
  | cancelTimer id =>
      cases hs
      rw [(cancelTimer_frame id).2.1]
  | run => rw [execRun_expireAt hs]
  | tick d =>
      cases hs
      rfl

-- == order

/-- The timers popped into one batch have one deadline. -/
def oneDeadline (w : Watched τ) : Action τ → Bool
  | .run =>
      match w.1.run with
      | .checkCanceled top batch =>
          (w.1.entries top).canceled
            || batch.all fun n => w.1.expireAt n = w.1.expireAt top
      | _ => true
  | _ => true

/-- The thread is popping. -/
def RunPc.pops : RunPc → Bool
  | .checkTop _ | .checkGlobal _ _ | .unregisterTop _ _
  | .checkCanceled _ _ => true
  | _ => false

/-- The pass and the batch have one deadline, and a pass begins when the
batch is complete. -/
structure Level (w : Watched τ) : Prop where
  level : ∀ n ∈ w.2 ++ w.1.run.batch, ∀ m ∈ w.2 ++ w.1.run.batch,
    w.1.expireAt n = w.1.expireAt m
  begins : w.1.run.pops = true → w.2 = []
  handed : ∃ before, w.1.handed.map Prod.fst = before ++ w.2

omit [DecidableEq τ] in
/-- A step that leaves the pass and the batch as they are. -/
theorem Level.still {pass : List Nat} (h : Level (s, pass))
    (hbatch : s'.run.batch = s.run.batch)
    (hpops : s'.run.pops = true → s.run.pops = true)
    (hhanded : s'.handed = s.handed)
    (hexpire : ∀ n ∈ pass ++ s.run.batch, s'.expireAt n = s.expireAt n) :
    Level (s', pass) := by
  refine ⟨fun n hn m hm => ?_, fun hp => h.begins (hpops hp), ?_⟩
  · rw [hbatch] at hn hm
    rw [hexpire n hn, hexpire m hm]
    exact h.level n hn m hm
  · rw [hhanded]
    exact h.handed

omit [DecidableEq τ] in
/-- A step of the timer thread. -/
theorem level_run {pass : List Nat} (h : Level (s, pass))
    (hok : oneDeadline (s, pass) .run = true)
    (hs : execRun s s.run = some s') :
    Level (s', s.run.passAfter pass) := by
  have hexpire := execRun_expireAt hs
  obtain ⟨before, hbefore⟩ := h.handed
  generalize hpc : s.run = pc at hs ⊢
  have hstill : ∀ {s' : State τ}, s'.run.batch = pc.batch →
      (s'.run.pops = true → pc.pops = true) → s'.handed = s.handed →
      s'.expireAt = s.expireAt → Level (s', pass) := by
    subst hpc
    exact fun hb hp hh he => h.still hb hp hh fun _ _ => by rw [he]
  cases pc with
  | reset | drainUnregister i p chain | drainDelete i p chain
  | waiting deadline =>
      cases hs
      exact hstill rfl (by rintro ⟨⟩) rfl hexpire
  | unregisterTop top batch =>
      cases hs
      exact hstill rfl (fun _ => rfl) rfl hexpire
  | consume i =>
      simp only [execRun] at hs
      split at hs
      · next hi =>
        rw [RunPc.passAfter, if_pos hi]
        cases hs
        exact hstill rfl (by rintro ⟨⟩) rfl hexpire
      · next hi =>
        rw [RunPc.passAfter, if_neg hi]
        cases hs
        exact ⟨by rintro _ ⟨⟩, fun _ => rfl, _, (List.append_nil _).symm⟩
  | drain i chain =>
      cases chain with
      | nil =>
          cases hs
          exact hstill rfl (by rintro ⟨⟩) rfl hexpire
      | cons p chain =>
          simp only [execRun] at hs
          split at hs
          · cases hs
            exact hstill rfl (by rintro ⟨⟩) rfl hexpire
          · obtain ⟨heap, -, rfl⟩ := Option.map_eq_some_iff.mp hs
            exact hstill rfl (by rintro ⟨⟩) rfl hexpire
  | checkTop batch =>
      simp only [execRun] at hs
      split at hs
      · cases hs
        exact hstill rfl (by rintro ⟨⟩) rfl hexpire
      · split at hs <;> cases hs
        · exact hstill rfl (by rintro ⟨⟩) rfl hexpire
        · exact hstill rfl (fun _ => rfl) rfl hexpire
  | checkGlobal top batch =>
      simp only [execRun] at hs
      split at hs
      · cases hs
        exact hstill rfl (by rintro ⟨⟩) rfl hexpire
      · obtain ⟨popped, -, rfl⟩ := Option.map_eq_some_iff.mp hs
        exact hstill rfl (fun _ => rfl) rfl hexpire
  | checkCanceled top batch =>
      have hempty : pass = [] := h.begins (by rw [hpc]; rfl)
      simp only [execRun] at hs
      split at hs <;> cases hs
      · exact hstill rfl (fun _ => rfl) rfl hexpire
      · next hlive =>
        -- what was popped before has the same deadline
        have hsame : ∀ n ∈ batch, s.expireAt n = s.expireAt top := by
          simp only [oneDeadline, hpc] at hok
          simpa [hlive] using hok
        have htop : ∀ n ∈ pass ++ top :: batch,
            s.expireAt n = s.expireAt top := by
          rw [hempty]
          intro n hn
          rcases List.mem_cons.mp hn with rfl | hn
          · rfl
          · exact hsame n hn
        refine ⟨fun n hn m hm => ?_, fun _ => hempty, h.handed⟩
        rw [hexpire, htop n hn, htop m hm]
  | dispatch batch pullAgain =>
      have hlevel := h.level
      rw [show (s, pass).1.run.batch = batch by rw [hpc]; rfl] at hlevel
      cases batch with
      | nil =>
          cases hs
          refine hstill (by cases pullAgain <;> rfl) ?_ rfl hexpire
          cases pullAgain <;> rintro ⟨⟩
      | cons n batch =>
          cases hs
          refine ⟨?_, by rintro ⟨⟩, before, ?_⟩
          · show ∀ n' ∈ (pass ++ [n]) ++ batch, ∀ m ∈ (pass ++ [n]) ++ batch,
              s.expireAt n' = s.expireAt m
            rw [List.append_assoc]
            exact hlevel
          · show (s.handed ++ [(n, s.now)]).map Prod.fst = _
            rw [List.map_append, hbefore, List.append_assoc]
            rfl
  | prepareWait =>
      simp only [execRun] at hs
      repeat' split at hs
      all_goals
        cases hs
        exact hstill rfl (by rintro ⟨⟩) rfl hexpire

/-- What the others do leaves the timer thread and the executor alone. -/
theorem apply_bystander {a : Action τ} (ha : a ≠ .run)
    (hs : apply a s = some s') :
    s'.run = s.run ∧ s'.handed = s.handed := by
  cases a with
  | run => exact absurd rfl ha
  | addTimer t hasTask delay owns =>
      simp only [apply] at hs
      split at hs <;> cases hs
      exact ⟨rfl, rfl⟩
  | adder t bucket =>
      rw [apply] at hs
      generalize s.adders t = pc at hs
      cases pc with simp only [execAdd] at hs
      | lockGlobal m id expireAt =>
          split at hs <;> cases hs <;> exact ⟨rfl, rfl⟩
      | _ => cases hs <;> exact ⟨rfl, rfl⟩
  | cancelTimer id =>
      cases hs
      simp only [cancelTimer]
      split
      · exact ⟨rfl, rfl⟩
      · split <;> exact ⟨rfl, rfl⟩
  | tick d =>
      cases hs
      exact ⟨rfl, rfl⟩

omit [DecidableEq τ] in
theorem Level.gone {pass : List Nat} (h : Level (s, pass)) {n : Nat}
    (hn : n ∈ pass ++ s.run.batch) : s.Gone n := by
  obtain ⟨before, hbefore⟩ := h.handed
  rcases List.mem_append.mp hn with hn | hn
  · refine Or.inr (Or.inl ?_)
    show n ∈ s.handed.map Prod.fst
    rw [hbefore]
    exact List.mem_append_right before hn
  · exact Or.inl hn

theorem level_step {a : Action τ} {pass : List Nat} (hi : Inv s)
    (h : Level (s, pass)) (hok : oneDeadline (s, pass) a = true)
    (hs : apply a s = some s') : Level (s', passAfter s pass a) := by
  by_cases ha : a = .run
  · subst ha
    exact level_run h hok hs
  · have hpass : passAfter s pass a = pass := by
      cases a with
      | run => exact absurd rfl ha
      | _ => rfl
    obtain ⟨hrun, hhanded⟩ := apply_bystander ha hs
    rw [hpass]
    exact h.still (by rw [hrun]) (fun hp => hrun ▸ hp) hhanded
      fun n hn => gone_expireAt hi hs (h.gone hn)

theorem level_reach {w : Watched τ}
    (h : (watchedMachine τ).Reach (fun w a => oneDeadline w a = true) w) :
    Level w := by
  refine h.invariant (I := Level) ?_ ?_
  · rintro ⟨s, pass⟩ ⟨⟨now, rfl⟩, rfl⟩
    exact ⟨nofun, nofun, [], rfl⟩
  · rintro ⟨s, pass⟩ w' a hr ih hok hs
    obtain ⟨s', hs', rfl⟩ := Option.map_eq_some_iff.mp hs
    exact level_step (inv_reachable ((watched_refines _).reach hr)) ih hok hs'

/-- **Expired timers with one deadline are scheduled in order.** If the
timers of every batch share their deadline, what the timer thread
schedules between two visits to its heap is in non-decreasing order of
deadlines. -/
theorem pass_ordered (w : Watched τ)
    (hreach : (watchedMachine τ).Reach
      (fun w a => oneDeadline w a = true) w) :
    (∃ before, w.1.handed.map Prod.fst = before ++ w.2)
    ∧ w.2.Pairwise fun n m => w.1.expireAt n ≤ w.1.expireAt m := by
  have h := level_reach hreach
  refine ⟨h.handed, List.Pairwise.imp_of_mem ?_ (List.pairwise_of_forall
    fun _ _ => trivial)⟩
  intro n m hn hm _
  exact le_of_eq (h.level n (List.mem_append_left _ hn) m
    (List.mem_append_left _ hm))

/-- Two timers are added, each with its delay; both expire before the
timer thread looks. -/
def twoExpireRun (d d' : Int) : List (Action Unit) :=
  List.flatten
    [Action.addTimer () true d true
        :: List.replicate 7 (Action.adder () ⟨0, kNumBuckets_pos⟩),
      Action.addTimer () true d' true
        :: List.replicate 5 (Action.adder () ⟨1, one_lt_kNumBuckets⟩),
      [Action.tick 3000], List.replicate 47 Action.run]

def twoExpire (d d' : Int) : Watched Unit :=
  (watchedMachine Unit).final (twoExpireRun d d') ({}, [])

/-- The timer that was due later is scheduled first. -/
theorem twoExpire_reversed :
    (watchedMachine Unit).Reachable (twoExpire 1 2)
    ∧ (twoExpire 1 2).2 = [1, 0]
    ∧ (twoExpire 1 2).1.expireAt 1 = 2000
    ∧ (twoExpire 1 2).1.expireAt 0 = 1000 :=
  ⟨Machine.reachable_final ⟨⟨0, rfl⟩, rfl⟩ (by decide +kernel),
    by decide +kernel, by decide +kernel, by decide +kernel⟩

/-- With one delay for both, the order is kept. -/
theorem twoExpire_level :
    ((watchedMachine Unit).finalWhile oneDeadline (twoExpireRun 1 1)
      ({}, [])).2 = [1, 0]
    ∧ (((watchedMachine Unit).finalWhile oneDeadline (twoExpireRun 1 1)
      ({}, [])).2.Pairwise fun n m =>
        ((watchedMachine Unit).finalWhile oneDeadline (twoExpireRun 1 1)
          ({}, [])).1.expireAt n
        ≤ ((watchedMachine Unit).finalWhile oneDeadline (twoExpireRun 1 1)
          ({}, [])).1.expireAt m) :=
  ⟨by decide +kernel, (pass_ordered _ (Machine.reach_finalWhile
    ⟨⟨0, rfl⟩, rfl⟩ (by decide +kernel))).2⟩

end AntRpc.Timer
