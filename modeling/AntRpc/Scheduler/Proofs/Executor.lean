/-
Every scheduled task is at one place until a worker runs it, and the
inbound counters never undercount.

# Places

A task is in a queue, with a worker inside its loop, with a thread inside
`schedule`, or executed. A step hands at most one task from one place to
another.

# The counter

`inbound_count_` goes up before an entry is enqueued and down after one
was dequeued. So it is the length of the inbound queue plus what the
threads in between still owe it (`State.owed`), as an `int32_t`. Each
debt stands for a task a thread holds, which bounds the counter by the
number of tasks not yet executed.
-/
import AntRpc.Scheduler.Executor
import AntRpc.Lib.Custody

namespace AntRpc.Scheduler.Executor

open Lib Finset

variable {ν ε : Type} {n : Nat} {s s' : State ν n ε}

-- == places

inductive Place (n : Nat) (ε : Type) where
  | localQueue (w : Fin n)
  | inboundQueue (w : Fin n)
  | globalQueue
  | worker (w : Fin n)
  | call (t : Tid n ε)
  | executed
deriving DecidableEq

/-- The tasks a `schedule` call holds. -/
def SchedulePc.held : SchedulePc ν n → List (Task ν)
  | .idle => []
  | .pushReady _ task | .addCount _ task | .enqueue _ task
  | .pushGlobal task => [task]

/-- The tasks a worker holds inside its loop. -/
def LoopPc.held : LoopPc ν n → List (Task ν)
  | .dequeueBulk bulk => bulk
  | .subCount first rest | .refill first rest => first :: rest
  | .refillAdd first task rest | .refillEnqueue first task rest =>
      first :: task :: rest
  | .stealSub _ task | .run task => [task]
  | _ => []

/-- The tasks at a place that is not `executed`. -/
def State.tasksAt (s : State ν n ε) : Place n ε → List (Task ν)
  | .localQueue w => s.localQueue w
  | .inboundQueue w => s.inboundQueue w
  | .globalQueue => s.globalQueue
  | .worker w => (s.workers w).held
  | .call t => (s.calls t).held
  | .executed => []

/-- The numbers at a place. -/
def State.holds (s : State ν n ε) : Place n ε → List Nat
  | .executed => s.executed
  | p => (s.tasksAt p).map Task.number

section Holds

variable (r : Place n ε)

@[simp] theorem holds_addCount (w : Fin n) (d : Int) :
    (s.addCount w d).holds r = s.holds r := by
  cases r <;> rfl

variable [DecidableEq ε]

@[simp] theorem holds_setLocal (w : Fin n) (l : List (Task ν)) :
    (s.setLocal w l).holds r
      = if r = .localQueue w then l.map Task.number else s.holds r := by
  cases r with
  | localQueue v =>
      rcases eq_or_ne v w with rfl | h
      · simp [State.holds, State.tasksAt, State.setLocal]
      · simp [State.holds, State.tasksAt, State.setLocal, h]
  | _ => rfl

@[simp] theorem holds_setInbound (w : Fin n) (l : List (Task ν)) :
    (s.setInbound w l).holds r
      = if r = .inboundQueue w then l.map Task.number else s.holds r := by
  cases r with
  | inboundQueue v =>
      rcases eq_or_ne v w with rfl | h
      · simp [State.holds, State.tasksAt, State.setInbound]
      · simp [State.holds, State.tasksAt, State.setInbound, h]
  | _ => rfl

@[simp] theorem holds_setGlobal (l : List (Task ν)) :
    (s.setGlobal l).holds r
      = if r = .globalQueue then l.map Task.number else s.holds r := by
  cases r <;> rfl

@[simp] theorem holds_workerTo (w : Fin n) (pc : LoopPc ν n) :
    (s.workerTo w pc).holds r
      = if r = .worker w then pc.held.map Task.number else s.holds r := by
  cases r with
  | worker v =>
      rcases eq_or_ne v w with rfl | h
      · simp [State.holds, State.tasksAt, State.workerTo]
      · simp [State.holds, State.tasksAt, State.workerTo, h]
  | _ => rfl

@[simp] theorem holds_callTo (t : Tid n ε) (pc : SchedulePc ν n) :
    (s.callTo t pc).holds r
      = if r = .call t then pc.held.map Task.number else s.holds r := by
  cases r with
  | call u =>
      rcases eq_or_ne u t with rfl | h
      · simp [State.holds, State.tasksAt, State.callTo]
      · simp [State.holds, State.tasksAt, State.callTo, h]
  | _ => rfl

end Holds

/-- Every task scheduled is at one place. -/
def Kept [DecidableEq ε] (s : State ν n ε) : Prop := Placed s.holds s.scheduled

-- == debts

/-- What a `schedule` call owes worker `w`'s queue. -/
def SchedulePc.owes (w : Fin n) : SchedulePc ν n → Int
  | .enqueue v _ => if v = w then 1 else 0
  | _ => 0

/-- What worker `v`'s loop owes worker `w`'s counter. -/
def LoopPc.owes (v w : Fin n) : LoopPc ν n → Int
  | .dequeueBulk bulk => if v = w then bulk.length else 0
  | .subCount _ rest => if v = w then rest.length + 1 else 0
  | .refillEnqueue _ _ _ => if v = w then 1 else 0
  | .stealSub victim _ => if victim = w then 1 else 0
  | _ => 0

instance [Fintype ε] : Fintype (Tid n ε) :=
  Fintype.ofEquiv (Fin n ⊕ ε)
    { toFun := fun x => x.elim .worker .external
      invFun := fun t => match t with
        | .worker w => .inl w
        | .external e => .inr e
      left_inv := by rintro (w | e) <;> rfl
      right_inv := by rintro (w | e) <;> rfl }

variable [Fintype ε]

/-- What `inbound_count_` of worker `w` stands for. -/
def State.owed (s : State ν n ε) (w : Fin n) : Int :=
  (s.inboundQueue w).length + ∑ v, (s.workers v).owes v w
    + ∑ t, (s.calls t).owes w

/-- The counter, as an `int32_t`, is what it stands for. -/
def Counted (s : State ν n ε) : Prop :=
  ∀ w, s.inboundCount w = (s.owed w).bmod (2 ^ 32)

/-- One summand changes. -/
theorem sum_update {ι γ : Type} [Fintype ι] [DecidableEq ι]
    (f : ι → γ → Int) (g : ι → γ) (i : ι) (x : γ) :
    ∑ j, f j (Function.update g i x j)
      = ∑ j, f j (g j) - f i (g i) + f i x := by
  have hpoint (j : ι) : f j (Function.update g i x j)
      = f j (g j) + if j = i then f i x - f i (g i) else 0 := by
    rcases eq_or_ne j i with rfl | h
    · rw [Function.update_self, if_pos rfl]
      omega
    · rw [Function.update_of_ne h, if_neg h, add_zero]
  rw [Finset.sum_congr rfl fun j _ => hpoint j, sum_add_distrib,
    Finset.sum_ite_eq' univ i, if_pos (mem_univ i)]
  omega

section Owed

variable (w v : Fin n)

omit [Fintype ε] in
@[simp] theorem setLocal_workers (l : List (Task ν)) :
    (s.setLocal v l).workers = s.workers := rfl

@[simp] theorem owed_setLocal (l : List (Task ν)) :
    (s.setLocal v l).owed w = s.owed w := rfl

@[simp] theorem owed_addCount (d : Int) :
    (s.addCount v d).owed w = s.owed w := rfl

@[simp] theorem owed_setInbound (l : List (Task ν)) :
    (s.setInbound v l).owed w = s.owed w
      + if v = w then (l.length : Int) - (s.inboundQueue v).length else 0 := by
  simp only [State.owed, State.setInbound]
  rcases eq_or_ne v w with rfl | h
  · rw [Function.update_self, if_pos rfl]
    omega
  · rw [Function.update_of_ne (Ne.symm h), if_neg h]
    omega

@[simp] theorem owed_workerTo (pc : LoopPc ν n) :
    (s.workerTo v pc).owed w
      = s.owed w - (s.workers v).owes v w + pc.owes v w := by
  simp only [State.owed, State.workerTo]
  rw [sum_update (fun v pc => LoopPc.owes v w pc)]
  omega

@[simp] theorem owed_callTo [DecidableEq ε] (t : Tid n ε) (pc : SchedulePc ν n) :
    (s.callTo t pc).owed w = s.owed w - (s.calls t).owes w + pc.owes w := by
  simp only [State.owed, State.callTo]
  rw [sum_update (fun _ pc => SchedulePc.owes w pc)]
  omega

end Owed

-- == steps

variable [DecidableEq ε]

omit [Fintype ε] in
theorem Kept.same (h : Kept s) (hsched : s'.scheduled = s.scheduled)
    (hall : ∀ r, s'.holds r = s.holds r) : Kept s' := by
  unfold Kept
  rw [hsched]
  exact Placed.perm h fun r => by rw [hall r]

omit [Fintype ε] in
theorem Kept.handOver (h : Kept s) {p q : Place n ε} (x : Nat) (hne : p ≠ q)
    (hsched : s'.scheduled = s.scheduled)
    (hp : (s.holds p).Perm (x :: s'.holds p))
    (hq : (s'.holds q).Perm (x :: s.holds q))
    (hrest : ∀ r, r ≠ p → r ≠ q → s'.holds r = s.holds r) : Kept s' := by
  unfold Kept
  rw [hsched]
  exact Placed.move h hne hp hq fun r h1 h2 => by rw [hrest r h1 h2]

omit [DecidableEq ε] in
theorem Counted.keep (h : Counted s)
    (hcount : s'.inboundCount = s.inboundCount)
    (howed : ∀ w, s'.owed w = s.owed w) : Counted s' := by
  intro w
  rw [hcount, howed w]
  exact h w

omit [DecidableEq ε] in
/-- The counter of `v` moves by `d` together with what it stands for. -/
theorem Counted.add (h : Counted s) {v : Fin n} {d : Int}
    (hcount : s'.inboundCount = (s.addCount v d).inboundCount)
    (howed : ∀ w, s'.owed w = s.owed w + if v = w then d else 0) :
    Counted s' := by
  intro w
  rw [hcount, howed w]
  show Function.update s.inboundCount v _ w = _
  rcases eq_or_ne v w with rfl | hne
  · rw [Function.update_self, if_pos rfl, h v, Int.bmod_add_bmod]
  · rw [Function.update_of_ne (Ne.symm hne), if_neg hne, add_zero]
    exact h w

structure Inv (s : State ν n ε) : Prop where
  kept : Kept s
  counted : Counted s

/-- A worker moves with nothing in hand and nothing owed, or with the
same. -/
theorem Inv.workerTo (h : Inv s) {w : Fin n} {pc pc' : LoopPc ν n}
    (hpc : s.workers w = pc) (hheld : pc'.held = pc.held)
    (howes : ∀ u, pc'.owes w u = pc.owes w u) : Inv (s.workerTo w pc') where
  kept := h.kept.same rfl fun r => by
    rw [holds_workerTo, hheld, ← hpc]
    split
    · next hr => rw [hr]; rfl
    · rfl
  counted := h.counted.keep rfl fun u => by
    rw [owed_workerTo, howes, hpc]
    omega

-- ---------------------------------------------------------- handing over

/-- The numbers of a list of tasks. -/
abbrev numbers (l : List (Task ν)) : List Nat := l.map Task.number

omit [DecidableEq ε] [Fintype ε] in
theorem dequeue_perm {l rest : List (Task ν)} {entry : Option Nat}
    {task : Task ν} (h : dequeue l entry = some (task, rest)) :
    l.Perm (task :: rest) := by
  obtain ⟨i, rfl, hi⟩ := Option.bind_eq_some_iff.mp h
  obtain ⟨_, hget, heq⟩ := Option.map_eq_some_iff.mp hi
  cases heq
  obtain ⟨hlt, hget⟩ := List.getElem?_eq_some_iff.mp hget
  rw [← hget]
  exact (List.getElem_cons_eraseIdx_perm hlt).symm

omit [Fintype ε] in
/-- A worker takes a task from place `p`; the queue alone is `s₁`. -/
theorem Kept.take (h : Kept s) {s₁ : State ν n ε} (p : Place n ε)
    (task : Task ν) {w : Fin n} {pc : LoopPc ν n} (hp : p ≠ .worker w)
    (hsched : s₁.scheduled = s.scheduled)
    (hqueue : (s.holds p).Perm (task.number :: s₁.holds p))
    (hrest : ∀ r, r ≠ p → s₁.holds r = s.holds r)
    (hheld : (numbers pc.held).Perm
      (task.number :: numbers (s.workers w).held)) :
    Kept (s₁.workerTo w pc) := by
  refine h.handOver task.number hp hsched ?_ ?_ fun r hr hw => ?_
  · rw [holds_workerTo, if_neg hp]
    exact hqueue
  · rw [holds_workerTo, if_pos rfl]
    exact hheld
  · rw [holds_workerTo, if_neg hw]
    exact hrest r hr

omit [Fintype ε] in
/-- A worker gives a task to place `p`. -/
theorem Kept.give (h : Kept s) {s₁ : State ν n ε} (p : Place n ε)
    (task : Task ν) {w : Fin n} {pc : LoopPc ν n} (hp : p ≠ .worker w)
    (hsched : s₁.scheduled = s.scheduled)
    (hqueue : (s₁.holds p).Perm (task.number :: s.holds p))
    (hrest : ∀ r, r ≠ p → s₁.holds r = s.holds r)
    (hheld : (numbers (s.workers w).held).Perm
      (task.number :: numbers pc.held)) :
    Kept (s₁.workerTo w pc) := by
  refine h.handOver task.number (Ne.symm hp) hsched ?_ ?_ fun r hw hr => ?_
  · rw [holds_workerTo, if_pos rfl]
    exact hheld
  · rw [holds_workerTo, if_neg hp]
    exact hqueue
  · rw [holds_workerTo, if_neg hw]
    exact hrest r hr

omit [Fintype ε] in
/-- A `schedule` call gives its task to place `p` and is over. -/
theorem Kept.post (h : Kept s) {s₁ : State ν n ε} (p : Place n ε)
    (task : Task ν) {t : Tid n ε} (hp : p ≠ .call t)
    (hsched : s₁.scheduled = s.scheduled)
    (hqueue : (s₁.holds p).Perm (task.number :: s.holds p))
    (hrest : ∀ r, r ≠ p → s₁.holds r = s.holds r)
    (hheld : (s.calls t).held = [task]) :
    Kept (s₁.callTo t .idle) := by
  refine h.handOver task.number (Ne.symm hp) hsched ?_ ?_ fun r ht hr => ?_
  · rw [holds_callTo, if_pos rfl]
    show (numbers (s.calls t).held).Perm _
    rw [hheld]
    exact List.Perm.refl _
  · rw [holds_callTo, if_neg hp]
    exact hqueue
  · rw [holds_callTo, if_neg ht]
    exact hrest r hr

-- ---------------------------------------------------------------- workers

/-- A worker takes a task no counter knows of, to run it. -/
theorem Inv.takes (h : Inv s) (s₁ : State ν n ε) {w : Fin n} {pc : LoopPc ν n}
    (hpc : s.workers w = pc) (hworkers : s₁.workers = s.workers)
    (hheld : pc.held = []) (howes : ∀ u, pc.owes w u = 0) (p : Place n ε)
    (task : Task ν) (hp : p ≠ .worker w) (hsched : s₁.scheduled = s.scheduled)
    (hcount : s₁.inboundCount = s.inboundCount)
    (howed : ∀ u, s₁.owed u = s.owed u)
    (hrest : ∀ r, r ≠ p → s₁.holds r = s.holds r)
    (hqueue : (s.holds p).Perm (task.number :: s₁.holds p)) :
    Inv (s₁.workerTo w (.run task)) where
  kept := h.kept.take p task hp hsched hqueue hrest (by
    rw [hpc, hheld]
    exact List.Perm.refl _)
  counted := h.counted.keep hcount fun u => by
    rw [owed_workerTo, hworkers, hpc, howes, howed]
    simp [LoopPc.owes]

/-- The back of a worker's own deque. -/
theorem Inv.popLocal (h : Inv s) {w : Fin n} {task : Task ν}
    (hpc : s.workers w = .tryPop)
    (hlast : (s.localQueue w).getLast? = some task) :
    Inv ((s.setLocal w (s.localQueue w).dropLast).workerTo w
      (.run task)) := by
  refine h.takes (s.setLocal w _) hpc rfl rfl (fun _ => rfl) (.localQueue w)
    task nofun rfl rfl (fun _ => rfl)
    (fun r hr => by rw [holds_setLocal, if_neg hr]) ?_
  rw [holds_setLocal, if_pos rfl]
  show (numbers (s.localQueue w)).Perm _
  conv_lhs => rw [← List.dropLast_append_getLast? task hlast]
  rw [numbers, List.map_append]
  exact List.perm_append_singleton _ _

/-- The front of another worker's deque. -/
theorem Inv.stealLocal (h : Inv s) {w victim : Fin n} {start i : Nat}
    {task : Task ν} {rest : List (Task ν)}
    (hpc : s.workers w = .stealLocal start i)
    (hfront : s.localQueue victim = task :: rest) :
    Inv ((s.setLocal victim rest).workerTo w (.run task)) := by
  refine h.takes (s.setLocal victim rest) hpc rfl rfl (fun _ => rfl)
    (.localQueue victim) task nofun rfl rfl (fun _ => rfl)
    (fun r hr => by rw [holds_setLocal, if_neg hr]) ?_
  rw [holds_setLocal, if_pos rfl]
  show (numbers (s.localQueue victim)).Perm _
  rw [hfront]
  exact List.Perm.refl _

/-- An entry of the global queue. -/
theorem Inv.popGlobal (h : Inv s) {w : Fin n} {entry : Option Nat}
    {task : Task ν} {rest : List (Task ν)} {pc : LoopPc ν n}
    (hpc : s.workers w = pc) (hheld : pc.held = [])
    (howes : ∀ u, pc.owes w u = 0)
    (hdeq : dequeue s.globalQueue entry = some (task, rest)) :
    Inv ((s.setGlobal rest).workerTo w (.run task)) := by
  refine h.takes (s.setGlobal rest) hpc rfl hheld howes .globalQueue task
    nofun rfl rfl (fun _ => rfl)
    (fun r hr => by rw [holds_setGlobal, if_neg hr]) ?_
  rw [holds_setGlobal, if_pos rfl]
  exact (dequeue_perm hdeq).map _

/-- An entry of an inbound queue: it is owed to the counter from now
on. -/
theorem Inv.takeInbound (h : Inv s) {w victim : Fin n} {entry : Option Nat}
    {task : Task ν} {rest : List (Task ν)} {pc pc' : LoopPc ν n}
    (hpc : s.workers w = pc)
    (hdeq : dequeue (s.inboundQueue victim) entry = some (task, rest))
    (hheld : pc'.held = pc.held ++ [task])
    (howes : ∀ u, pc'.owes w u
      = pc.owes w u + if victim = u then 1 else 0) :
    Inv ((s.setInbound victim rest).workerTo w pc') where
  kept := by
    refine h.kept.take (.inboundQueue victim) task nofun rfl
      ?_ (fun r hr => by rw [holds_setInbound, if_neg hr]) ?_
    · rw [holds_setInbound, if_pos rfl]
      exact (dequeue_perm hdeq).map _
    · rw [hheld, hpc, numbers, List.map_append]
      exact List.perm_append_singleton _ _
  counted := h.counted.keep rfl fun u => by
    have hlen := (dequeue_perm hdeq).length_eq
    rw [List.length_cons] at hlen
    rw [owed_workerTo, owed_setInbound, howes, ← hpc]
    show _ - (s.workers w).owes w u + _ = _
    split <;> omega

/-- A task put back into a worker's own deque. -/
theorem Inv.refillLocal (h : Inv s) {w : Fin n} {first task : Task ν}
    {rest : List (Task ν)} (hpc : s.workers w = .refill first (task :: rest)) :
    Inv ((s.setLocal w (s.localQueue w ++ [task])).workerTo w
      (.refill first rest)) where
  kept := by
    refine h.kept.give (.localQueue w) task nofun rfl ?_
      (fun r hr => by rw [holds_setLocal, if_neg hr]) ?_
    · rw [holds_setLocal, if_pos rfl, List.map_append]
      exact List.perm_append_singleton _ _
    · rw [hpc]
      exact List.Perm.swap _ _ _
  counted := h.counted.keep rfl fun u => by
    simp [hpc, LoopPc.owes]

/-- A task put back into a worker's inbound queue: the debt is paid. -/
theorem Inv.refillInbound (h : Inv s) {w : Fin n} {first task : Task ν}
    {rest : List (Task ν)}
    (hpc : s.workers w = .refillEnqueue first task rest) :
    Inv ((s.setInbound w (s.inboundQueue w ++ [task])).workerTo w
      (.refill first rest)) where
  kept := by
    refine h.kept.give (.inboundQueue w) task nofun rfl ?_
      (fun r hr => by rw [holds_setInbound, if_neg hr]) ?_
    · rw [holds_setInbound, if_pos rfl, List.map_append]
      exact List.perm_append_singleton _ _
    · rw [hpc]
      exact List.Perm.swap _ _ _
  counted := h.counted.keep rfl fun u => by
    rw [owed_workerTo, owed_setInbound, List.length_append,
      List.length_singleton]
    show _ - (s.workers w).owes w u + _ = _
    rw [hpc]
    simp only [LoopPc.owes]
    split <;> omega

/-- The counter of `v` moves by `d`, and with it what worker `w` owes. -/
theorem Inv.count (h : Inv s) {w v : Fin n} {d : Int} {pc pc' : LoopPc ν n}
    (hpc : s.workers w = pc) (hheld : pc'.held = pc.held)
    (howes : ∀ u, pc'.owes w u = pc.owes w u + if v = u then d else 0) :
    Inv ((s.addCount v d).workerTo w pc') where
  kept := h.kept.same rfl fun r => by
    rw [holds_workerTo, holds_addCount, hheld, ← hpc]
    split
    · next hr => rw [hr]; rfl
    · rfl
  counted := h.counted.add rfl fun u => by
    rw [owed_workerTo, owed_addCount, howes, ← hpc]
    show _ - (s.workers w).owes w u + _ = _
    omega

theorem Inv.execute (h : Inv s) {w : Fin n} {task : Task ν}
    (hpc : s.workers w = .run task) :
    Inv (State.workerTo { s with executed := s.executed ++ [task.number] } w
      .running) where
  kept := by
    refine h.kept.give .executed task nofun rfl ?_
      (fun r hr => ?_) ?_
    · exact List.perm_append_singleton _ _
    · cases r with
      | executed => exact absurd rfl hr
      | _ => rfl
    · rw [hpc]
      exact List.Perm.refl _
  counted := h.counted.keep rfl fun u => by
    rw [owed_workerTo]
    show s.owed u - (s.workers w).owes w u + _ = _
    rw [hpc]
    simp [LoopPc.owes]

theorem stealStart_held (random : Nat) :
    (stealStart n random : LoopPc ν n).held = [] := by
  unfold stealStart
  split <;> rfl

theorem stealStart_owes (random : Nat) (w u : Fin n) :
    (stealStart n random : LoopPc ν n).owes w u = 0 := by
  unfold stealStart
  split <;> rfl

theorem Inv.execWorker (h : Inv s) {w : Fin n} {choice : Choice}
    (hs : execWorker s w choice (s.workers w) = some s') : Inv s' := by
  generalize hpc : s.workers w = pc at hs
  cases pc with simp only [Executor.execWorker] at hs
  | loop =>
      split at hs <;> cases hs
      · have h' : Inv { s with
            tick := Function.update s.tick w (s.tick w + 1) } :=
          ⟨h.kept.same rfl fun r => by cases r <;> rfl,
            h.counted.keep rfl fun _ => rfl⟩
        split <;> exact h'.workerTo hpc rfl fun _ => rfl
      · exact h.workerTo hpc rfl fun _ => rfl
  | globalFirst | globalLast =>
      split at hs <;> cases hs
      · next hdeq => exact h.popGlobal hpc rfl (fun _ => rfl) hdeq
      · exact h.workerTo hpc rfl fun _ => rfl
  | tryPop =>
      split at hs <;> cases hs
      · next hlast => exact h.popLocal hpc hlast
      · exact h.workerTo hpc rfl fun _ => rfl
  | loadCount =>
      split at hs <;> cases hs
      · exact h.workerTo hpc (stealStart_held _) fun u => stealStart_owes _ w u
      · exact h.workerTo hpc rfl fun u => by simp [LoopPc.owes]
  | dequeueBulk bulk =>
      split at hs
      · next hdeq =>
        split at hs <;> cases hs
        refine h.takeInbound hpc hdeq rfl fun u => ?_
        simp only [LoopPc.owes, List.length_append, List.length_singleton]
        split <;> simp
      · cases hs
        exact h.workerTo hpc (stealStart_held _)
          fun u => by rw [stealStart_owes]; simp [LoopPc.owes]
      · cases hs
        exact h.workerTo hpc rfl fun u => by simp [LoopPc.owes]
  | subCount first rest =>
      cases hs
      refine h.count hpc rfl fun u => ?_
      simp only [LoopPc.owes]
      push_cast
      split <;> omega
  | refill first rest =>
      split at hs
      · cases hs
        exact h.workerTo hpc rfl fun _ => rfl
      · split at hs <;> cases hs
        · exact h.refillLocal hpc
        · exact h.workerTo hpc rfl fun _ => rfl
  | refillAdd first task rest =>
      cases hs
      refine h.count hpc rfl fun u => ?_
      simp only [LoopPc.owes]
      omega
  | refillEnqueue first task rest =>
      cases hs
      exact h.refillInbound hpc
  | stealLocal start i =>
      split at hs
      · split at hs
        · cases hs
          exact h.workerTo hpc rfl fun _ => rfl
        · split at hs <;> cases hs
          · exact h.workerTo hpc rfl fun _ => rfl
          · next hfront => exact h.stealLocal hpc hfront
      · cases hs
        exact h.workerTo hpc rfl fun _ => rfl
  | stealLoadCount start i =>
      split at hs
      · split at hs <;> cases hs <;> exact h.workerTo hpc rfl fun _ => rfl
      · cases hs
        exact h.workerTo hpc rfl fun _ => rfl
  | stealDequeue start i victim =>
      split at hs <;> cases hs
      · next hdeq =>
        refine h.takeInbound hpc hdeq rfl fun u => ?_
        simp only [LoopPc.owes]
        omega
      · exact h.workerTo hpc rfl fun _ => rfl
  | stealSub victim task =>
      cases hs
      refine h.count hpc rfl fun u => ?_
      simp only [LoopPc.owes]
      split <;> omega
  | run task =>
      cases hs
      exact h.execute hpc
  | running =>
      split at hs <;> cases hs
      exact h.workerTo hpc rfl fun _ => rfl
  | stopped => cases hs

-- ------------------------------------------------------------- schedule

/-- The task goes to a queue no counter knows of. -/
theorem Inv.posts (h : Inv s) {s₁ : State ν n ε} {t : Tid n ε}
    {pc : SchedulePc ν n} (hpc : s.calls t = pc) (p : Place n ε)
    (task : Task ν) (hp : p ≠ .call t) (hheld : pc.held = [task])
    (hsched : s₁.scheduled = s.scheduled)
    (hcount : s₁.inboundCount = s.inboundCount)
    (howed : ∀ u, s₁.owed u - (s₁.calls t).owes u = s.owed u)
    (hrest : ∀ r, r ≠ p → s₁.holds r = s.holds r)
    (hqueue : s₁.holds p = s.holds p ++ [task.number]) :
    Inv (s₁.callTo t .idle) where
  kept := h.kept.post p task hp hsched
    (by rw [hqueue]; exact List.perm_append_singleton _ _) hrest
    (by rw [hpc, hheld])
  counted := h.counted.keep hcount fun u => by
    rw [owed_callTo, howed]
    simp [SchedulePc.owes]

theorem Inv.execCall (h : Inv s) {t : Tid n ε}
    (hs : execCall s t (s.calls t) = some s') : Inv s' := by
  generalize hpc : s.calls t = pc at hs
  have hheld : s.holds (.call t) = numbers pc.held := by rw [← hpc]; rfl
  cases pc with simp only [Executor.execCall] at hs
  | idle => cases hs
  | pushReady w task =>
      split at hs <;> cases hs
      · refine h.posts hpc (.localQueue w) task nofun rfl rfl rfl
          (fun u => ?_) (fun r hr => by rw [holds_setLocal, if_neg hr])
          (by rw [holds_setLocal, if_pos rfl, List.map_append]; rfl)
        show s.owed u - (s.calls t).owes u = _
        simp [hpc, SchedulePc.owes]
      · refine ⟨h.kept.same rfl fun r => ?_, h.counted.keep rfl fun u => ?_⟩
        · rw [holds_callTo]
          split
          · next hr => rw [hr, hheld]; rfl
          · rfl
        · simp [hpc, SchedulePc.owes]
  | addCount w task =>
      cases hs
      refine ⟨h.kept.same rfl fun r => ?_, h.counted.add rfl fun u => ?_⟩
      · rw [holds_callTo, holds_addCount]
        split
        · next hr => rw [hr, hheld]; rfl
        · rfl
      · rw [owed_callTo, owed_addCount]
        show _ - (s.calls t).owes u + _ = _
        simp [hpc, SchedulePc.owes]
  | enqueue w task =>
      cases hs
      refine h.posts hpc (.inboundQueue w) task nofun rfl rfl rfl
        (fun u => ?_) (fun r hr => by rw [holds_setInbound, if_neg hr])
        (by rw [holds_setInbound, if_pos rfl, List.map_append]; rfl)
      rw [owed_setInbound, List.length_append, List.length_singleton]
      show _ - (s.calls t).owes u = _
      rw [hpc]
      simp only [SchedulePc.owes]
      split <;> omega
  | pushGlobal task =>
      cases hs
      refine h.posts hpc .globalQueue task nofun rfl rfl rfl (fun u => ?_)
        (fun r hr => by rw [holds_setGlobal, if_neg hr])
        (by rw [holds_setGlobal, if_pos rfl, List.map_append]; rfl)
      show s.owed u - (s.calls t).owes u = _
      simp [hpc, SchedulePc.owes]

omit [Fintype ε] [DecidableEq ε] in
theorem calls_of_mayCall {t : Tid n ε} (h : MayCall s t = true) :
    s.calls t = .idle := by
  unfold MayCall at h
  split at h
  · assumption
  · cases h

/-- A new task is with its caller, who owes nothing yet. -/
theorem Inv.enter (h : Inv s) {t : Tid n ε} {node : ν}
    {pc : Task ν → SchedulePc ν n} (hidle : s.calls t = .idle)
    (hheld : ∀ task, (pc task).held = [task])
    (howes : ∀ task u, (pc task).owes u = 0) : Inv (s.enter t node pc) where
  kept := by
    refine Placed.arrive h.kept (q := .call t) ?_ fun r hr => ?_
    · show ((State.callTo _ t _).holds (.call t)).Perm _
      rw [holds_callTo, if_pos rfl, hheld]
      show [s.scheduled].Perm (s.scheduled :: numbers (s.calls t).held)
      rw [hidle]
      exact List.Perm.refl _
    · show ((State.callTo _ t _).holds r).Perm _
      rw [holds_callTo, if_neg hr]
      cases r <;> exact List.Perm.refl _
  counted := h.counted.keep rfl fun u => by
    show (State.callTo _ t _).owed u = _
    rw [owed_callTo, howes]
    show s.owed u - (s.calls t).owes u + 0 = _
    rw [hidle]
    simp [SchedulePc.owes]

theorem inv_apply {a : Action ν n ε} (h : Inv s)
    (hs : apply a s = some s') : Inv s' := by
  cases a with
  | schedule t task draw =>
      simp only [apply] at hs
      split at hs
      · next hcall =>
        have hidle := calls_of_mayCall hcall
        cases task with
        | none => cases hs; exact h
        | some node =>
            obtain ⟨w, -, rfl⟩ := Option.map_eq_some_iff.mp hs
            exact h.enter hidle (fun _ => rfl) fun _ _ => rfl
      · cases hs
  | scheduleTo t task threadId =>
      simp only [apply] at hs
      split at hs
      · next hcall =>
        have hidle := calls_of_mayCall hcall
        cases task with
        | none => cases hs; exact h
        | some node =>
            simp only at hs
            split at hs <;> cases hs <;>
              exact h.enter hidle (fun _ => rfl) fun _ _ => rfl
      · cases hs
  | call t => exact h.execCall hs
  | worker w choice => exact h.execWorker hs
  | stop =>
      cases hs
      exact ⟨h.kept.same rfl fun r => by cases r <;> rfl,
        h.counted.keep rfl fun _ => rfl⟩

instance : Inhabited (Place n ε) := ⟨.executed⟩

theorem inv_reachable (h : (machine ν n ε).Reachable s) : Inv s := by
  refine h.invariant (I := Inv) ?_ fun _ _ _ _ hinv _ hs => inv_apply hinv hs
  rintro _ rfl
  refine ⟨Placed.empty fun p => by cases p <;> rfl, fun w => ?_⟩
  simp [State.owed, LoopPc.owes, SchedulePc.owes]

-- == the bound

/-- A debt stands for a task in hand. -/
theorem LoopPc.owes_le (v w : Fin n) (pc : LoopPc ν n) :
    pc.owes v w ≤ pc.held.length ∧ 0 ≤ pc.owes v w := by
  cases pc with
  | dequeueBulk bulk | subCount first rest | refillEnqueue first task rest
  | stealSub victim task =>
      simp only [owes, held, List.length_cons, List.length_nil]
      split <;> omega
  | _ => exact ⟨Int.natCast_nonneg _, le_rfl⟩

theorem SchedulePc.owes_le (w : Fin n) (pc : SchedulePc ν n) :
    pc.owes w ≤ pc.held.length ∧ 0 ≤ pc.owes w := by
  cases pc with
  | enqueue v task =>
      simp only [owes, held, List.length_cons, List.length_nil]
      split <;> omega
  | _ => exact ⟨Int.natCast_nonneg _, le_rfl⟩

def Place.equiv : (Fin n ⊕ Fin n ⊕ Fin n ⊕ Tid n ε ⊕ Unit ⊕ Unit)
    ≃ Place n ε where
  toFun
    | .inl w => .localQueue w
    | .inr (.inl w) => .inboundQueue w
    | .inr (.inr (.inl w)) => .worker w
    | .inr (.inr (.inr (.inl t))) => .call t
    | .inr (.inr (.inr (.inr (.inl _)))) => .globalQueue
    | .inr (.inr (.inr (.inr (.inr _)))) => .executed
  invFun
    | .localQueue w => .inl w
    | .inboundQueue w => .inr (.inl w)
    | .worker w => .inr (.inr (.inl w))
    | .call t => .inr (.inr (.inr (.inl t)))
    | .globalQueue => .inr (.inr (.inr (.inr (.inl ()))))
    | .executed => .inr (.inr (.inr (.inr (.inr ()))))
  left_inv := by rintro (w | w | w | t | u | u) <;> rfl
  right_inv := by intro p; cases p <;> rfl

instance : Fintype (Place n ε) := Fintype.ofEquiv _ Place.equiv

omit [DecidableEq ε] in
/-- A sum over all places, kind by kind. -/
theorem sum_places (f : Place n ε → Nat) :
    ∑ p, f p = ∑ w, f (.localQueue w) + (∑ w, f (.inboundQueue w)
      + (∑ w, f (.worker w) + (∑ t, f (.call t)
        + (f .globalQueue + f .executed)))) := by
  rw [← Equiv.sum_comp Place.equiv f]
  simp only [Fintype.sum_sum_type]
  rfl

/-- Tasks scheduled and not yet executed. -/
def State.queued (s : State ν n ε) : Nat := s.scheduled - s.executed.length

/-- A counter stands for no more than there are tasks queued. -/
theorem Inv.owed_le (h : Inv s) (w : Fin n) :
    s.owed w ≤ s.queued ∧ ((s.inboundQueue w).length : Int) ≤ s.owed w := by
  have hsum := Placed.sum_length h.kept
  rw [sum_places] at hsum
  have hinbound : (s.inboundQueue w).length
      ≤ ∑ w, (s.holds (.inboundQueue w)).length := by
    refine le_trans (le_of_eq ?_) (Finset.single_le_sum
      (f := fun w => (s.holds (.inboundQueue w)).length)
      (fun _ _ => Nat.zero_le _) (mem_univ w))
    exact (List.length_map _).symm
  have hworkers : ∑ v, (s.workers v).owes v w
      ≤ ((∑ v, (s.holds (.worker v)).length : Nat) : Int) := by
    push_cast
    refine Finset.sum_le_sum fun v _ => ?_
    show _ ≤ ((numbers (s.workers v).held).length : Int)
    rw [List.length_map]
    exact (LoopPc.owes_le v w _).1
  have hcalls : ∑ t, (s.calls t).owes w
      ≤ ((∑ t, (s.holds (.call t)).length : Nat) : Int) := by
    push_cast
    refine Finset.sum_le_sum fun t _ => ?_
    show _ ≤ ((numbers (s.calls t).held).length : Int)
    rw [List.length_map]
    exact (SchedulePc.owes_le w _).1
  have hworkers0 : 0 ≤ ∑ v, (s.workers v).owes v w :=
    Finset.sum_nonneg fun v _ => (LoopPc.owes_le v w _).2
  have hcalls0 : 0 ≤ ∑ t, (s.calls t).owes w :=
    Finset.sum_nonneg fun t _ => (SchedulePc.owes_le w _).2
  have hexec : (s.holds .executed).length = s.executed.length := rfl
  unfold State.owed State.queued
  constructor <;> omega

-- == exactly once

/-- Tasks are executed at most once and are at one place until then, and
an inbound counter says no less than what is in its queue. -/
structure ExactlyOnce (s : State ν n ε) : Prop where
  executed : s.executed.Nodup ∧ ∀ m ∈ s.executed, m < s.scheduled
  held : ∀ m, m < s.scheduled → m ∉ s.executed →
    ∃! p, p ≠ .executed ∧ m ∈ s.holds p
  once : ∀ p, (s.holds p).Nodup
  notAfter : ∀ m p, m ∈ s.executed → p ≠ .executed → m ∉ s.holds p
  counted : s.queued < 2 ^ 31 → ∀ w,
    ((s.inboundQueue w).length : Int) ≤ s.inboundCount w
      ∧ (s.inboundCount w ≤ 0 → s.inboundQueue w = [])

/-- The caller and the task of a call of either `schedule`, if it is not
null. -/
def Action.brings : Action ν n ε → Option (Tid n ε × ν)
  | .schedule t task _ | .scheduleTo t task _ => task.map (Prod.mk t)
  | _ => none

/-- What one step may do: either `schedule` takes the task it is called
with, under the next number, and no other step takes one; and a worker
executes the task it is at. -/
structure StepOk (a : Action ν n ε) (s s' : State ν n ε) : Prop where
  brings : ∀ t node, a.brings = some (t, node) →
    s'.scheduled = s.scheduled + 1
      ∧ (s'.calls t).held = [⟨s.scheduled, node⟩]
  others : a.brings = none → s'.scheduled = s.scheduled
  executes : s'.executed = s.executed
    ∨ ∃ w choice task, a = .worker w choice ∧ s.workers w = .run task
      ∧ s'.executed = s.executed ++ [task.number]

omit [Fintype ε] in
theorem stepOk_enter {a : Action ν n ε} {t : Tid n ε} {node : ν}
    {pc : Task ν → SchedulePc ν n} (ha : a.brings = some (t, node))
    (hpc : ∀ task, (pc task).held = [task]) :
    StepOk a s (s.enter t node pc) where
  brings t' node' ha' := by
    cases ha.symm.trans ha'
    refine ⟨rfl, ?_⟩
    have hcall : (s.enter t node pc).calls t = pc ⟨s.scheduled, node⟩ :=
      Function.update_self ..
    rw [hcall, hpc]
  others hnone := by
    rw [ha] at hnone
    cases hnone
  executes := .inl rfl

omit [Fintype ε] [DecidableEq ε] in
theorem stepOk_same {a : Action ν n ε} (ha : a.brings = none)
    (hscheduled : s'.scheduled = s.scheduled)
    (hexecuted : s'.executed = s.executed) : StepOk a s s' where
  brings t node hsome := by
    rw [ha] at hsome
    cases hsome
  others _ := hscheduled
  executes := .inl hexecuted

omit [Fintype ε] [DecidableEq ε] in
theorem stepOk_worker {w : Fin n} {choice : Choice}
    (hs : execWorker s w choice (s.workers w) = some s') :
    StepOk (.worker w choice) s s' := by
  generalize hpc : s.workers w = pc at hs
  cases pc with
  | run task =>
      cases hs
      exact ⟨fun _ _ h => (by cases h), fun _ => rfl,
        .inr ⟨w, choice, task, rfl, hpc, rfl⟩⟩
  | _ =>
      simp only [execWorker] at hs
      repeat' split at hs
      all_goals cases hs <;> exact stepOk_same rfl rfl rfl

omit [Fintype ε] in
theorem stepOk_apply {a : Action ν n ε} (hs : apply a s = some s') :
    StepOk a s s' := by
  cases a with
  | schedule t task draw =>
      simp only [apply] at hs
      split at hs
      · cases task with
        | none =>
            cases hs
            exact stepOk_same rfl rfl rfl
        | some node =>
            obtain ⟨w, -, rfl⟩ := Option.map_eq_some_iff.mp hs
            exact stepOk_enter rfl fun _ => rfl
      · cases hs
  | scheduleTo t task threadId =>
      simp only [apply] at hs
      split at hs
      · cases task with
        | none =>
            cases hs
            exact stepOk_same rfl rfl rfl
        | some node =>
            simp only at hs
            split at hs <;> cases hs <;> exact stepOk_enter rfl fun _ => rfl
      · cases hs
  | call t =>
      refine stepOk_same rfl ?_ ?_ <;>
      · simp only [apply] at hs
        generalize s.calls t = pc at hs
        cases pc with simp only [execCall] at hs
        | pushReady w task => split at hs <;> cases hs <;> rfl
        | _ => cases hs <;> rfl
  | worker w choice => exact stepOk_worker hs
  | stop =>
      cases hs
      exact stepOk_same rfl rfl rfl

omit [Fintype ε] in
/-- Whoever may call either `schedule` can, with workers for the one that
chooses among them. -/
theorem schedule_enabled {t : Tid n ε} (h : MayCall s t = true)
    (task : Option ν) :
    (∀ threadId, ∃ s', apply (.scheduleTo t task threadId) s = some s')
      ∧ (0 < n → ∀ draw, ∃ s', apply (.schedule t task draw) s = some s') := by
  refine ⟨fun threadId => ?_, fun hn draw => ?_⟩
  · simp only [apply, if_pos h]
    cases task with
    | none => exact ⟨_, rfl⟩
    | some node =>
        simp only
        split <;> exact ⟨_, rfl⟩
  · simp only [apply, if_pos h]
    cases task with
    | none => exact ⟨_, rfl⟩
    | some node =>
        have htarget : ∃ w, target t draw = some w := by
          unfold target
          split
          · exact ⟨_, rfl⟩
          · rw [dif_pos hn]
            split <;> exact ⟨_, rfl⟩
        obtain ⟨w, hw⟩ := htarget
        exact ⟨_, by rw [hw]; rfl⟩

theorem Inv.exactlyOnce (hinv : Inv s) : ExactlyOnce s := by
  have hkept : Placed s.holds s.scheduled := hinv.kept
  refine ⟨⟨hkept.nodup .executed, fun m hm => hkept.lt_total (p := .executed) hm⟩,
    fun m hm hnot => ?_, hkept.nodup, fun m p hm hp hin => ?_,
    fun hfew w => ?_⟩
  · obtain ⟨p, hp, huniq⟩ := hkept.existsUnique hm
    refine ⟨p, ⟨?_, hp⟩, fun q hq => huniq q hq.2⟩
    rintro rfl
    exact hnot hp
  · obtain ⟨q, hq, huniq⟩ := hkept.existsUnique (hkept.lt_total hin)
    exact hp ((huniq p hin).trans (huniq .executed hm).symm)
  · obtain ⟨hle, hge⟩ := hinv.owed_le w
    have hcount : s.inboundCount w = s.owed w := by
      rw [hinv.counted w]
      exact Int.bmod_eq_of_le_mul_two (by omega) (by omega)
    rw [hcount]
    refine ⟨hge, fun hzero => List.length_eq_zero_iff.mp ?_⟩
    omega

/-- In every interleaving of schedulers, workers and thieves, each task
either `schedule` is called with is taken, is at exactly one place from
then on, and is executed at most once; and with fewer than 2^31 tasks
queued no inbound counter is below its queue's length. -/
theorem tasks_exactly_once (h : (machine ν n ε).Reachable s) :
    ExactlyOnce s
      ∧ (∀ a s', apply a s = some s' → StepOk a s s')
      ∧ ∀ t, MayCall s t = true → ∀ task,
        (∀ threadId, ∃ s', apply (.scheduleTo t task threadId) s = some s')
          ∧ (0 < n → ∀ draw,
            ∃ s', apply (.schedule t task draw) s = some s') :=
  ⟨(inv_reachable h).exactlyOnce, fun _ _ hs => stepOk_apply hs,
    fun _ hcall task => schedule_enabled hcall task⟩

/-- A call from outside, to its end. -/
def inboundCall (a : Action Unit 2 Unit) : List (Action Unit 2 Unit) :=
  a :: List.replicate 3 (Action.call (.external ()))

/-- Steps of worker 0 that dequeue nothing. -/
def workerSteps (k : Nat) : List (Action Unit 2 Unit) :=
  List.replicate k (Action.worker 0 {})

/-- Two tasks from outside, for worker 0 by its load and by its number;
the worker takes both in one bulk, keeps the second in its deque and runs
the first. -/
def bulkRun : List (Action Unit 2 Unit) :=
  List.flatten
    [inboundCall (.schedule (.external ()) (some ()) ⟨0, 0, true⟩),
      inboundCall (.scheduleTo (.external ()) (some ()) 0), workerSteps 3,
      List.replicate 2 (Action.worker 0 { entry := some 0 }),
      workerSteps 5]

def bulkState : State Unit 2 Unit := (machine Unit 2 Unit).final bulkRun {}

theorem bulkState_exactlyOnce :
    bulkState.executed = [0] ∧ bulkState.holds (.localQueue 0) = [1]
      ∧ ExactlyOnce bulkState
      ∧ ∃ s', apply (.schedule (.external ()) (some ()) ⟨0, 0, true⟩)
          bulkState = some s' ∧ s'.scheduled = 3 := by
  obtain ⟨honce, hstep, hcall⟩ := tasks_exactly_once (s := bulkState)
    (Machine.reachable_final rfl (by decide +kernel))
  obtain ⟨s', hs'⟩ := (hcall (.external ()) (by decide +kernel)
    (some ())).2 (by decide) ⟨0, 0, true⟩
  refine ⟨by decide +kernel, by decide +kernel, honce, s', hs', ?_⟩
  rw [((hstep _ _ hs').brings _ _ rfl).1]
  decide +kernel

end AntRpc.Scheduler.Executor
