/-
Every timer is at one place, and runs once and not early, unless it was
canceled in time.

# Places

A timer is with the thread that adds it, in its bucket's list (or the
chain the timer thread took off it), in the heap (or just popped from
it), in the batch, handed to the executor, or discarded. An entry is
deleted when its timer leaves the heap or is discarded, and by then it is
out of its bucket's map: either the timer thread unregistered it, or a
cancel erased it.

# One timer at a time

A step changes one timer and leaves the others alone (`TimerOk.other`),
so the invariant is said per timer.
-/
import AntRpc.Timer.Keeper
import AntRpc.Timer.Proofs.Heap
import AntRpc.Lib.Custody

namespace AntRpc.Timer

open Lib

variable {τ : Type} {s s' : State τ}

-- == places

inductive Place (τ : Type) where
  | adding (t : τ)
  | bucket (i : Fin kNumBuckets)
  | heap
  | batch
  | handed
  | discarded
deriving DecidableEq

instance : Inhabited (Place τ) := ⟨.heap⟩

/-- The timer a thread has not put into its bucket yet. -/
def AddPc.held : AddPc → List Nat
  | .prepare n _ _ _ | .schedule n _ => [n]
  | _ => []

/-- What the timer thread took off bucket `i`'s list. -/
def RunPc.chain (i : Fin kNumBuckets) : RunPc → List Nat
  | .drain j chain => if j = i then chain else []
  | .drainUnregister j p chain | .drainDelete j p chain =>
      if j = i then p :: chain else []
  | _ => []

/-- What the timer thread popped off the heap. -/
def RunPc.popped : RunPc → List Nat
  | .unregisterTop top _ | .checkCanceled top _ => [top]
  | _ => []

/-- The expired timers it collected. -/
def RunPc.batch : RunPc → List Nat
  | .checkTop batch | .checkGlobal _ batch | .unregisterTop _ batch
  | .checkCanceled _ batch | .dispatch batch _ => batch
  | _ => []

/-- The timers at a place. -/
def State.holds (s : State τ) : Place τ → List Nat
  | .adding t => (s.adders t).held
  | .bucket i => (s.buckets i).tasks ++ s.run.chain i
  | .heap => s.heap ++ s.run.popped
  | .batch => s.run.batch
  | .handed => s.handed.map Prod.fst
  | .discarded => s.discarded

/-- A timer whose entry is still needed. -/
def State.Waits (s : State τ) (n : Nat) : Prop :=
  (∃ i, n ∈ s.holds (.bucket i)) ∨ n ∈ s.holds .heap

/-- A timer whose entry is deleted. -/
def State.Gone (s : State τ) (n : Nat) : Prop :=
  n ∈ s.holds .batch ∨ n ∈ s.holds .handed ∨ n ∈ s.holds .discarded

-- == invariant

/-- A cancel took the lock of timer `n`'s bucket, for its id, before the
timer thread did to unregister it. -/
def CanceledFirst (events : List LockEvent) (id : UInt64) (n : Nat) :
    Prop :=
  ∃ before after, events = before ++ .canceled id :: after
    ∧ .unregistered n ∉ before

theorem CanceledFirst.append {events : List LockEvent} {id : UInt64}
    {n : Nat} (h : CanceledFirst events id n) (more : List LockEvent) :
    CanceledFirst (events ++ more) id n := by
  obtain ⟨before, after, rfl, hnot⟩ := h
  exact ⟨before, after ++ more, by simp, hnot⟩

/-- What is true of timer `n`. -/
structure TimerOk (s : State τ) (n : Nat) : Prop where
  active : ∀ i id, (s.buckets i).activeTimers id = some n →
    (s.entries n).id = id ∧ bucketOf id = i
      ∧ (s.entries n).canceled = false
      ∧ .unregistered n ∉ s.events ∧ s.Waits n
  touched : (s.entries n).canceled = true ∨ .unregistered n ∈ s.events →
    s.Waits n ∨ s.Gone n
  freed : (s.entries n).freed = true → s.Gone n
  canceled : (s.entries n).canceled = true →
    CanceledFirst s.events (s.entries n).id n
  discarded : n ∈ s.discarded → (s.entries n).canceled = true
  due : n ∈ s.run.batch → s.expireAt n ≤ s.now
  adding : ∀ t i, s.adders t = .schedule n i →
    bucketOf (s.entries n).id = i

/-- What the timer thread knows of the timer in its hand. -/
def RunOk (s : State τ) : RunPc → Prop
  | .drainUnregister _ p _ | .drainDelete _ p _ =>
      (s.entries p).canceled = true
  | .checkGlobal top _ => s.expireAt top ≤ s.now ∧ s.heap.head? = some top
  | .unregisterTop top _ => s.expireAt top ≤ s.now
  | .checkCanceled top _ =>
      s.expireAt top ≤ s.now ∧ .unregistered top ∈ s.events
  | _ => True

theorem RunOk.mono {pc : RunPc} (h : RunOk s pc)
    (hcanceled : ∀ n, (s.entries n).canceled = true →
      (s'.entries n).canceled = true)
    (hexpire : ∀ n, s'.expireAt n = s.expireAt n)
    (hheap : s'.heap = s.heap) (hevents : ∀ e ∈ s.events, e ∈ s'.events)
    (hnow : s.now ≤ s'.now) : RunOk s' pc := by
  cases pc with
  | drainUnregister i p chain | drainDelete i p chain => exact hcanceled p h
  | checkGlobal top batch =>
      refine ⟨?_, by rw [hheap]; exact h.2⟩
      rw [hexpire]
      exact h.1.trans hnow
  | unregisterTop top batch =>
      show s'.expireAt top ≤ s'.now
      rw [hexpire]
      exact le_trans h hnow
  | checkCanceled top batch =>
      refine ⟨?_, hevents _ h.2⟩
      rw [hexpire]
      exact h.1.trans hnow
  | _ => trivial

structure Inv [DecidableEq τ] (s : State τ) : Prop where
  placed : Placed s.holds s.allocated
  timers : ∀ n, TimerOk s n
  run : RunOk s s.run
  handed : ∀ e ∈ s.handed, s.expireAt e.1 ≤ e.2 ∧ e.2 ≤ s.now

/-- A step that is not about timer `n`. -/
theorem TimerOk.other {n : Nat} (h : TimerOk s n)
    (hentry : s'.entries n = s.entries n)
    (hactive : ∀ i id, (s'.buckets i).activeTimers id = some n →
      (s.buckets i).activeTimers id = some n)
    (hadders : ∀ t i, s'.adders t = .schedule n i →
      s.adders t = .schedule n i)
    (hevents : ∃ more, s'.events = s.events ++ more
      ∧ .unregistered n ∉ more)
    (hwaits : s.Waits n → s'.Waits n) (hgone : s.Gone n → s'.Gone n)
    (hdiscarded : n ∈ s'.discarded → n ∈ s.discarded)
    (hbatch : n ∈ s'.run.batch → n ∈ s.run.batch)
    (hnow : s.now ≤ s'.now) : TimerOk s' n := by
  obtain ⟨more, hevents, hmore⟩ := hevents
  have hunreg : .unregistered n ∈ s'.events → .unregistered n ∈ s.events := by
    rw [hevents, List.mem_append]
    exact fun hc => hc.resolve_right hmore
  refine ⟨fun i id hi => ?_, fun ht => ?_, fun hf => ?_, fun hc => ?_,
    fun hd => ?_, fun hb => ?_, fun t i ht => ?_⟩
  · obtain ⟨hid, hbucket, hc, hu, hw⟩ := h.active i id (hactive i id hi)
    rw [hentry]
    exact ⟨hid, hbucket, hc, fun hin => hu (hunreg hin), hwaits hw⟩
  · rw [hentry] at ht
    exact (h.touched (ht.imp_right hunreg)).imp hwaits hgone
  · rw [hentry] at hf
    exact hgone (h.freed hf)
  · rw [hentry] at hc ⊢
    rw [hevents]
    exact (h.canceled hc).append more
  · rw [hentry]
    exact h.discarded (hdiscarded hd)
  · have hdue := h.due (hbatch hb)
    rw [State.expireAt, hentry]
    exact hdue.trans hnow
  · rw [hentry]
    exact h.adding t i (hadders t i ht)

variable [DecidableEq τ]

/-- One place, and no other. -/
theorem Inv.unique (h : Inv s) {n : Nat} {p q : Place τ}
    (hp : n ∈ s.holds p) (hq : n ∈ s.holds q) : p = q :=
  (h.placed.existsUnique (h.placed.lt_total hp)).unique hp hq

/-- A step that is about timer `x` only. -/
structure Changes (s s' : State τ) (x : Nat) : Prop where
  entries : ∀ n, n ≠ x → s'.entries n = s.entries n
  active : ∀ n, n ≠ x → ∀ i id, (s'.buckets i).activeTimers id = some n →
    (s.buckets i).activeTimers id = some n
  adders : ∀ n, n ≠ x → ∀ t i, s'.adders t = .schedule n i →
    s.adders t = .schedule n i
  events : ∃ more, s'.events = s.events ++ more
    ∧ ∀ n, n ≠ x → .unregistered n ∉ more
  now : s.now ≤ s'.now
  handed : ∀ e ∈ s'.handed, e.1 ≠ x → e ∈ s.handed

/-- What timer `x`'s step does to the places: it is handed over. -/
structure HandsOver (s s' : State τ) (x : Nat) (p q : Place τ) : Prop where
  ne : p ≠ q
  source : (s.holds p).Perm (x :: s'.holds p)
  target : (s'.holds q).Perm (x :: s.holds q)
  rest : ∀ r, r ≠ p → r ≠ q → (s'.holds r).Perm (s.holds r)

omit [DecidableEq τ] in
theorem HandsOver.mem_iff {x n : Nat} {p q : Place τ}
    (h : HandsOver s s' x p q) (hn : n ≠ x) (r : Place τ) :
    n ∈ s'.holds r ↔ n ∈ s.holds r := by
  rcases eq_or_ne r p with rfl | hp
  · rw [h.source.mem_iff, List.mem_cons, or_iff_right hn]
  · rcases eq_or_ne r q with rfl | hq
    · rw [h.target.mem_iff, List.mem_cons, or_iff_right hn]
    · exact (h.rest r hp hq).mem_iff

theorem Inv.change (h : Inv s) {x : Nat} (hc : Changes s s' x)
    (hplaced : Placed s'.holds s'.allocated)
    (hholds : ∀ n, n ≠ x → ∀ p, n ∈ s'.holds p ↔ n ∈ s.holds p)
    (hx : TimerOk s' x) (hrun : RunOk s' s'.run)
    (hhanded : ∀ e ∈ s'.handed, e.1 = x →
      s'.expireAt x ≤ e.2 ∧ e.2 ≤ s'.now) : Inv s' where
  placed := hplaced
  timers n := by
    rcases eq_or_ne n x with rfl | hn
    · exact hx
    · obtain ⟨more, hevents, hmore⟩ := hc.events
      exact (h.timers n).other (hc.entries n hn) (hc.active n hn)
        (hc.adders n hn) ⟨more, hevents, hmore n hn⟩
        (by simpa only [State.Waits, hholds n hn] using id)
        (by simpa only [State.Gone, hholds n hn] using id)
        (hholds n hn .discarded).mp (hholds n hn .batch).mp hc.now
  run := hrun
  handed e he := by
    rcases eq_or_ne e.1 x with heq | hne
    · rw [heq]
      exact hhanded e he heq
    · obtain ⟨h1, h2⟩ := h.handed e (hc.handed e he hne)
      rw [State.expireAt, hc.entries e.1 hne]
      exact ⟨h1, h2.trans hc.now⟩

/-- A step that leaves every timer where it is. -/
theorem Inv.still (h : Inv s) {x : Nat} (hc : Changes s s' x)
    (halloc : s'.allocated = s.allocated)
    (hholds : ∀ p, (s'.holds p).Perm (s.holds p))
    (hx : TimerOk s' x) (hrun : RunOk s' s'.run)
    (hhanded : ∀ e ∈ s'.handed, e.1 = x →
      s'.expireAt x ≤ e.2 ∧ e.2 ≤ s'.now) : Inv s' :=
  h.change hc (by rw [halloc]; exact h.placed.perm hholds)
    (fun _ _ p => (hholds p).mem_iff) hx hrun hhanded

/-- A step that hands timer `x` over. -/
theorem Inv.handOver (h : Inv s) {x : Nat} {p q : Place τ}
    (hc : Changes s s' x) (hh : HandsOver s s' x p q)
    (halloc : s'.allocated = s.allocated) (hx : TimerOk s' x)
    (hrun : RunOk s' s'.run)
    (hhanded : ∀ e ∈ s'.handed, e.1 = x →
      s'.expireAt x ≤ e.2 ∧ e.2 ≤ s'.now) : Inv s' :=
  h.change hc
    (by rw [halloc]; exact h.placed.move hh.ne hh.source hh.target hh.rest)
    (fun _ hn r => hh.mem_iff hn r) hx hrun hhanded

/-- A step that changes only where threads stand, and the clock. -/
theorem Inv.quiet (h : Inv s) (hentries : s'.entries = s.entries)
    (hactive : ∀ i, (s'.buckets i).activeTimers = (s.buckets i).activeTimers)
    (hevents : s'.events = s.events) (halloc : s'.allocated = s.allocated)
    (hholds : ∀ p, (s'.holds p).Perm (s.holds p))
    (hadders : ∀ n t i, s'.adders t = .schedule n i →
      s.adders t = .schedule n i)
    (hhanded : s'.handed = s.handed) (hnow : s.now ≤ s'.now)
    (hrun : RunOk s' s'.run) : Inv s' where
  placed := by
    rw [halloc]
    exact h.placed.perm hholds
  timers n := by
    refine (h.timers n).other (by rw [hentries])
      (fun i id hi => by rw [← hactive i]; exact hi) (hadders n)
      ⟨[], by rw [hevents, List.append_nil], nofun⟩
      (by simpa only [State.Waits, (hholds _).mem_iff] using id)
      (by simpa only [State.Gone, (hholds _).mem_iff] using id)
      (hholds .discarded).mem_iff.mp (hholds .batch).mem_iff.mp hnow
  run := hrun
  handed e he := by
    rw [hhanded] at he
    obtain ⟨h1, h2⟩ := h.handed e he
    rw [State.expireAt, hentries]
    exact ⟨h1, h2.trans hnow⟩

/-- A timer that is not added yet: nobody has touched it. -/
structure Fresh (s : State τ) (n : Nat) : Prop where
  waits : ¬s.Waits n
  gone : ¬s.Gone n
  active : ∀ i id, (s.buckets i).activeTimers id ≠ some n
  canceled : (s.entries n).canceled = false
  freed : (s.entries n).freed = false
  unregistered : .unregistered n ∉ s.events
  handed : ∀ e ∈ s.handed, e.1 ≠ n

theorem Inv.fresh (h : Inv s) {n : Nat} {t : τ}
    (hn : n ∈ s.holds (.adding t)) : Fresh s n := by
  have hwaits : ¬s.Waits n := by
    rintro (⟨i, hi⟩ | hheap)
    · cases h.unique hn hi
    · cases h.unique hn hheap
  have hgone : ¬s.Gone n := by
    rintro (hb | hh | hd)
    · cases h.unique hn hb
    · cases h.unique hn hh
    · cases h.unique hn hd
  have hok := h.timers n
  have htouched := fun ht => (hok.touched ht).elim hwaits hgone
  refine ⟨hwaits, hgone, fun i id hi => hwaits (hok.active i id hi).2.2.2.2,
    ?_, ?_, fun hu => htouched (Or.inr hu), fun e he heq => ?_⟩
  · exact Bool.eq_false_iff.mpr fun hc => htouched (Or.inl hc)
  · exact Bool.eq_false_iff.mpr fun hf => hgone (hok.freed hf)
  · exact hgone (Or.inr (Or.inl (List.mem_map.mpr ⟨e, he, heq⟩)))

-- == adding

theorem bucketOf_timerId (seq : UInt64) (i : Fin kNumBuckets) :
    bucketOf (timerId seq i) = i := by
  have hi : i.val < 16 := i.isLt
  refine Fin.ext ?_
  show (timerId seq i).toNat % 16 = i.val
  unfold timerId kBucketMask
  rw [UInt64.toNat_or, UInt64.toNat_and, UInt64.toNat_shiftLeft,
    UInt64.toNat_ofNat']
  have hlow : (seq.toNat <<< ((4 : UInt64).toNat % 64) % 2 ^ 64) % 2 ^ 4 = 0 := by
    show (seq.toNat <<< 4 % 2 ^ 64) % 2 ^ 4 = 0
    rw [Nat.shiftLeft_eq]
    omega
  have hmask : (i.val % 2 ^ 64 &&& (15 : UInt64).toNat) = i.val := by
    show i.val % 2 ^ 64 &&& (2 ^ 4 - 1) = i.val
    rw [Nat.and_two_pow_sub_one_eq_mod]
    omega
  rw [hmask, show (16 : Nat) = 2 ^ 4 from rfl, Nat.or_mod_two_pow, hlow,
    Nat.zero_or]
  omega

/-- The places after a thread moved. -/
theorem holds_adderTo (t : τ) (pc : AddPc) (r : Place τ) :
    (s.adderTo t pc).holds r
      = if r = .adding t then pc.held else s.holds r := by
  cases r with
  | adding u =>
      show (Function.update s.adders t pc u).held = _
      rcases eq_or_ne u t with rfl | hne
      · rw [Function.update_self, if_pos rfl]
      · rw [Function.update_of_ne hne, if_neg (by simpa using hne)]
        rfl
  | _ => rfl

/-- Another timer's thread stays where it is. -/
theorem adderTo_schedule {t u : τ} {pc : AddPc} {n : Nat}
    {i : Fin kNumBuckets} (hpc : ∀ i, pc ≠ .schedule n i)
    (h : (s.adderTo t pc).adders u = .schedule n i) :
    s.adders u = .schedule n i := by
  have h : Function.update s.adders t pc u = .schedule n i := h
  rcases eq_or_ne u t with rfl | hne
  · rw [Function.update_self] at h
    exact absurd h (hpc i)
  · rwa [Function.update_of_ne hne] at h

/-- A thread moves and holds what it held. -/
theorem Inv.adderTo (h : Inv s) {t : τ} {pc : AddPc}
    (hheld : pc.held = (s.adders t).held)
    (hpc : ∀ n i, pc ≠ .schedule n i) : Inv (s.adderTo t pc) := by
  refine h.quiet rfl (fun _ => rfl) rfl rfl (fun r => ?_)
    (fun n u i hu => adderTo_schedule (hpc n) hu) rfl le_rfl h.run
  rw [holds_adderTo, hheld]
  split
  · next hr => rw [hr]; exact List.Perm.refl _
  · exact List.Perm.refl _

theorem Inv.fetchSeq (h : Inv s) {t : τ} {seq : UInt64} {delay : Int}
    {owns : Bool} (hidle : (s.adders t).held = []) :
    Inv (State.adderTo
      { s with nextSeq := s.nextSeq + 1, allocated := s.allocated + 1 } t
      (.prepare s.allocated seq delay owns)) := by
  have hholds (r : Place τ) (hr : r ≠ .adding t) :
      (State.adderTo { s with
        nextSeq := s.nextSeq + 1, allocated := s.allocated + 1 } t
        (.prepare s.allocated seq delay owns)).holds r = s.holds r := by
    rw [holds_adderTo, if_neg hr]
    cases r <;> rfl
  refine ⟨?_, fun n => ?_, h.run, h.handed⟩
  · refine h.placed.arrive (q := .adding t) ?_ fun r hr => by rw [hholds r hr]
    rw [holds_adderTo, if_pos rfl]
    show [s.allocated].Perm (s.allocated :: (s.adders t).held)
    rw [hidle]
  · exact (h.timers n).other rfl (fun _ _ hi => hi)
      (fun u i hu => adderTo_schedule (by rintro _ ⟨⟩) hu)
      ⟨[], (List.append_nil _).symm, nofun⟩ id id id id le_rfl

theorem Inv.prepare (h : Inv s) {t : τ} {n : Nat} {e : TimerEntry}
    {i : Fin kNumBuckets} (hheld : (s.adders t).held = [n])
    (hcanceled : e.canceled = false) (hfreed : e.freed = false)
    (hbucket : bucketOf e.id = i) :
    Inv ((s.setEntry n e).adderTo t (.schedule n i)) := by
  have hn : n ∈ s.holds (.adding t) := by
    show n ∈ (s.adders t).held
    rw [hheld]
    exact List.mem_singleton.mpr rfl
  have hfresh := h.fresh hn
  have hentry : (State.adderTo (s.setEntry n e) t (.schedule n i)).entries n
      = e := Function.update_self _ _ _
  refine h.still (x := n) ?_ rfl (fun r => ?_) ?_ ?_ ?_
  · exact {
      entries := fun m hm => Function.update_of_ne hm _ _
      active := fun _ _ _ _ hi => hi
      adders := fun m hm u j hu =>
        adderTo_schedule (fun _ heq => hm (by cases heq; rfl)) hu
      events := ⟨[], (List.append_nil _).symm, fun _ _ => nofun⟩
      now := le_rfl
      handed := fun _ he _ => he }
  · rw [holds_adderTo]
    split
    · next hr =>
      rw [hr]
      show [n].Perm (s.adders t).held
      rw [hheld]
    · cases r <;> exact List.Perm.refl _
  · refine ⟨fun j id hj => absurd hj (hfresh.active j id), ?_, fun hf => ?_,
      fun hc => ?_, fun hd => absurd (Or.inr (Or.inr hd)) hfresh.gone,
      fun hb => absurd (Or.inl hb) hfresh.gone, fun u j hu => ?_⟩
    · rintro (hc | hu)
      · rw [hentry, hcanceled] at hc
        cases hc
      · exact absurd hu hfresh.unregistered
    · rw [hentry, hfreed] at hf
      cases hf
    · rw [hentry, hcanceled] at hc
      cases hc
    · rw [hentry, hbucket]
      have hu : Function.update s.adders t (.schedule n i) u
        = .schedule n j := hu
      rcases eq_or_ne u t with rfl | hne
      · rw [Function.update_self] at hu
        cases hu
        rfl
      · -- nobody else is adding it
        rw [Function.update_of_ne hne] at hu
        have hn' : n ∈ s.holds (.adding u) := by
          show n ∈ (s.adders u).held
          rw [hu]
          exact List.mem_singleton.mpr rfl
        cases h.unique hn hn'
        exact absurd rfl hne
  · have hrun := h.run
    -- the timer thread's hand holds another timer
    have hother {m : Nat} (hm : s.Waits m) : m ≠ n := by
      rintro rfl
      exact hfresh.waits hm
    show RunOk _ s.run
    generalize hpc : s.run = pc at hrun ⊢
    cases pc with
    | drainUnregister j p chain | drainDelete j p chain =>
        have hp : p ≠ n := hother (Or.inl ⟨j, by
          simp [State.holds, hpc, RunPc.chain]⟩)
        show ((Function.update s.entries n _) p).canceled = true
        rw [Function.update_of_ne hp]
        exact hrun
    | checkGlobal top batch =>
        have hp : top ≠ n := hother (Or.inr (List.mem_append_left _
          (List.mem_of_mem_head? hrun.2)))
        refine ⟨?_, hrun.2⟩
        show ((Function.update s.entries n _) top).expireAt ≤ _
        rw [Function.update_of_ne hp]
        exact hrun.1
    | unregisterTop top batch =>
        have hp : top ≠ n := hother (Or.inr (by
          simp [State.holds, hpc, RunPc.popped]))
        show ((Function.update s.entries n _) top).expireAt ≤ _
        rw [Function.update_of_ne hp]
        exact hrun
    | checkCanceled top batch =>
        have hp : top ≠ n := hother (Or.inr (by
          simp [State.holds, hpc, RunPc.popped]))
        refine ⟨?_, hrun.2⟩
        show ((Function.update s.entries n _) top).expireAt ≤ _
        rw [Function.update_of_ne hp]
        exact hrun.1
    | _ => trivial
  · intro e he heq
    exact absurd heq (hfresh.handed e he)

theorem schedule_tasks (b : Bucket) (n : Nat) (e : TimerEntry) :
    (b.schedule n e).1.tasks = n :: b.tasks := by
  unfold Bucket.schedule
  simp only
  split <;> rfl

theorem schedule_activeTimers (b : Bucket) (n : Nat) (e : TimerEntry) :
    (b.schedule n e).1.activeTimers
      = Function.update b.activeTimers e.id (some n) := by
  unfold Bucket.schedule
  simp only
  split <;> rfl

theorem Inv.publish (h : Inv s) {t : τ} {n : Nat} {i : Fin kNumBuckets}
    {pc : AddPc} (hpc : s.adders t = .schedule n i) (hheld : pc.held = [])
    (hnot : ∀ m j, pc ≠ .schedule m j) :
    Inv ((s.setBucket i
      ((s.buckets i).schedule n (s.entries n)).1).adderTo t pc) := by
  have hn : n ∈ s.holds (.adding t) := by
    show n ∈ (s.adders t).held
    rw [hpc]
    exact List.mem_singleton.mpr rfl
  have hfresh := h.fresh hn
  have hbucket := (h.timers n).adding t i hpc
  -- the map gains `n` and may lose others
  have hactive {m : Nat} {j : Fin kNumBuckets} {id : UInt64}
      (hj : ((Function.update s.buckets i
        ((s.buckets i).schedule n (s.entries n)).1) j).activeTimers id
          = some m) :
      (j = i ∧ id = (s.entries n).id ∧ m = n)
        ∨ (s.buckets j).activeTimers id = some m := by
    rcases eq_or_ne j i with rfl | hne
    · rw [Function.update_self, schedule_activeTimers] at hj
      rcases eq_or_ne id (s.entries n).id with heq | hid
      · rw [heq, Function.update_self] at hj
        cases hj
        exact Or.inl ⟨rfl, heq, rfl⟩
      · rw [Function.update_of_ne hid] at hj
        exact Or.inr hj
    · rw [Function.update_of_ne hne] at hj
      exact Or.inr hj
  have hin : n ∈ (State.adderTo (s.setBucket i
      ((s.buckets i).schedule n (s.entries n)).1) t pc).holds (.bucket i) := by
    rw [holds_adderTo, if_neg nofun]
    show n ∈ (Function.update s.buckets i _ i).tasks ++ _
    rw [Function.update_self, schedule_tasks]
    exact List.mem_cons_self
  refine h.handOver (x := n) (p := .adding t) (q := .bucket i) ?_ ?_ rfl ?_
    h.run ?_
  · exact {
      entries := fun _ _ => rfl
      active := fun m hm j id hj => by
        rcases hactive hj with ⟨-, -, heq⟩ | hj
        · exact absurd heq hm
        · exact hj
      adders := fun m _ u j hu => adderTo_schedule (hnot m) hu
      events := ⟨[], (List.append_nil _).symm, fun _ _ => nofun⟩
      now := le_rfl
      handed := fun _ he _ => he }
  · refine ⟨nofun, ?_, ?_, fun r hr hr' => ?_⟩
    · rw [holds_adderTo, if_pos rfl, hheld]
      show ((s.adders t).held).Perm _
      rw [hpc]
      exact List.Perm.refl _
    · rw [holds_adderTo, if_neg nofun]
      show ((Function.update s.buckets i _ i).tasks ++ _).Perm _
      rw [Function.update_self, schedule_tasks]
      exact List.Perm.refl _
    · rw [holds_adderTo, if_neg hr]
      cases r with
      | bucket j =>
          have hj : j ≠ i := fun heq => hr' (by rw [heq])
          show ((Function.update s.buckets i _ j).tasks ++ _).Perm _
          rw [Function.update_of_ne hj]
          exact List.Perm.refl _
      | _ => exact List.Perm.refl _
  · refine ⟨fun j id hj => ?_, fun _ => Or.inl (Or.inl ⟨i, hin⟩), fun hf => ?_,
      fun hc => ?_, fun hd => absurd (Or.inr (Or.inr hd)) hfresh.gone,
      fun hb => absurd (Or.inl hb) hfresh.gone, fun u j hu => ?_⟩
    · rcases hactive hj with ⟨hji, hid, -⟩ | hj
      · refine ⟨hid.symm, ?_, hfresh.canceled, hfresh.unregistered,
          Or.inl ⟨i, hin⟩⟩
        rw [hid, hji]
        exact hbucket
      · exact absurd hj (hfresh.active j id)
    · have hf : (s.entries n).freed = true := hf
      rw [hfresh.freed] at hf
      cases hf
    · have hc : (s.entries n).canceled = true := hc
      rw [hfresh.canceled] at hc
      cases hc
    · exact (h.timers n).adding u j (adderTo_schedule (hnot n) hu)
  · intro e he heq
    exact absurd heq (hfresh.handed e he)

theorem Inv.execAdd (h : Inv s) {t : τ} {i : Fin kNumBuckets}
    (hs : execAdd s t i (s.adders t) = some s') : Inv s' := by
  generalize hpc : s.adders t = pc at hs
  cases pc with
  | idle => cases hs
  | fetchSeq delay owns =>
      cases hs
      exact h.fetchSeq (by rw [hpc]; rfl)
  | prepare n seq delay owns =>
      cases hs
      exact h.prepare (by rw [hpc]; rfl) rfl rfl (bucketOf_timerId _ _)
  | schedule n j =>
      cases hs
      refine h.publish hpc ?_ fun m k => ?_
      · split <;> rfl
      · split <;> nofun
  | loadGlobal n id expireAt =>
      cases hs
      refine h.adderTo ?_ fun m k => ?_
      · rw [hpc]
        split <;> rfl
      · split <;> nofun
  | lockGlobal n id expireAt =>
      simp only [Timer.execAdd] at hs
      split at hs <;> cases hs
      · have h' : Inv { s with
            globalNearestRunTimeUs := some (toUs expireAt) } :=
          h.quiet rfl (fun _ => rfl) rfl rfl (fun r => by cases r <;> rfl)
            (fun _ _ _ hu => hu) rfl le_rfl h.run
        exact h'.adderTo (by show _ = (s.adders t).held; rw [hpc]; rfl) nofun
      · exact h.adderTo (by rw [hpc]; rfl) nofun
  | signal id | returned id =>
      cases hs
      exact h.adderTo (by rw [hpc]; rfl) nofun

-- == canceling

/-- A map that only lost entries. -/
theorem update_none {f : UInt64 → Option Nat} {id id' : UInt64} {n : Nat}
    (h : Function.update f id none id' = some n) :
    id' ≠ id ∧ f id' = some n := by
  rcases eq_or_ne id' id with rfl | hne
  · rw [Function.update_self] at h
    cases h
  · rw [Function.update_of_ne hne] at h
    exact ⟨hne, h⟩

omit [DecidableEq τ] in
/-- The same map in one of the buckets. -/
theorem setBucket_erase {i j : Fin kNumBuckets} {id id' : UInt64} {n : Nat}
    (h : ((Function.update s.buckets i
      { s.buckets i with
        activeTimers := Function.update (s.buckets i).activeTimers id none })
          j).activeTimers id' = some n) :
    (j = i → id' ≠ id) ∧ (s.buckets j).activeTimers id' = some n := by
  rcases eq_or_ne j i with rfl | hne
  · rw [Function.update_self] at h
    exact ⟨fun _ => (update_none h).1, (update_none h).2⟩
  · rw [Function.update_of_ne hne] at h
    exact ⟨fun heq => absurd heq hne, h⟩

omit [DecidableEq τ] in
/-- The places do not depend on the maps. -/
theorem setBucket_tasks {i j : Fin kNumBuckets} {b : Bucket}
    (h : b.tasks = (s.buckets i).tasks) :
    (Function.update s.buckets i b j).tasks = (s.buckets j).tasks := by
  rcases eq_or_ne j i with rfl | hne
  · rw [Function.update_self, h]
  · rw [Function.update_of_ne hne]

/-- Timer `n` leaves bucket `i`'s map, where its key is `id`, and is marked
canceled or stays as it is. -/
structure Erases (s s' : State τ) (n : Nat) (i : Fin kNumBuckets)
    (id : UInt64) (event : LockEvent) : Prop where
  entry : ∃ canceled, s'.entries n = { s.entries n with canceled }
    ∧ ((s.entries n).canceled = true → canceled = true)
  others : ∀ m, m ≠ n → s'.entries m = s.entries m
  buckets : s'.buckets = Function.update s.buckets i { s.buckets i with
    activeTimers := Function.update (s.buckets i).activeTimers id none }
  events : s'.events = s.events ++ [event]
  allocated : s'.allocated = s.allocated
  heap : s'.heap = s.heap
  now : s'.now = s.now
  adders : s'.adders = s.adders
  handed : s'.handed = s.handed
  discarded : s'.discarded = s.discarded
  chain : ∀ j, s'.run.chain j = s.run.chain j
  popped : s'.run.popped = s.run.popped
  batch : s'.run.batch = s.run.batch

section Erases

variable {n : Nat} {i : Fin kNumBuckets} {id : UInt64} {event : LockEvent}

omit [DecidableEq τ] in
theorem Erases.flags (h : Erases s s' n i id event) (m : Nat) :
    (s'.entries m).id = (s.entries m).id ∧ s'.expireAt m = s.expireAt m
      ∧ (s'.entries m).freed = (s.entries m).freed
      ∧ ((s.entries m).canceled = true → (s'.entries m).canceled = true) := by
  unfold State.expireAt
  rcases eq_or_ne m n with rfl | hne
  · obtain ⟨canceled, hentry, hc⟩ := h.entry
    rw [hentry]
    exact ⟨rfl, rfl, rfl, hc⟩
  · rw [h.others m hne]
    exact ⟨rfl, rfl, rfl, fun hc => hc⟩

omit [DecidableEq τ] in
theorem Erases.holds (h : Erases s s' n i id event) (r : Place τ) :
    s'.holds r = s.holds r := by
  cases r with
  | adding t => exact congrArg (fun f => (f t).held) h.adders
  | bucket j =>
      show (s'.buckets j).tasks ++ s'.run.chain j = _
      rw [h.buckets, setBucket_tasks (by rfl), h.chain]
      rfl
  | heap => exact congrArg₂ (· ++ ·) h.heap h.popped
  | batch => exact h.batch
  | handed => exact congrArg (List.map Prod.fst) h.handed
  | discarded => exact h.discarded

/-- The timer thread may have it in hand, and a cancel may follow: it waits,
and no other key leads to it. -/
theorem Inv.erases (h : Inv s) (he : Erases s s' n i id event)
    (hwaits : s.Waits n)
    (hkey : ∀ j id', (s.buckets j).activeTimers id' = some n →
      j = i ∧ id' = id)
    (hevent : ∀ m, m ≠ n → event ≠ .unregistered m)
    (hcanceled : (s'.entries n).canceled = true →
      CanceledFirst s'.events (s.entries n).id n)
    (hrun : RunOk s s.run → RunOk s' s'.run) : Inv s' := by
  have hok := h.timers n
  obtain ⟨hid, hexpire, hfreed, hmore⟩ := he.flags n
  have hactive {j : Fin kNumBuckets} {id' : UInt64} {m : Nat}
      (hj : (s'.buckets j).activeTimers id' = some m) :
      (j = i → id' ≠ id) ∧ (s.buckets j).activeTimers id' = some m := by
    rw [he.buckets] at hj
    exact setBucket_erase hj
  refine h.still (x := n) ?_ he.allocated (fun r => by rw [he.holds r]) ?_
    (hrun h.run) fun e hin heq => ?_
  · exact {
      entries := he.others
      active := fun m _ j id' hj => (hactive hj).2
      adders := fun _ _ _ _ hu => by rw [← he.adders]; exact hu
      events := ⟨_, he.events, fun m hm => by simpa using (hevent m hm).symm⟩
      now := he.now.ge
      handed := fun _ hin _ => he.handed ▸ hin }
  · refine ⟨fun j id' hj => ?_, fun _ => Or.inl ?_, fun hf => ?_, fun hc => ?_,
      fun hd => hmore (hok.discarded (he.discarded ▸ hd)), fun hb => ?_,
      fun t j ht => ?_⟩
    · obtain ⟨hne, hj⟩ := hactive hj
      exact absurd (hkey j id' hj).2 (hne (hkey j id' hj).1)
    · simpa only [State.Waits, he.holds] using hwaits
    · rw [hfreed] at hf
      simpa only [State.Gone, he.holds] using hok.freed hf
    · rw [hid]
      exact hcanceled hc
    · rw [hexpire, he.now]
      exact hok.due (he.batch ▸ hb)
    · rw [hid]
      rw [he.adders] at ht
      exact hok.adding t j ht
  · rw [he.handed] at hin
    rw [hexpire, he.now, ← heq]
    exact h.handed e hin

end Erases

/-- The cancel finds timer `n` in the map. -/
theorem Inv.cancelFound (h : Inv s) {id : UInt64} {n : Nat}
    (hfound : (s.buckets (bucketOf id)).activeTimers id = some n) :
    Inv ((State.setEntry { s with events := s.events ++ [.canceled id] } n
      { s.entries n with canceled := true }).setBucket (bucketOf id)
        { s.buckets (bucketOf id) with
          activeTimers := Function.update
            (s.buckets (bucketOf id)).activeTimers id none }) := by
  obtain ⟨hid, -, -, hunreg, hwaits⟩ := (h.timers n).active _ _ hfound
  generalize hs' : State.setBucket _ _ _ = s'
  have he : Erases s s' n (bucketOf id) id (.canceled id) := by
    subst hs'
    exact ⟨⟨true, Function.update_self .., fun _ => rfl⟩,
      fun m hm => Function.update_of_ne hm _ _, rfl, rfl, rfl, rfl, rfl, rfl,
      rfl, rfl, fun _ => rfl, rfl, rfl⟩
  refine h.erases he hwaits (fun j id' hj => ?_) nofun
    (fun _ => ⟨s.events, [], by rw [he.events, hid], hunreg⟩) fun hrun => ?_
  · -- its only key is the one just erased
    obtain ⟨hid', hj', -⟩ := (h.timers n).active j id' hj
    have heq : id' = id := hid'.symm.trans hid
    exact ⟨hj'.symm.trans (congrArg bucketOf heq), heq⟩
  · subst hs'
    exact hrun.mono (fun m => (he.flags m).2.2.2) (fun m => (he.flags m).2.1)
      rfl (fun _ hin => List.mem_append_left _ hin) le_rfl

theorem Inv.cancelTimer (h : Inv s) (id : UInt64) :
    Inv (cancelTimer s id) := by
  unfold Timer.cancelTimer
  split
  · exact h
  · cases hfound : (s.buckets (bucketOf id)).activeTimers id with
    | none =>
        simp only [hfound]
        refine ⟨h.placed.perm fun r => by cases r <;> exact List.Perm.refl _,
          fun n => ?_, ?_, h.handed⟩
        · exact (h.timers n).other rfl (fun _ _ hi => hi) (fun _ _ hu => hu)
            ⟨[.canceled id], rfl, by simp⟩ (fun hw => hw) (fun hg => hg)
            (fun hd => hd) (fun hb => hb) le_rfl
        · exact h.run.mono (fun _ hc => hc) (fun _ => rfl) rfl
            (fun _ he => List.mem_append_left _ he) le_rfl
    | some n =>
        simp only [hfound]
        exact h.cancelFound hfound

-- == Run

/-- The timer thread erases timer `n` from a map and goes on with it in
hand. -/
theorem Inv.unregister (h : Inv s) {i : Fin kNumBuckets} {n : Nat}
    {pc pc' : RunPc} (hpc : s.run = pc) (hwaits : s.Waits n)
    (hbucket : ∀ j id, (s.buckets j).activeTimers id = some n → j = i)
    (hchain : ∀ j, pc'.chain j = pc.chain j) (hpopped : pc'.popped = pc.popped)
    (hbatch : pc'.batch = pc.batch)
    (hrun : RunOk { s with events := s.events ++ [.unregistered n] } pc') :
    Inv { s.unregister i n with run := pc' } := by
  subst hpc
  have he : Erases s { s.unregister i n with run := pc' } n i
      (s.entries n).id (.unregistered n) :=
    ⟨⟨_, rfl, fun hc => hc⟩, fun _ _ => rfl, rfl, rfl, rfl, rfl, rfl, rfl, rfl,
      rfl, hchain, hpopped, hbatch⟩
  refine h.erases he hwaits
    (fun j id hj => ⟨hbucket j id hj, ((h.timers n).active j id hj).1.symm⟩)
    (fun m hm heq => hm (by cases heq; rfl))
    (fun hc => ((h.timers n).canceled hc).append _) fun _ => ?_
  exact hrun.mono (fun _ hc => hc) (fun _ => rfl) rfl (fun _ hin => hin) le_rfl

/-- Timer `n` leaves for the batch or is discarded, and its entry is
deleted. -/
theorem Inv.leave (h : Inv s) {n : Nat} {p q : Place τ}
    (hentry : s'.entries n = { s.entries n with freed := true })
    (hothers : ∀ m, m ≠ n → s'.entries m = s.entries m)
    (hbuckets : s'.buckets = s.buckets) (hevents : s'.events = s.events)
    (halloc : s'.allocated = s.allocated) (hnow : s'.now = s.now)
    (hadders : s'.adders = s.adders) (hhanded : s'.handed = s.handed)
    (hh : HandsOver s s' n p q) (hgone : s'.Gone n)
    (hinactive : ∀ i id, (s.buckets i).activeTimers id ≠ some n)
    (hdiscarded : n ∈ s'.discarded → (s.entries n).canceled = true)
    (hdue : n ∈ s'.run.batch → s.expireAt n ≤ s.now)
    (hrun : RunOk s' s'.run) : Inv s' := by
  have hok := h.timers n
  have hexpire : s'.expireAt n = s.expireAt n := by
    rw [State.expireAt, hentry]
    rfl
  refine h.handOver (x := n) ?_ hh halloc ?_ hrun fun e he heq => ?_
  · exact {
      entries := hothers
      active := fun m _ j id hj => by rw [← hbuckets]; exact hj
      adders := fun _ _ _ _ hu => by rw [← hadders]; exact hu
      events := ⟨[], by rw [hevents, List.append_nil], fun _ _ => nofun⟩
      now := hnow.ge
      handed := fun _ he _ => hhanded ▸ he }
  · refine ⟨fun j id hj => ?_, fun _ => Or.inr hgone, fun _ => hgone,
      fun hc => ?_, fun hd => ?_, fun hb => ?_, fun t j ht => ?_⟩
    · rw [hbuckets] at hj
      exact absurd hj (hinactive j id)
    · rw [hentry] at hc ⊢
      rw [hevents]
      exact hok.canceled hc
    · rw [hentry]
      exact hdiscarded hd
    · rw [hexpire, hnow]
      exact hdue hb
    · rw [hentry]
      rw [hadders] at ht
      exact hok.adding t j ht
  · rw [hhanded] at he
    rw [hexpire, hnow, ← heq]
    exact h.handed e he

/-- A canceled timer is in no map. -/
theorem Inv.inactive_of_canceled (h : Inv s) {n : Nat}
    (hc : (s.entries n).canceled = true) (i : Fin kNumBuckets) (id : UInt64) :
    (s.buckets i).activeTimers id ≠ some n := by
  intro hi
  have := ((h.timers n).active i id hi).2.2.1
  rw [hc] at this
  cases this

/-- Neither is one that was unregistered. -/
theorem Inv.inactive_of_unregistered (h : Inv s) {n : Nat}
    (hu : .unregistered n ∈ s.events) (i : Fin kNumBuckets) (id : UInt64) :
    (s.buckets i).activeTimers id ≠ some n := fun hi =>
  ((h.timers n).active i id hi).2.2.2.1 hu

/-- A step of `Run` that moves no timer. -/
theorem Inv.runTo (h : Inv s) {us : Option Int} {pc pc' : RunPc}
    (hpc : s.run = pc) (hrun : RunOk s pc')
    (hchain : ∀ i, pc'.chain i = pc.chain i := by exact fun _ => rfl)
    (hpopped : pc'.popped = pc.popped := by rfl)
    (hbatch : pc'.batch = pc.batch := by rfl) :
    Inv { s with globalNearestRunTimeUs := us, run := pc' } := by
  subst hpc
  refine h.quiet rfl (fun _ => rfl) rfl rfl (fun r => ?_) (fun _ _ _ hu => hu)
    rfl le_rfl ?_
  · simp only [State.holds]
    cases r <;> simp only [hchain, hpopped, hbatch] <;> exact List.Perm.refl _
  · exact hrun.mono (fun _ hc => hc) (fun _ => rfl) rfl (fun _ he => he) le_rfl

/-- The list of bucket `i` becomes the timer thread's chain. -/
theorem Inv.consume (h : Inv s) {i : Fin kNumBuckets}
    (hchain : ∀ j, s.run.chain j = []) (hpopped : s.run.popped = [])
    (hbatch : s.run.batch = []) :
    Inv { s.setBucket i (s.buckets i).consumeTasks.1 with
      run := .drain i (s.buckets i).consumeTasks.2 } := by
  have htasks : (s.buckets i).consumeTasks.1.tasks = [] := by
    unfold Bucket.consumeTasks
    split
    · assumption
    · rfl
  have htaken : (s.buckets i).consumeTasks.2 = (s.buckets i).tasks := by
    unfold Bucket.consumeTasks
    split
    · next heq => exact heq.symm
    · next heq => exact heq.symm
  have hmap : (s.buckets i).consumeTasks.1.activeTimers
      = (s.buckets i).activeTimers := by
    unfold Bucket.consumeTasks
    split <;> rfl
  refine h.quiet rfl (fun j => ?_) rfl rfl (fun r => ?_) (fun _ _ _ hu => hu)
    rfl le_rfl trivial
  · show (Function.update s.buckets i _ j).activeTimers = _
    rcases eq_or_ne j i with rfl | hne
    · rw [Function.update_self, hmap]
    · rw [Function.update_of_ne hne]
  · cases r with
    | bucket j =>
        show ((Function.update s.buckets i _ j).tasks
          ++ (if i = j then _ else [])).Perm ((s.buckets j).tasks ++ s.run.chain j)
        rw [hchain, List.append_nil]
        rcases eq_or_ne j i with rfl | hne
        · rw [Function.update_self, htasks, if_pos rfl, htaken]
          exact List.Perm.refl _
        · rw [Function.update_of_ne hne, if_neg (Ne.symm hne), List.append_nil]
    | heap =>
        show (s.heap ++ []).Perm (s.heap ++ s.run.popped)
        rw [hpopped]
    | batch =>
        show [].Perm s.run.batch
        rw [hbatch]
    | _ => exact List.Perm.refl _

/-- A timer of the chain goes to the heap. -/
theorem Inv.heapify (h : Inv s) {i : Fin kNumBuckets} {p : Nat}
    {chain heap : List Nat} (hpc : s.run = .drain i (p :: chain))
    (hpush : pushHeap s.expireAt s.heap p = some heap) :
    Inv { s with heap := heap, run := .drain i chain } := by
  have hh : HandsOver s { s with heap := heap, run := .drain i chain } p
      (.bucket i) .heap := by
    refine ⟨nofun, ?_, ?_, fun r hr hr' => ?_⟩
    · simp [State.holds, RunPc.chain, hpc]
    · simpa [State.holds, RunPc.popped, hpc] using pushHeap_perm hpush
    · cases r with
      | bucket j =>
          have hij : i ≠ j := fun heq => hr (by rw [heq])
          simp [State.holds, RunPc.chain, hpc, hij]
      | heap => exact absurd rfl hr'
      | batch => simp [State.holds, RunPc.batch, hpc]
      | _ => exact List.Perm.refl _
  have hwaits : State.Waits { s with heap := heap, run := .drain i chain } p :=
    Or.inr (hh.target.mem_iff.mpr List.mem_cons_self)
  refine h.handOver (x := p) ?_ hh rfl ?_ trivial fun e he heq => ?_
  · exact {
      entries := fun _ _ => rfl
      active := fun _ _ _ _ hj => hj
      adders := fun _ _ _ _ hu => hu
      events := ⟨[], (List.append_nil _).symm, fun _ _ => nofun⟩
      now := le_rfl
      handed := fun _ he _ => he }
  · exact (h.timers p).other rfl (fun _ _ hi => hi) (fun _ _ hu => hu)
      ⟨[], (List.append_nil _).symm, nofun⟩ (fun _ => hwaits)
      (fun hg => by
        rcases hg with hb | hr
        · exact absurd (show p ∈ s.run.batch from hb) (by rw [hpc]; nofun)
        · exact Or.inr hr)
      (fun hd => hd) nofun le_rfl
  · rw [← heq]
    exact h.handed e he

/-- A canceled timer of the chain is discarded. -/
theorem Inv.discardChain (h : Inv s) {i : Fin kNumBuckets} {p : Nat}
    {chain : List Nat} (hpc : s.run = .drainDelete i p chain) :
    Inv { s.discard p with run := .drain i chain } := by
  have hc := h.run
  rw [hpc] at hc
  have hc : (s.entries p).canceled = true := hc
  refine h.leave (p := .bucket i) (q := .discarded)
    (Function.update_self _ _ _) (fun m hm => Function.update_of_ne hm _ _)
    rfl rfl rfl rfl rfl rfl ?_ (Or.inr (Or.inr List.mem_concat_self))
    (h.inactive_of_canceled hc) (fun _ => hc) nofun trivial
  refine ⟨nofun, ?_, List.perm_append_singleton _ _, fun r hr hr' => ?_⟩
  · simp [State.holds, RunPc.chain, hpc, State.discard, State.setEntry]
  · cases r with
    | bucket j =>
        have hij : i ≠ j := fun heq => hr (by rw [heq])
        simp [State.holds, RunPc.chain, hpc, hij, State.discard,
          State.setEntry]
    | discarded => exact absurd rfl hr'
    | heap =>
        simp [State.holds, RunPc.popped, hpc, State.discard, State.setEntry]
    | batch => simp [State.holds, RunPc.batch, hpc]
    | _ => exact List.Perm.refl _

/-- The top is popped. -/
theorem Inv.popTop (h : Inv s) {top : Nat} {batch rest : List Nat}
    {popped : Nat} (hpc : s.run = .checkGlobal top batch)
    (hpop : popHeap s.expireAt s.heap = some (popped, rest)) :
    Inv { s with heap := rest, run := .unregisterTop top batch } := by
  have hrun := h.run
  rw [hpc] at hrun
  obtain ⟨hdue, htop⟩ := hrun
  obtain rfl : popped = top := by
    rw [popHeap_top hpop] at htop
    injection htop
  refine h.quiet rfl (fun _ => rfl) rfl rfl (fun r => ?_) (fun _ _ _ hu => hu)
    rfl le_rfl hdue
  cases r with
  | bucket j => simp [State.holds, RunPc.chain, hpc]
  | heap =>
      have hperm : (rest ++ [popped]).Perm s.heap :=
        (List.perm_append_singleton _ _).trans (popHeap_perm hpop).symm
      simpa [State.holds, RunPc.popped, hpc] using hperm
  | batch => simp [State.holds, RunPc.batch, hpc]
  | _ => exact List.Perm.refl _

/-- A canceled top is discarded. -/
theorem Inv.discardTop (h : Inv s) {top : Nat} {batch : List Nat}
    (hpc : s.run = .checkCanceled top batch)
    (hc : (s.entries top).canceled = true) :
    Inv { s.discard top with run := .checkTop batch } := by
  have hrun := h.run
  rw [hpc] at hrun
  refine h.leave (p := .heap) (q := .discarded)
    (Function.update_self _ _ _) (fun m hm => Function.update_of_ne hm _ _)
    rfl rfl rfl rfl rfl rfl ?_ (Or.inr (Or.inr List.mem_concat_self))
    (h.inactive_of_unregistered hrun.2) (fun _ => hc) (fun _ => hrun.1) trivial
  refine ⟨nofun, ?_, List.perm_append_singleton _ _, fun r hr hr' => ?_⟩
  · simp [State.holds, RunPc.popped, hpc, State.discard, State.setEntry]
  · cases r with
    | bucket j =>
        simp [State.holds, RunPc.chain, hpc, State.discard, State.setEntry]
    | heap => exact absurd rfl hr
    | discarded => exact absurd rfl hr'
    | batch => simp [State.holds, RunPc.batch, hpc]
    | _ => exact List.Perm.refl _

/-- A top that was not canceled joins the batch. -/
theorem Inv.expireTop (h : Inv s) {top : Nat} {batch : List Nat}
    (hpc : s.run = .checkCanceled top batch) :
    Inv { s.setEntry top { s.entries top with freed := true } with
      run := .checkTop (top :: batch) } := by
  have hrun := h.run
  rw [hpc] at hrun
  refine h.leave (p := .heap) (q := .batch)
    (Function.update_self _ _ _) (fun m hm => Function.update_of_ne hm _ _)
    rfl rfl rfl rfl rfl rfl ?_ (Or.inl List.mem_cons_self)
    (h.inactive_of_unregistered hrun.2) (h.timers top).discarded
    (fun _ => hrun.1) trivial
  refine ⟨nofun, ?_, ?_, fun r hr hr' => ?_⟩
  · simp [State.holds, RunPc.popped, hpc, State.setEntry]
  · simp [State.holds, RunPc.batch, hpc]
  · cases r with
    | bucket j => simp [State.holds, RunPc.chain, hpc, State.setEntry]
    | heap => exact absurd rfl hr
    | batch => exact absurd rfl hr'
    | _ => exact List.Perm.refl _

/-- A timer of the batch is handed to the executor. -/
theorem Inv.dispatch (h : Inv s) {n : Nat} {batch : List Nat}
    {pullAgain : Bool} (hpc : s.run = .dispatch (n :: batch) pullAgain) :
    Inv { s with
      handed := s.handed ++ [(n, s.now)]
      run := .dispatch batch pullAgain } := by
  have hok := h.timers n
  have hdue : s.expireAt n ≤ s.now := hok.due (by
    rw [hpc]
    exact List.mem_cons_self)
  have hh : HandsOver s { s with
      handed := s.handed ++ [(n, s.now)]
      run := .dispatch batch pullAgain } n .batch .handed := by
    refine ⟨nofun, ?_, ?_, fun r hr hr' => ?_⟩
    · simp [State.holds, RunPc.batch, hpc]
    · simp [State.holds]
    · cases r with
      | bucket j => simp [State.holds, RunPc.chain, hpc]
      | heap => simp [State.holds, RunPc.popped, hpc]
      | batch => exact absurd rfl hr
      | handed => exact absurd rfl hr'
      | _ => exact List.Perm.refl _
  refine h.handOver (x := n) ?_ hh rfl ?_ trivial fun e he heq => ?_
  · exact {
      entries := fun _ _ => rfl
      active := fun _ _ _ _ hj => hj
      adders := fun _ _ _ _ hu => hu
      events := ⟨[], (List.append_nil _).symm, fun _ _ => nofun⟩
      now := le_rfl
      handed := fun e he hne => by
        rcases List.mem_append.mp he with he | he
        · exact he
        · obtain rfl := List.mem_singleton.mp he
          exact absurd rfl hne }
  · refine hok.other rfl (fun _ _ hi => hi) (fun _ _ hu => hu)
      ⟨[], (List.append_nil _).symm, nofun⟩ (fun hw => ?_)
      (fun _ => Or.inr (Or.inl (hh.target.mem_iff.mpr List.mem_cons_self)))
      (fun hd => hd) (fun hb => ?_) le_rfl
    · rcases hw with ⟨i, hi⟩ | hheap
      · exact Or.inl ⟨i, (hh.rest (.bucket i) nofun nofun).mem_iff.mpr hi⟩
      · exact Or.inr ((hh.rest .heap nofun nofun).mem_iff.mpr hheap)
    · rw [hpc]
      exact List.mem_cons_of_mem _ hb
  · rcases List.mem_append.mp he with he | he
    · rw [← heq]
      exact h.handed e he
    · obtain rfl := List.mem_singleton.mp he
      exact ⟨hdue, le_rfl⟩

theorem Inv.execRun (h : Inv s) (hs : execRun s s.run = some s') :
    Inv s' := by
  have hrun := h.run
  generalize hpc : s.run = pc at hs hrun
  cases pc with
  | reset | waiting deadline =>
      cases hs
      exact h.runTo hpc trivial
  | consume i =>
      simp only [Timer.execRun] at hs
      split at hs <;> cases hs
      · exact h.consume (fun _ => by rw [hpc]; rfl) (by rw [hpc]; rfl)
          (by rw [hpc]; rfl)
      · exact h.runTo hpc trivial
  | drain i chain =>
      cases chain with
      | nil =>
          cases hs
          exact h.runTo hpc trivial fun j => by simp [RunPc.chain]
      | cons p chain =>
          simp only [Timer.execRun] at hs
          split at hs
          · next hc =>
            cases hs
            exact h.runTo hpc hc
          · obtain ⟨heap, hpush, rfl⟩ := Option.map_eq_some_iff.mp hs
            exact h.heapify hpc hpush
  | drainUnregister i p chain =>
      cases hs
      refine h.unregister hpc ?_ (fun j id hj => ?_) (fun _ => rfl) rfl rfl
        hrun
      · exact Or.inl ⟨i, by simp [State.holds, RunPc.chain, hpc]⟩
      · exact absurd hj (h.inactive_of_canceled hrun j id)
  | drainDelete i p chain =>
      cases hs
      exact h.discardChain hpc
  | checkTop batch =>
      simp only [Timer.execRun] at hs
      split at hs
      · cases hs
        exact h.runTo hpc trivial
      · next top rest hheap =>
        split at hs <;> cases hs
        · exact h.runTo hpc trivial
        · next hnow =>
          exact h.runTo hpc ⟨not_lt.mp hnow, by rw [hheap]; rfl⟩
  | checkGlobal top batch =>
      simp only [Timer.execRun] at hs
      split at hs
      · cases hs
        exact h.runTo hpc trivial
      · obtain ⟨⟨popped, rest⟩, hpop, rfl⟩ := Option.map_eq_some_iff.mp hs
        exact h.popTop hpc hpop
  | unregisterTop top batch =>
      cases hs
      refine h.unregister hpc ?_ (fun j id hj => ?_) (fun _ => rfl) rfl rfl
        ⟨hrun, List.mem_concat_self⟩
      · exact Or.inr (by simp [State.holds, RunPc.popped, hpc])
      · obtain ⟨hid, hbucket, -⟩ := (h.timers top).active j id hj
        rw [hid]
        exact hbucket.symm
  | checkCanceled top batch =>
      simp only [Timer.execRun] at hs
      split at hs <;> cases hs
      · next hc => exact h.discardTop hpc hc
      · exact h.expireTop hpc
  | dispatch batch pullAgain =>
      cases batch with
      | nil =>
          cases hs
          cases pullAgain <;> exact h.runTo hpc trivial
      | cons n batch =>
          cases hs
          exact h.dispatch hpc
  | prepareWait =>
      simp only [Timer.execRun] at hs
      repeat' split at hs
      all_goals
        cases hs
        exact h.runTo hpc trivial

theorem inv_apply {a : Action τ} (h : Inv s) (hs : apply a s = some s') :
    Inv s' := by
  cases a with
  | addTimer t hasTask delay owns =>
      simp only [apply] at hs
      split at hs <;> cases hs
      next hidle =>
      refine h.adderTo ?_ fun n i => ?_
      · rw [hidle]
        split <;> rfl
      · split <;> nofun
  | adder t bucket => exact h.execAdd hs
  | cancelTimer id =>
      cases hs
      exact h.cancelTimer id
  | run => exact h.execRun hs
  | tick d =>
      cases hs
      have hnow : s.now ≤ s.now + d := by omega
      exact h.quiet rfl (fun _ => rfl) rfl rfl
        (fun r => by cases r <;> exact List.Perm.refl _) (fun _ _ _ hu => hu)
        rfl hnow (h.run.mono (fun _ hc => hc) (fun _ => rfl) rfl
          (fun _ he => he) hnow)

theorem inv_start (h : Start s) : Inv s := by
  obtain ⟨now, rfl⟩ := h
  refine ⟨Placed.empty fun p => by cases p <;> rfl, fun n => ?_, trivial,
    nofun⟩
  refine ⟨nofun, ?_, nofun, nofun, nofun, nofun, nofun⟩
  rintro (hc | hu)
  · cases hc
  · cases hu

theorem inv_reachable (h : (machine τ).Reachable s) : Inv s :=
  h.invariant (I := Inv) (fun _ => inv_start)
    fun _ _ _ _ hinv _ hs => inv_apply hinv hs

/-- `Run` always goes on: its heap accesses are in range and its sifts
end. -/
theorem Inv.execRun_isSome (h : Inv s) :
    (Timer.execRun s s.run).isSome = true := by
  have hrun := h.run
  cases hpc : s.run with
  | drain i chain =>
      cases chain with
      | nil => rfl
      | cons p chain =>
          simp only [Timer.execRun]
          split
          · rfl
          · rw [Option.isSome_map]
            exact pushHeap_isSome
  | checkGlobal top batch =>
      rw [hpc] at hrun
      simp only [Timer.execRun]
      split
      · rfl
      · rw [Option.isSome_map]
        refine popHeap_isSome fun hnil => ?_
        have htop := hrun.2
        rw [hnil] at htop
        cases htop
  | consume i | checkCanceled top batch =>
      simp only [Timer.execRun]
      split <;> rfl
  | dispatch batch pullAgain => cases batch <;> rfl
  | checkTop batch | prepareWait =>
      simp only [Timer.execRun]
      split
      · rfl
      · split <;> first | rfl | (split <;> rfl)
  | reset | drainUnregister i p chain | drainDelete i p chain
  | unregisterTop top batch | waiting deadline => rfl

-- == the timers

/-- Each timer is at one place, is handed over at most once and not
before its time, and is discarded only if a cancel came first; the maps
lead to no deleted entry. -/
structure TimersKept (s : State τ) : Prop where
  place : ∀ n, n < s.allocated → ∃! p, n ∈ s.holds p
  once : ∀ p, (s.holds p).Nodup ∧ ∀ n ∈ s.holds p, n < s.allocated
  handed : ∀ e ∈ s.handed, s.expireAt e.1 ≤ e.2 ∧ e.2 ≤ s.now
  discarded : ∀ n ∈ s.discarded,
    CanceledFirst s.events (s.entries n).id n
  active : ∀ i id n, (s.buckets i).activeTimers id = some n →
    (s.entries n).id = id ∧ (s.entries n).freed = false
  goesOn : (execRun s s.run).isSome = true

/-- In every interleaving of threads that add and cancel timers with the
timer thread, all timers are kept so. -/
theorem timers_kept (h : (machine τ).Reachable s) : TimersKept s := by
  have hinv := inv_reachable h
  refine ⟨fun n hn => hinv.placed.existsUnique hn,
    fun p => ⟨hinv.placed.nodup p, fun n hn => hinv.placed.lt_total hn⟩,
    hinv.handed, fun n hn => ?_, fun i id n hi => ?_, hinv.execRun_isSome⟩
  · have hok := hinv.timers n
    exact hok.canceled (hok.discarded hn)
  · obtain ⟨hid, -, -, -, hwaits⟩ := (hinv.timers n).active i id hi
    refine ⟨hid, Bool.eq_false_iff.mpr fun hf => ?_⟩
    -- a deleted entry's timer is no longer waiting
    have hgone := (hinv.timers n).freed hf
    rcases hwaits with ⟨j, hj⟩ | hheap
    · rcases hgone with hg | hg | hg <;> cases hinv.unique hj hg
    · rcases hgone with hg | hg | hg <;> cases hinv.unique hheap hg

theorem kNumBuckets_pos : 0 < kNumBuckets := by decide

theorem one_lt_kNumBuckets : 1 < kNumBuckets := by decide

/-- A task is added through bucket `i`, with `k` steps of the thread. -/
def addSteps (i : Fin kNumBuckets) (k : Nat) : List (Action Unit) :=
  Action.addTimer () true 0 true :: List.replicate k (Action.adder () i)

/-- One timer is added, one more is added and canceled, and the timer
thread goes through both. -/
def twoTimersRun : List (Action Unit) :=
  List.flatten
    [addSteps ⟨0, kNumBuckets_pos⟩ 7, addSteps ⟨1, one_lt_kNumBuckets⟩ 5,
      [Action.cancelTimer 33], List.replicate 44 Action.run]

def twoTimersState : State Unit := (machine Unit).final twoTimersRun {}

theorem twoTimersState_kept :
    twoTimersState.handed = [(0, 0)] ∧ twoTimersState.discarded = [1]
      ∧ TimersKept twoTimersState := by
  refine ⟨by decide +kernel, by decide +kernel, ?_⟩
  exact timers_kept (Machine.reachable_final ⟨0, rfl⟩ (by decide +kernel))

end AntRpc.Timer
