/-
Where a callback is. From the call of `NotifyOnCancel` until somebody runs
it, a callback is at one place: with its caller, in the controller, with a
`StartCancel`, with the winner of the call's cell, in the queue, or ran
(`places`). Every step of every thread keeps that or hands one callback
from one place to the next (`Kept`).

# The completion

The winner takes the callback and sets `rpc_completed_` in one mutex
section, so once the completion has an item to schedule, the controller
has no callback and never gets another (`Kept.completed`).
-/
import AntRpc.Lib.Custody
import AntRpc.Notify.Machine
import AntRpc.Slot.Proofs.Passing

namespace AntRpc.Notify

open Lib Slot

variable {cfg : TableConfig} {j : Nat} {x x' : State}

-- == places

/-- Where a callback can be. -/
inductive Place where
  | caller (n : Nat)
  | controller
  | canceler (n : Nat)
  | winner (t : Tid)
  | queue (i : Nat)
  | ran
deriving DecidableEq, Inhabited

/-- The callback of controller `j` in an item. -/
def carried (j : Nat) (s : Slot.State Tid) : Option Scheduled → Option Nat
  | some e => if s.mine j e then e.item.notify else none
  | none => none

def places (j : Nat) (x : State) : Place → List Nat
  | .caller n =>
      match x.registrars n with
      | .register | .runNow => [n]
      | .idle | .returned => []
  | .controller => (x.slots.heap.controllers j).notifyOnCancel.toList
  | .canceler n => (x.cancelers n).notify.toList
  | .winner t => (carried j x.slots (x.slots.threads t).holds).toList
  | .queue i =>
      if x.tasks i = .queued then
        (carried j x.slots x.slots.scheduled[i]?).toList
      else []
  | .ran => x.runs.map Run.callback

/-- Cancellation or completion has won. -/
def decided (j : Nat) (x : State) : Bool :=
  (x.slots.heap.controllers j).cancelRequested
    || (x.slots.heap.controllers j).rpcCompleted

/-- Callback `n` was not stored but run by its caller, or will be. -/
def atOnce (x : State) (n : Nat) : Prop :=
  x.registrars n = .runNow
    ∨ ∃ r ∈ x.runs, r.callback = n ∧ r.runner = .registrar

/-- Each callback is at one place, and what follows from the call's
completion. -/
structure Kept (j : Nat) (x : State) : Prop where
  placed : Placed (places j x) x.registrations
  unborn : ∀ n, x.registrations ≤ n → x.registrars n = .idle
  asleep : ∀ n, x.cancels ≤ n → x.cancelers n = .idle
  unstored : x.notifyRegistered = false →
    (x.slots.heap.controllers j).notifyOnCancel = none ∧ x.first = none
  completed : (x.slots.heap.controllers j).rpcCompleted = true →
    (x.slots.heap.controllers j).notifyOnCancel = none
  held : ∀ t e, (x.slots.threads t).holds = some e →
    x.slots.mine j e = true →
    (x.slots.heap.controllers j).rpcCompleted = true
  scheduled : ∀ e ∈ x.slots.scheduled, x.slots.mine j e = true →
    (x.slots.heap.controllers j).rpcCompleted = true
  tasks : ∀ i, x.slots.scheduled.length ≤ i → x.tasks i = .queued
  one : OneCall j x.slots
  uncalled : x.called = false → Uncalled j x.slots
  passed : ∀ n, x.first = some n →
    x.registrars n = .runNow ∨ x.registrars n = .returned
  won : ∀ n, x.first = some n → atOnce x n → decided j x = true

theorem kept_start (h : Start cfg j x) : Kept j x := by
  obtain ⟨heap, hnotify, hcompleted, rfl⟩ := h
  have huncalled : Uncalled j
      ({ table := .init cfg, heap := heap } : Slot.State Tid) :=
    ⟨fun _ => rfl, fun i g hc => by
      have hle := hc.le
      have hpos := hc.pos
      change g ≤ 0 at hle
      omega⟩
  refine ⟨Placed.empty ?_, fun _ _ => rfl, fun _ _ => rfl,
    fun _ => ⟨hnotify, rfl⟩,
    fun _ => hnotify, nofun, nofun, fun _ _ => rfl, huncalled.oneCall,
    fun _ => huncalled, nofun, nofun⟩
  intro p
  cases p with
  | controller => simp [places, hnotify]
  | queue i => simp [places, carried]
  | _ => rfl

-- == beside the table

/-- What the threads outside the table leave of it. -/
structure Beside (j : Nat) (s s' : Slot.State Tid) : Prop where
  lives : s'.lives = s.lives
  scheduled : s'.scheduled = s.scheduled
  holds : ∀ t, (s'.threads t).holds = (s.threads t).holds
  calling : ∀ t, (s'.threads t).calling j = (s.threads t).calling j

section Beside

variable {s s' : Slot.State Tid}

theorem Beside.refl : Beside j s s := ⟨rfl, rfl, fun _ => rfl, fun _ => rfl⟩

theorem Beside.heap (heap : Heap) : Beside j s { s with heap := heap } :=
  ⟨rfl, rfl, fun _ => rfl, fun _ => rfl⟩

/-- A thread that carries nothing and does not allocate. -/
theorem Beside.setThread {t : Tid} {th : Thread} {published : UInt64 → Nat}
    (hold : (s.threads t).holds = none)
    (hidle : (s.threads t).calling j = false) (hnew : th.holds = none)
    (hcall : th.calling j = false) :
    Beside j s ({ s with published := published }.setThread t th) := by
  have hall : ∀ {β : Type} (f : Thread → β), f th = f (s.threads t) →
      ∀ u, f (({ s with published := published }.setThread t th).threads u)
        = f (s.threads u) := by
    intro β f hf u
    show f (Function.update s.threads t th u) = _
    by_cases hu : u = t
    · rw [hu, Function.update_self, hf]
    · rw [Function.update_of_ne hu]
  exact ⟨rfl, rfl, hall _ (hnew.trans hold.symm),
    hall _ (hcall.trans hidle.symm)⟩

theorem Beside.mine (h : Beside j s s') (e : Scheduled) :
    s'.mine j e = s.mine j e := by
  simp only [Slot.State.mine, h.lives]

theorem Beside.carried (h : Beside j s s') (o : Option Scheduled) :
    Notify.carried j s' o = Notify.carried j s o := by
  cases o with
  | none => rfl
  | some e => simp only [Notify.carried, h.mine]

theorem Beside.calls (h : Beside j s s') {i : UInt32} {g : Nat} :
    Calls j s' i g ↔ Calls j s i g := by
  constructor <;> rintro ⟨hpos, hle, hctl⟩
  · rw [h.lives] at hle hctl
    exact ⟨hpos, hle, hctl⟩
  · exact ⟨hpos, by rwa [h.lives], by rwa [h.lives]⟩

theorem Beside.oneCall (h : Beside j s s') (hone : OneCall j s) :
    OneCall j s' where
  one i g i' g' hc hc' :=
    hone.one i g i' g' (h.calls.mp hc) (h.calls.mp hc')
  fresh t ht i g hc := by
    rw [h.calling] at ht
    exact hone.fresh t ht i g (h.calls.mp hc)
  alone t t' ht ht' := by
    rw [h.calling] at ht ht'
    exact hone.alone t t' ht ht'

theorem Beside.uncalled (h : Beside j s s') (hnot : Uncalled j s) :
    Uncalled j s' where
  threads t := by
    rw [h.calling]
    exact hnot.threads t
  cells i g hc := hnot.cells i g (h.calls.mp hc)

end Beside

/-- A step of a thread outside the table. -/
theorem Kept.beside (h : Kept j x) (hb : Beside j x.slots x'.slots)
    (hplaced : Placed (places j x') x'.registrations)
    (hunborn : ∀ n, x'.registrations ≤ n → x'.registrars n = .idle)
    (hasleep : ∀ n, x'.cancels ≤ n → x'.cancelers n = .idle)
    (hunstored : x'.notifyRegistered = false →
      (x'.slots.heap.controllers j).notifyOnCancel = none ∧ x'.first = none)
    (hnotify : (x.slots.heap.controllers j).rpcCompleted = true →
      (x'.slots.heap.controllers j).notifyOnCancel = none)
    (hcompleted : (x'.slots.heap.controllers j).rpcCompleted
      = (x.slots.heap.controllers j).rpcCompleted)
    (htasks : ∀ i, x.slots.scheduled.length ≤ i → x'.tasks i = .queued)
    (hcalled : x'.called = x.called)
    (hpassed : ∀ n, x'.first = some n →
      x'.registrars n = .runNow ∨ x'.registrars n = .returned)
    (hwon : ∀ n, x'.first = some n → atOnce x' n → decided j x' = true) :
    Kept j x' where
  placed := hplaced
  unborn := hunborn
  asleep := hasleep
  unstored := hunstored
  completed hc := hnotify (hcompleted ▸ hc)
  held t e hholds hmine := by
    rw [hb.holds] at hholds
    rw [hb.mine] at hmine
    rw [hcompleted]
    exact h.held t e hholds hmine
  scheduled e he hmine := by
    rw [hb.scheduled] at he
    rw [hb.mine] at hmine
    rw [hcompleted]
    exact h.scheduled e he hmine
  tasks i hle := htasks i (by rwa [hb.scheduled] at hle)
  one := hb.oneCall h.one
  uncalled hc := hb.uncalled (h.uncalled (hcalled ▸ hc))
  passed := hpassed
  won := hwon

-- == NotifyOnCancel

theorem registrarTo_self (x : State) (n : Nat) (pc : RegisterPc) :
    (x.registrarTo n pc).registrars n = pc := Function.update_self ..

theorem registrarTo_ne (x : State) {n m : Nat} (pc : RegisterPc)
    (h : m ≠ n) : (x.registrarTo n pc).registrars m = x.registrars m :=
  Function.update_of_ne h ..

theorem onController_controller (x : State) (f : Controller → Controller) :
    (x.onController j f).slots.heap.controllers j
      = f (x.slots.heap.controllers j) := Function.update_self ..

/-- A new call of `NotifyOnCancel`. -/
theorem Kept.arrive (h : Kept j x) :
    Kept j (({ x with registrations := x.registrations + 1 }
      : State).registrarTo x.registrations .register) := by
  have hidle := h.unborn x.registrations (Nat.le_refl _)
  have hfirst : ∀ n, x.first = some n → n ≠ x.registrations := by
    rintro n hn rfl
    rcases h.passed _ hn with hpc | hpc <;> rw [hidle] at hpc <;> cases hpc
  refine h.beside .refl ?_ ?_ h.asleep h.unstored h.completed rfl h.tasks rfl
    ?_ ?_
  · refine h.placed.arrive (q := .caller x.registrations) ?_ ?_
    · simp [places, State.registrarTo, hidle]
    · intro r hr
      cases r with
      | caller n =>
          have hn : n ≠ x.registrations := fun heq => hr (heq ▸ rfl)
          simp [places, State.registrarTo, Function.update_of_ne hn]
      | _ => exact .refl _
  · intro n hn
    change x.registrations + 1 ≤ n at hn
    rw [registrarTo_ne _ _ (by omega)]
    exact h.unborn n (by omega)
  · intro n hn
    rw [registrarTo_ne _ _ (hfirst n hn)]
    exact h.passed n hn
  · intro n hn honce
    refine h.won n hn (honce.imp_left fun hrun => ?_)
    rwa [registrarTo_ne _ _ (hfirst n hn)] at hrun

/-- A callback its caller still has was not run. -/
theorem Kept.not_ran (h : Kept j x) {n : Nat}
    (hpc : x.registrars n = .register ∨ x.registrars n = .runNow) :
    n < x.registrations ∧ ∀ r ∈ x.runs, r.callback ≠ n := by
  have hmem : n ∈ places j x (.caller n) := by
    rcases hpc with hpc | hpc <;> simp [places, hpc]
  have hlt := h.placed.lt_total hmem
  refine ⟨hlt, fun r hr hcallback => ?_⟩
  have hran : n ∈ places j x .ran :=
    List.mem_map.mpr ⟨r, hr, hcallback⟩
  cases (h.placed.existsUnique hlt).unique hmem hran

/-- A registration that is not the first, or comes too late: the callback
stays with its caller. -/
theorem Kept.runNow (h : Kept j x) {n : Nat} {first : Option Nat}
    {late : Bool} (hpc : x.registrars n = .register)
    (hfirst : first = x.first ∨ first = some n ∧ decided j x = true) :
    Kept j (({ x with notifyRegistered := true
                      first := first
                      registeredLate := late }
      : State).registrarTo n .runNow) := by
  obtain ⟨hlt, -⟩ := h.not_ran (Or.inl hpc)
  have hold : ∀ m, x.first = some m → m ≠ n := by
    rintro m hm rfl
    rcases h.passed m hm with hp | hp <;> rw [hpc] at hp <;> cases hp
  refine h.beside .refl ?_ ?_ h.asleep nofun h.completed rfl h.tasks rfl ?_
    ?_
  · refine h.placed.perm fun p => ?_
    cases p with
    | caller m =>
        by_cases hm : m = n
        · subst hm
          simp [places, registrarTo_self, hpc]
        · simp only [places, registrarTo_ne _ _ hm]
          exact .refl _
    | _ => exact .refl _
  · intro m hm
    change x.registrations ≤ m at hm
    rw [registrarTo_ne _ _ (by omega)]
    exact h.unborn m hm
  · intro m hm
    by_cases hmn : m = n
    · subst hmn
      exact Or.inl (registrarTo_self ..)
    · rw [registrarTo_ne _ _ hmn]
      rcases hfirst with rfl | ⟨rfl, -⟩
      · exact h.passed m hm
      · exact absurd (Option.some.inj hm).symm hmn
  · intro m hm honce
    rcases hfirst with rfl | ⟨rfl, hdecided⟩
    · refine h.won m hm (honce.imp_left fun hrun => ?_)
      rwa [registrarTo_ne _ _ (hold m hm)] at hrun
    · exact hdecided

/-- The first registration, in time. -/
theorem Kept.store (h : Kept j x) {n : Nat} {late : Bool}
    (hpc : x.registrars n = .register) (hnew : x.notifyRegistered = false)
    (hdecided : decided j x = false) :
    Kept j ((({ x with notifyRegistered := true
                       first := some n
                       registeredLate := late }
      : State).onController j
        ({ · with notifyOnCancel := some n })).registrarTo n .returned) := by
  obtain ⟨hlt, hran⟩ := h.not_ran (Or.inl hpc)
  obtain ⟨hnone, -⟩ := h.unstored hnew
  obtain ⟨-, hopen⟩ := Bool.or_eq_false_iff.mp hdecided
  refine h.beside (.heap _) ?_ ?_ h.asleep nofun ?_ ?_ h.tasks rfl ?_ ?_
  · refine h.placed.handOver (o := some n) (p := .caller n)
      (q := .controller) nofun ?_ ?_ ?_
    · simp [places, registrarTo_self, hpc]
    · simp [places, State.registrarTo, onController_controller, hnone]
    · intro p hp hq
      cases p with
      | caller m =>
          have hm : m ≠ n := fun heq => hp (heq ▸ rfl)
          simp only [places, registrarTo_ne _ _ hm]
          exact .refl _
      | controller => exact absurd rfl hq
      | _ => exact .refl _
  · intro m hm
    change x.registrations ≤ m at hm
    rw [registrarTo_ne _ _ (by omega)]
    exact h.unborn m hm
  · intro hc
    rw [hopen] at hc
    cases hc
  · simp [State.registrarTo, onController_controller]
  · intro m hm
    cases hm
    exact Or.inr (registrarTo_self ..)
  · intro m hm honce
    cases hm
    rcases honce with hrun | ⟨r, hr, hcallback, -⟩
    · rw [registrarTo_self] at hrun
      cases hrun
    · exact absurd hcallback (hran r hr)

/-- The caller runs it. -/
theorem Kept.callerRuns (h : Kept j x) {n : Nat}
    (hpc : x.registrars n = .runNow) :
    Kept j ((x.run j .registrar n).registrarTo n .returned) := by
  obtain ⟨hlt, -⟩ := h.not_ran (Or.inr hpc)
  refine h.beside .refl ?_ ?_ h.asleep h.unstored h.completed rfl h.tasks rfl
    ?_ ?_
  · refine h.placed.handOver (o := some n) (p := .caller n) (q := .ran)
      nofun ?_ ?_ ?_
    · simp [places, registrarTo_self, hpc]
    · show (((x.runs ++ [_]).map Run.callback)).Perm _
      rw [List.map_append]
      exact List.perm_append_comm
    · intro p hp hq
      cases p with
      | caller m =>
          have hm : m ≠ n := fun heq => hp (heq ▸ rfl)
          simp only [places, registrarTo_ne _ _ hm]
          exact .refl _
      | ran => exact absurd rfl hq
      | _ => exact .refl _
  · intro m hm
    change x.registrations ≤ m at hm
    rw [registrarTo_ne _ _ (by omega)]
    exact h.unborn m hm
  · intro m hm
    by_cases hmn : m = n
    · subst hmn
      exact Or.inr (registrarTo_self ..)
    · rw [registrarTo_ne _ _ hmn]
      exact h.passed m hm
  · intro m hm honce
    refine h.won m hm ?_
    by_cases hmn : m = n
    · subst hmn
      exact Or.inl hpc
    · rcases honce with hrun | ⟨r, hr, hcallback, hrunner⟩
      · rw [registrarTo_ne _ _ hmn] at hrun
        exact Or.inl hrun
      · rcases List.mem_append.mp hr with hr | hr
        · exact Or.inr ⟨r, hr, hcallback, hrunner⟩
        · rw [List.mem_singleton.mp hr] at hcallback
          exact absurd hcallback.symm hmn

/-- Every step of `NotifyOnCancel`. -/
theorem Kept.registrar (h : Kept j x) {n : Nat}
    (hs : execRegistrar j n (x.registrars n) x = some x') : Kept j x' := by
  cases hpc : x.registrars n with
  | idle | returned =>
      rw [hpc] at hs
      cases hs
  | register =>
      rw [hpc] at hs
      simp only [execRegistrar] at hs
      split_ifs at hs with hreg hdecided
      · cases hs
        have hsame : x = { x with notifyRegistered := true } := by
          rw [← hreg]
        rw [hsame]
        exact h.runNow hpc (Or.inl rfl)
      · cases hs
        exact h.runNow hpc (Or.inr ⟨rfl, hdecided⟩)
      · cases hs
        exact h.store hpc (Bool.eq_false_iff.mpr hreg)
          (Bool.eq_false_iff.mpr hdecided)
  | runNow =>
      rw [hpc] at hs
      cases hs
      exact h.callerRuns hpc

-- == StartCancel

/-- What `StartCancel` and the workers leave alone. -/
structure SameCallers (x x' : State) : Prop where
  registrars : x'.registrars = x.registrars
  registrations : x'.registrations = x.registrations
  notifyRegistered : x'.notifyRegistered = x.notifyRegistered
  first : x'.first = x.first
  called : x'.called = x.called
  runs : ∀ r ∈ x'.runs, r ∈ x.runs ∨ r.runner ≠ .registrar

/-- A step of one of those. -/
theorem Kept.other (h : Kept j x) (hb : Beside j x.slots x'.slots)
    (hsame : SameCallers x x')
    (hasleep : ∀ n, x'.cancels ≤ n → x'.cancelers n = .idle)
    (hplaced : Placed (places j x') x.registrations)
    (hnotify : (x.slots.heap.controllers j).notifyOnCancel = none →
      (x'.slots.heap.controllers j).notifyOnCancel = none)
    (hcompleted : (x'.slots.heap.controllers j).rpcCompleted
      = (x.slots.heap.controllers j).rpcCompleted)
    (hcancel : (x.slots.heap.controllers j).cancelRequested = true →
      (x'.slots.heap.controllers j).cancelRequested = true)
    (htasks : ∀ i, x.slots.scheduled.length ≤ i → x'.tasks i = .queued) :
    Kept j x' := by
  refine h.beside hb (hsame.registrations.symm ▸ hplaced) ?_ hasleep ?_
    (fun hc => hnotify (h.completed hc)) hcompleted htasks hsame.called ?_ ?_
  · rw [hsame.registrations, hsame.registrars]
    exact h.unborn
  · intro hreg
    rw [hsame.notifyRegistered] at hreg
    obtain ⟨hnone, hfirst⟩ := h.unstored hreg
    exact ⟨hnotify hnone, hsame.first.trans hfirst⟩
  · rw [hsame.first, hsame.registrars]
    exact h.passed
  · intro n hn honce
    rw [hsame.first] at hn
    have hold : atOnce x n := by
      rcases honce with hrun | ⟨r, hr, hcallback, hrunner⟩
      · exact Or.inl (hsame.registrars ▸ hrun)
      · rcases hsame.runs r hr with hr | hr
        · exact Or.inr ⟨r, hr, hcallback, hrunner⟩
        · exact absurd hrunner hr
    rcases Bool.or_eq_true_iff.mp (h.won n hn hold) with hc | hc
    · exact Bool.or_eq_true_iff.mpr (Or.inl (hcancel hc))
    · exact Bool.or_eq_true_iff.mpr (Or.inr (hcompleted.trans hc))

theorem cancelerTo_self (x : State) (n : Nat) (pc : CancelPc) :
    (x.cancelerTo n pc).cancelers n = pc := Function.update_self ..

/-- A `StartCancel` that goes on with the callback it has, or none. -/
theorem places_cancelerTo {n : Nat} (pc : CancelPc)
    (hb : Beside j x.slots x'.slots)
    (hcallers : x'.registrars = x.registrars)
    (hcancelers : x'.cancelers = Function.update x.cancelers n pc)
    (htasks : x'.tasks = x.tasks) {p : Place} (hp : p ≠ .controller)
    (hran : p ≠ .ran) (hn : p = .canceler n → pc.notify
      = (x.cancelers n).notify) : places j x' p = places j x p := by
  cases p with
  | caller m => simp only [places, hcallers]
  | controller => exact absurd rfl hp
  | canceler m =>
      simp only [places, hcancelers, Function.update_apply]
      split
      · next heq =>
        subst heq
        rw [hn rfl]
      · rfl
  | winner t => simp only [places, hb.holds, hb.carried]
  | queue i => simp only [places, htasks, hb.scheduled, hb.carried]
  | ran => exact absurd rfl hran

/-- A new `StartCancel`, or one that neither takes nor runs a callback. -/
theorem Kept.cancelerGoes (h : Kept j x) {n : Nat} {pc : CancelPc}
    (hb : Beside j x.slots x'.slots) (hsame : SameCallers x x')
    (hcancelers : x'.cancelers = Function.update x.cancelers n pc)
    (hn : n < x'.cancels) (hcancels : x.cancels ≤ x'.cancels)
    (htasks : x'.tasks = x.tasks) (hruns : x'.runs = x.runs)
    (hpc : pc.notify = (x.cancelers n).notify)
    (hctl : (x'.slots.heap.controllers j).notifyOnCancel
        = (x.slots.heap.controllers j).notifyOnCancel
      ∧ (x'.slots.heap.controllers j).rpcCompleted
        = (x.slots.heap.controllers j).rpcCompleted
      ∧ ((x.slots.heap.controllers j).cancelRequested = true →
        (x'.slots.heap.controllers j).cancelRequested = true)) :
    Kept j x' := by
  obtain ⟨hnotify, hcompleted, hcancel⟩ := hctl
  refine h.other hb hsame ?_ (h.placed.perm fun p => ?_)
    (fun hnone => hnotify.trans hnone) hcompleted hcancel
    (by rw [htasks]; exact h.tasks)
  · intro m hm
    rw [hcancelers, Function.update_of_ne (by omega)]
    exact h.asleep m (hcancels.trans hm)
  by_cases hp : p = .controller
  · subst hp
    simp only [places, hnotify]
    exact .refl _
  by_cases hran : p = .ran
  · subst hran
    simp only [places, hruns]
    exact .refl _
  exact .of_eq (places_cancelerTo pc hb hsame.registrars hcancelers htasks
    hp hran fun _ => hpc)

theorem Kept.asleep_to (h : Kept j x) {n : Nat} {pc : CancelPc}
    (hn : n < x.cancels) :
    ∀ m, x.cancels ≤ m → Function.update x.cancelers n pc m = .idle := by
  intro m hm
  rw [Function.update_of_ne (by omega)]
  exact h.asleep m hm

/-- `TakeNotifyOnCancellation`. -/
theorem Kept.cancelerTakes (h : Kept j x) {n : Nat} {slot : Option UInt64}
    (hn : n < x.cancels) (hpc : (x.cancelers n).notify = none) :
    Kept j ((x.onController j
      ({ · with notifyOnCancel := none })).cancelerTo n
        (.requestCancel slot
          (x.slots.heap.controllers j).notifyOnCancel)) := by
  have hctl := onController_controller (j := j) x
    ({ · with notifyOnCancel := none })
  refine h.other (.heap _) ⟨rfl, rfl, rfl, rfl, rfl, fun r hr => Or.inl hr⟩
    (h.asleep_to hn) ?_ (fun _ => congrArg Controller.notifyOnCancel hctl)
    ((congrArg Controller.rpcCompleted hctl).trans rfl)
    (fun hc => (congrArg Controller.cancelRequested hctl).trans hc) h.tasks
  refine h.placed.handOver (p := .controller) (q := .canceler n)
    (o := (x.slots.heap.controllers j).notifyOnCancel) nofun ?_ ?_ ?_
  · simp [places, State.cancelerTo, onController_controller]
  · simp only [places, cancelerTo_self, hpc]
    simp [CancelPc.notify]
  · intro p hp hq
    by_cases hran : p = .ran
    · subst hran
      exact .refl _
    refine .of_eq (places_cancelerTo (.requestCancel slot
      (x.slots.heap.controllers j).notifyOnCancel) ?_ ?_ ?_ ?_ hp hran
      fun heq => absurd heq hq)
    exacts [.heap _, rfl, rfl, rfl]

/-- It runs what it took. -/
theorem Kept.cancelerRuns (h : Kept j x) {n callback : Nat}
    (hn : n < x.cancels) (hpc : (x.cancelers n).notify = some callback) :
    Kept j ((x.run j .canceler callback).cancelerTo n .returned) := by
  refine h.other .refl ⟨rfl, rfl, rfl, rfl, rfl, fun r hr => ?_⟩
    (h.asleep_to hn) ?_ id rfl id h.tasks
  · rcases List.mem_append.mp hr with hr | hr
    · exact Or.inl hr
    · rw [List.mem_singleton.mp hr]
      exact Or.inr nofun
  · refine h.placed.handOver (p := .canceler n) (q := .ran)
      (o := some callback) nofun ?_ ?_ ?_
    · simp only [places, cancelerTo_self, hpc]
      exact .refl _
    · show ((x.runs ++ [_]).map Run.callback).Perm _
      rw [List.map_append]
      exact List.perm_append_comm
    · intro p hp hq
      by_cases hc : p = .controller
      · subst hc
        exact .refl _
      refine .of_eq (places_cancelerTo .returned ?_ ?_ ?_ ?_ hc hq
        fun heq => absurd heq hp)
      exacts [.refl, rfl, rfl, rfl]

/-- Every step of `StartCancel`. -/
theorem Kept.canceler (h : Kept j x) {n : Nat} {alive : Bool}
    (hs : execCanceler cfg j n alive (x.cancelers n) x = some x') :
    Kept j x' := by
  have hn : n < x.cancels := by
    by_contra hle
    rw [h.asleep n (by omega)] at hs
    cases hs
  have hgoes : ∀ {y : State} {pc : CancelPc},
      Beside j x.slots y.slots →
      y = { x with
        slots := y.slots, cancelers := Function.update x.cancelers n pc } →
      pc.notify = (x.cancelers n).notify →
      (y.slots.heap.controllers j).notifyOnCancel
          = (x.slots.heap.controllers j).notifyOnCancel →
      (y.slots.heap.controllers j).rpcCompleted
          = (x.slots.heap.controllers j).rpcCompleted →
      ((x.slots.heap.controllers j).cancelRequested = true →
        (y.slots.heap.controllers j).cancelRequested = true) → Kept j y := by
    intro y pc hb hy hpc h1 h2 h3
    generalize hs' : y.slots = s' at hb hy h1 h2 h3
    subst hy
    exact h.cancelerGoes hb
      ⟨rfl, rfl, rfl, rfl, rfl, fun r hr => Or.inl hr⟩ rfl hn (Nat.le_refl _)
      rfl rfl hpc ⟨h1, h2, h3⟩
  cases hpc : x.cancelers n with
  | idle | returned =>
      rw [hpc] at hs
      cases hs
  | storeRequested =>
      rw [hpc] at hs
      cases hs
      have hctl := onController_controller (j := j) x
        ({ · with cancelRequested := true })
      exact hgoes (.heap _) rfl (by rw [hpc]; rfl)
        ((congrArg Controller.notifyOnCancel hctl).trans rfl)
        ((congrArg Controller.rpcCompleted hctl).trans rfl)
        fun _ => congrArg Controller.cancelRequested hctl
  | copyActiveSlot =>
      rw [hpc] at hs
      cases hs
      exact hgoes .refl rfl (by rw [hpc]; rfl) rfl rfl id
  | takeNotify slot =>
      rw [hpc] at hs
      cases hs
      exact h.cancelerTakes hn (by rw [hpc]; rfl)
  | requestCancel slot notify =>
      rw [hpc] at hs
      simp only [execCanceler] at hs
      split at hs
      · split at hs <;> cases hs
        next hidle =>
        refine hgoes ?_ rfl (by rw [hpc]; rfl) rfl rfl id
        refine .setThread (by rw [hidle]; rfl) (by rw [hidle]; rfl) ?_ ?_
        all_goals
          simp only [enter, resolveTerminal]
          repeat (first | split | rfl)
      · cases hs
        exact hgoes .refl rfl (by rw [hpc]; rfl) rfl rfl id
  | awaitCancel notify =>
      rw [hpc] at hs
      simp only [execCanceler] at hs
      split at hs <;> cases hs
      next r hret =>
      exact hgoes (.setThread (by rw [hret]; rfl) (by rw [hret]; rfl) rfl rfl)
        rfl (by rw [hpc]; rfl) rfl rfl id
  | runNotify notify =>
      rw [hpc] at hs
      cases notify with
      | some callback =>
          cases hs
          exact h.cancelerRuns hn (by rw [hpc]; rfl)
      | none =>
          cases hs
          exact hgoes .refl rfl (by rw [hpc]; rfl) rfl rfl id

-- == workers

/-- A task that goes on, and is not there to run a callback any more. -/
theorem Kept.taskGoes (h : Kept j x) {i : Nat} {pc : TaskPc}
    {e : Scheduled} {runs : List Run}
    (he : x.slots.scheduled[i]? = some e)
    (hruns : ∀ r ∈ runs, r ∈ x.runs ∨ r.runner ≠ .registrar)
    (hpc : pc ≠ .queued) {o : Option Nat}
    (hqueue : places j x (.queue i) = o.toList)
    (hran : (runs.map Run.callback).Perm
      (o.toList ++ x.runs.map Run.callback)) :
    Kept j (({ x with runs := runs } : State).taskTo i pc) := by
  have hlt : i < x.slots.scheduled.length :=
    (List.getElem?_eq_some_iff.mp he).1
  refine h.other .refl ⟨rfl, rfl, rfl, rfl, rfl, hruns⟩ h.asleep ?_ id rfl id
    ?_
  · refine h.placed.handOver (p := .queue i) (q := .ran) (o := o) nofun ?_
      hran ?_
    · rw [hqueue]
      simp [places, State.taskTo, hpc]
    · intro p hp hq
      cases p with
      | queue m =>
          have hm : m ≠ i := fun heq => hp (heq ▸ rfl)
          simp only [places, State.taskTo, Function.update_of_ne hm]
          exact .refl _
      | ran => exact absurd rfl hq
      | _ => exact .refl _
  · intro m hm
    show Function.update x.tasks i pc m = _
    rw [Function.update_of_ne (by omega)]
    exact h.tasks m hm

/-- Every step of a scheduled task. -/
theorem Kept.task (h : Kept j x) {i : Nat}
    (hs : execTask j i x = some x') : Kept j x' := by
  simp only [execTask] at hs
  split at hs
  · next e he hqueued =>
    split at hs
    · next callback hnotify =>
      split at hs
      · next hmine =>
        cases hs
        refine h.taskGoes (o := some callback) he (fun r hr => ?_) nofun ?_ ?_
        · rcases List.mem_append.mp hr with hr | hr
          · exact Or.inl hr
          · rw [List.mem_singleton.mp hr]
            exact Or.inr nofun
        · simp [places, hqueued, he, carried, hmine, hnotify]
        · rw [List.map_append]
          exact List.perm_append_comm
      · next hmine =>
        cases hs
        refine h.taskGoes (o := none) he (fun r hr => Or.inl hr) nofun ?_
          (.refl _)
        simp [places, hqueued, he, carried, hmine]
    · next hnotify =>
      cases hs
      refine h.taskGoes (o := none) he (fun r hr => Or.inl hr) nofun ?_
        (.refl _)
      simp [places, hqueued, he, carried, hnotify]
  · next e he hpc =>
    cases hs
    refine h.taskGoes (o := none) he (fun r hr => Or.inl hr) nofun ?_
      (.refl _)
    simp [places, hpc]
  · cases hs

-- == the table

/-- The state after a step of the table. -/
def State.withSlots (x : State) (s : Slot.State Tid) : State :=
  { x with slots := s }

section Table

variable {t : Tid} {pc : Pc} {s' : Slot.State Tid} (h : Kept j x)
  (hi : Inv cfg x.slots) (htr : Tracked x.slots)
  (hpc : x.slots.threads t = .running pc)
  (hs : exec cfg t pc x.slots = some s')

include hi hpc hs in
/-- The callbacks on their way through the table. -/
theorem carried_held (u : Tid) :
    carried j s' (x.slots.threads u).holds
      = carried j x.slots (x.slots.threads u).holds := by
  cases hholds : (x.slots.threads u).holds with
  | none => rfl
  | some e =>
      simp only [carried, mine_exec hi hpc hs (holds_page hi hholds).2.1]

include hi htr hpc hs in
theorem carried_scheduled (i : Nat) :
    carried j s' x.slots.scheduled[i]?
      = carried j x.slots x.slots.scheduled[i]? := by
  cases he : x.slots.scheduled[i]? with
  | none => rfl
  | some e =>
      have hmem := List.mem_of_getElem? he
      simp only [carried, mine_exec hi hpc hs (htr.logged.tasks e hmem).2.1]

include hi hpc hs in
theorem places_winner {u : Tid} (hu : u ≠ t) :
    places j (x.withSlots s') (.winner u) = places j x (.winner u) := by
  have hok : ThreadOk x.slots.view t (.running pc) := hpc ▸ hi.threads t
  simp only [places, State.withSlots, (effect_exec hi hok hs).others u hu,
    carried_held hi hpc hs]

include hi htr hpc hs in
theorem places_queue {i : Nat}
    (hsched : s'.scheduled[i]? = x.slots.scheduled[i]?) :
    places j (x.withSlots s') (.queue i) = places j x (.queue i) := by
  simp only [places, State.withSlots, hsched,
    carried_scheduled hi htr hpc hs]

include h hi htr hpc hs in
/-- A callback goes with its item. -/
theorem Kept.placed_exec :
    Placed (places j (x.withSlots s')) x.registrations := by
  cases exec_passes (j := j) hi htr.attended hpc hs with
  | keep hholds hsched hctl =>
      refine h.placed.perm fun p => .of_eq ?_
      cases p with
      | controller => exact congrArg (fun n => n.2.1.toList) hctl
      | winner u =>
          by_cases hu : u = t
          · subst hu
            simp only [places, State.withSlots, hholds,
              carried_held hi hpc hs]
          · exact places_winner hi hpc hs hu
      | queue i => exact places_queue hi htr hpc hs (by rw [hsched])
      | _ => rfl
  | take e hnone hholds hsched hle hmine hnotify hctl =>
      refine h.placed.handOver (p := .controller) (q := .winner t)
        (o := (x.slots.heap.controllers j).notifyOnCancel) nofun ?_ ?_ ?_
      · simp [places, State.withSlots, hctl,
          Controller.takeNotifyOnCompletion]
      · simp [places, State.withSlots, hholds, hnone, carried,
          mine_exec hi hpc hs hle, hmine, hnotify]
      · intro p hp hq
        cases p with
        | controller => exact absurd rfl hp
        | winner u =>
            have hu : u ≠ t := fun heq => hq (heq ▸ rfl)
            exact .of_eq (places_winner hi hpc hs hu)
        | queue i =>
            exact .of_eq (places_queue hi htr hpc hs (by rw [hsched]))
        | _ => exact .refl _
  | takeOther e hnone hholds hsched hle hmine hctl =>
      refine h.placed.perm fun p => .of_eq ?_
      cases p with
      | controller =>
          simp only [places, State.withSlots, hctl]
      | winner u =>
          by_cases hu : u = t
          · subst hu
            simp [places, State.withSlots, hholds, hnone, carried,
              mine_exec hi hpc hs hle, hmine]
          · exact places_winner hi hpc hs hu
      | queue i => exact places_queue hi htr hpc hs (by rw [hsched])
      | _ => rfl
  | schedule e hholds hnone hsched hheap =>
      have hle := (holds_page hi hholds).2.1
      refine h.placed.handOver (p := .winner t)
        (q := .queue x.slots.scheduled.length)
        (o := carried j x.slots (some e)) nofun ?_ ?_ ?_
      · simp [places, State.withSlots, hholds, hnone, carried]
      · have htask := h.tasks _ (Nat.le_refl _)
        simp [places, State.withSlots, hsched, htask, carried,
          mine_exec hi hpc hs hle]
      · intro p hp hq
        cases p with
        | controller => simp only [places, State.withSlots, hheap]; rfl
        | winner u =>
            have hu : u ≠ t := fun heq => hp (heq ▸ rfl)
            exact .of_eq (places_winner hi hpc hs hu)
        | queue i =>
            have hne : i ≠ x.slots.scheduled.length :=
              fun heq => hq (heq ▸ rfl)
            refine .of_eq (places_queue hi htr hpc hs ?_)
            rw [hsched, List.getElem?_append]
            split
            · rfl
            · rw [List.getElem?_eq_none (by simp; omega),
                List.getElem?_eq_none (by omega)]
        | _ => exact .refl _
  | drop e hholds hnone hsched hnotify hheap =>
      refine h.placed.perm fun p => .of_eq ?_
      cases p with
      | controller => simp only [places, State.withSlots, hheap]
      | winner u =>
          by_cases hu : u = t
          · subst hu
            simp [places, State.withSlots, hholds, hnone, carried, hnotify]
          · exact places_winner hi hpc hs hu
      | queue i => exact places_queue hi htr hpc hs (by rw [hsched])
      | _ => rfl

include h hi htr hpc hs in
/-- Every step of the table. -/
theorem Kept.exec : Kept j (x.withSlots s') := by
  have hok : ThreadOk x.slots.view t (.running pc) := hpc ▸ hi.threads t
  have hothers := (effect_exec hi hok hs).others
  have hsched_mine : ∀ e ∈ x.slots.scheduled,
      s'.mine j e = x.slots.mine j e := fun e he =>
    mine_exec hi hpc hs (htr.logged.tasks e he).2.1
  have hheld_mine : ∀ {u e}, (x.slots.threads u).holds = some e →
      s'.mine j e = x.slots.mine j e := fun hholds =>
    mine_exec hi hpc hs (holds_page hi hholds).2.1
  -- what the step does to the controller, and what it adds
  obtain ⟨hcancel, hnotify, hcompleted, hdone, hnew, hqueue⟩ :
      (s'.heap.controllers j).cancelRequested
          = (x.slots.heap.controllers j).cancelRequested
        ∧ ((x.slots.heap.controllers j).notifyOnCancel = none →
          (s'.heap.controllers j).notifyOnCancel = none)
        ∧ ((x.slots.heap.controllers j).rpcCompleted = true →
          (s'.heap.controllers j).rpcCompleted = true)
        ∧ ((s'.heap.controllers j).rpcCompleted = true →
          (s'.heap.controllers j).notifyOnCancel = none)
        ∧ (∀ e, (s'.threads t).holds = some e → s'.mine j e = true →
          (s'.heap.controllers j).rpcCompleted = true)
        ∧ (∀ e ∈ s'.scheduled, s'.mine j e = true →
          e ∈ x.slots.scheduled
            ∨ (s'.heap.controllers j).rpcCompleted = true) := by
    cases exec_passes (j := j) hi htr.attended hpc hs with
    | keep hholds hsched hctl =>
        have h1 := congrArg (fun n => n.1) hctl
        have h2 := congrArg (fun n => n.2.1) hctl
        have h3 := congrArg (fun n => n.2.2) hctl
        refine ⟨h1, fun hn => h2.trans hn, fun hc => h3.trans hc,
          fun hc => h2.trans (h.completed (h3.symm.trans hc)),
          fun e he hm => ?_,
          fun e he _ => Or.inl (hsched ▸ he)⟩
        rw [hholds] at he
        rw [hheld_mine he] at hm
        exact h3.trans (h.held t e he hm)
    | take e hnone hholds hsched hle hmine hnotify hctl =>
        rw [hctl]
        exact ⟨rfl, fun _ => rfl, fun _ => rfl, fun _ => rfl,
          fun _ _ _ => rfl, fun _ _ _ => Or.inr rfl⟩
    | takeOther e hnone hholds hsched hle hmine hctl =>
        rw [hctl]
        refine ⟨rfl, id, id, h.completed, fun e' he hm => ?_,
          fun e he _ => Or.inl (hsched ▸ he)⟩
        rw [hholds] at he
        cases he
        rw [mine_exec hi hpc hs hle, hmine] at hm
        cases hm
    | schedule e hholds hnone hsched hheap =>
        rw [hheap]
        refine ⟨rfl, id, id, h.completed, fun e' he => ?_, fun e' he hm => ?_⟩
        · rw [hnone] at he
          cases he
        · rw [hsched] at he
          rcases List.mem_append.mp he with he | he
          · exact Or.inl he
          · cases List.mem_singleton.mp he
            rw [hheld_mine hholds] at hm
            exact Or.inr (h.held t _ hholds hm)
    | drop e hholds hnone hsched hnotify hheap =>
        rw [hheap]
        refine ⟨rfl, id, id, h.completed, fun e' he => ?_,
          fun e he _ => Or.inl (hsched ▸ he)⟩
        rw [hnone] at he
        cases he
  have hlen : x.slots.scheduled.length ≤ s'.scheduled.length := by
    cases exec_passes (j := j) hi htr.attended hpc hs with
    | schedule e hholds hnone hsched =>
        rw [hsched]
        simp
    | keep hholds hsched | take e hnone hholds hsched
    | takeOther e hnone hholds hsched | drop e hholds hnone hsched =>
        rw [hsched]
  exact {
    placed := h.placed_exec hi htr hpc hs
    unborn := h.unborn
    asleep := h.asleep
    unstored := fun hreg =>
      ⟨hnotify (h.unstored hreg).1, (h.unstored hreg).2⟩
    completed := hdone
    held := by
      intro u e hholds hmine
      by_cases hu : u = t
      · subst hu
        exact hnew e hholds hmine
      · change (s'.threads u).holds = some e at hholds
        rw [hothers u hu] at hholds
        change s'.mine j e = true at hmine
        rw [hheld_mine hholds] at hmine
        exact hcompleted (h.held u e hholds hmine)
    scheduled := by
      intro e he hmine
      rcases hqueue e he hmine with hold | hc
      · change s'.mine j e = true at hmine
        rw [hsched_mine e hold] at hmine
        exact hcompleted (h.scheduled e hold hmine)
      · exact hc
    tasks := fun i hle => h.tasks i (hlen.trans hle)
    one := h.one.exec hi hpc hs
    uncalled := fun hc => (h.uncalled hc).exec hi hpc hs
    passed := h.passed
    won := by
      intro n hn honce
      rcases Bool.or_eq_true_iff.mp (h.won n hn honce) with hc | hc
      · exact Bool.or_eq_true_iff.mpr (Or.inl (hcancel.trans hc))
      · exact Bool.or_eq_true_iff.mpr (Or.inr (hcompleted hc)) }

end Table

-- == every step

/-- Whoever leaves the callbacks alone. -/
theorem Kept.quiet (h : Kept j x) (hb : Beside j x.slots x'.slots)
    (hx : x' = { x with slots := x'.slots })
    (hctl : (x'.slots.heap.controllers j).notices
      = (x.slots.heap.controllers j).notices) : Kept j x' := by
  generalize hs' : x'.slots = s' at hb hx hctl
  subst hx
  have h1 := congrArg (fun n => n.1) hctl
  have h2 := congrArg (fun n => n.2.1) hctl
  have h3 := congrArg (fun n => n.2.2) hctl
  refine h.other hb ⟨rfl, rfl, rfl, rfl, rfl, fun r hr => Or.inl hr⟩ h.asleep
    (h.placed.perm fun p => .of_eq ?_) (fun hn => h2.trans hn) h3
    (fun hc => h1.trans hc) h.tasks
  cases p with
  | controller => exact congrArg Option.toList h2
  | winner t => simp only [places, hb.holds, hb.carried]
  | queue i => simp only [places, hb.scheduled, hb.carried]
  | _ => rfl

/-- The call on the controller begins. -/
theorem Kept.begin (h : Kept j x) {t : Tid} {th : Thread}
    {published : UInt64 → Nat} (hnew : x.called = false)
    (hold : (x.slots.threads t).holds = none) (hth : th.holds = none) :
    Kept j { x with
      slots := { x.slots with published := published }.setThread t th
      called := true } := by
  have hnot := h.uncalled hnew
  have hholds : ∀ u, (Function.update x.slots.threads t th u).holds
      = (x.slots.threads u).holds := by
    intro u
    by_cases hu : u = t
    · rw [hu, Function.update_self, hth, hold]
    · rw [Function.update_of_ne hu]
  have hcells : ∀ i g, ¬ Calls j
      ({ x.slots with published := published }.setThread t th) i g :=
    fun i g hc => hnot.cells i g ⟨hc.pos, hc.le, hc.controller⟩
  have hcalling : ∀ u, (Function.update x.slots.threads t th u).calling j
      = true → u = t := by
    intro u hu
    by_contra hne
    rw [Function.update_of_ne hne, hnot.threads u] at hu
    cases hu
  exact { h with
    placed := h.placed.perm fun p => .of_eq (by
      cases p with
      | winner u =>
          show (carried j _
            (Function.update x.slots.threads t th u).holds).toList = _
          rw [hholds]
          rfl
      | _ => rfl)
    held := fun u e he => h.held u e ((hholds u).symm.trans he)
    one :=
      { one := fun i g _ _ hc => absurd hc (hcells i g)
        fresh := fun _ _ => hcells
        alone := fun u u' hu hu' =>
          (hcalling u hu).trans (hcalling u' hu').symm }
    uncalled := nofun }

/-- An action of the table's threads that is no step of an operation. -/
theorem Kept.move (h : Kept j x) {t : Tid} {a : Slot.Action Tid}
    {th : Thread} {published : UInt64 → Nat}
    (hmay : slotsMayTake j x a = true)
    (hmove : Moves cfg t a (x.slots.threads t) th) :
    Kept j { x with
      slots := { x.slots with published := published }.setThread t th
      called := x.called || begins j a } := by
  obtain ⟨hold, hnew⟩ := hmove.holds
  by_cases hbegins : begins j a = true
  · rw [hbegins, Bool.or_true]
    refine h.begin ?_ hold hnew
    generalize x.slots.threads t = th₀ at hmove
    cases hmove with
    | call op =>
        cases op with
        | allocateSlot args limit =>
            cases t with
            | channel n =>
                have hctl : args.controller = some j :=
                  of_decide_eq_true hbegins
                simpa [slotsMayTake, hctl] using hmay
            | canceler n => cases hmay
        | _ => cases hbegins
    | _ => cases hbegins
  · rw [Bool.eq_false_iff.mpr hbegins, Bool.or_false]
    refine h.quiet ?_ rfl rfl
    have hcalling : th.calling j = (x.slots.threads t).calling j := by
      generalize x.slots.threads t = th₀ at hmove
      cases hmove with
      | call op =>
          cases op with
          | allocateSlot args limit =>
              have hctl : args.controller ≠ some j := fun heq =>
                hbegins (decide_eq_true heq)
              simp only [enter]
              split
              · rfl
              · simp [Thread.calling, hctl]
          | _ =>
              simp only [enter, resolveTerminal]
              repeat (first | split | rfl)
      | _ => rfl
    refine ⟨rfl, rfl, fun u => ?_, fun u => ?_⟩
    · show (Function.update x.slots.threads t th u).holds = _
      by_cases hu : u = t
      · rw [hu, Function.update_self, hnew, hold]
      · rw [Function.update_of_ne hu]
    · show (Function.update x.slots.threads t th u).calling j = _
      by_cases hu : u = t
      · rw [hu, Function.update_self, hcalling]
      · rw [Function.update_of_ne hu]

/-- Every action. -/
theorem kept_apply (h : Kept j x) (hi : Inv cfg x.slots)
    (htr : Tracked x.slots) {a : Action}
    (hs : apply cfg j a x = some x') : Kept j x' := by
  cases a with
  | slots a =>
      simp only [apply] at hs
      split at hs
      · next hmay =>
        obtain ⟨s', hs', rfl⟩ := Option.map_eq_some_iff.mp hs
        cases apply_acts hs' with
        | step hpc hexec =>
            have hstep := h.exec hi htr hpc hexec
            simpa [State.withSlots, begins] using hstep
        | move published hmove => exact h.move hmay hmove
        | client heap metrics =>
            simp only [slotsMayTake, Bool.and_eq_true,
              decide_eq_true_eq] at hmay
            obtain ⟨⟨h1, h2⟩, h3⟩ := hmay
            simp only [begins, Bool.or_false]
            refine h.quiet ⟨rfl, rfl, fun _ => rfl, fun _ => rfl⟩ rfl ?_
            simp only [Controller.notices, h1, h2, h3]
      · cases hs
  | notifyOnCancel =>
      cases hs
      exact h.arrive
  | registrar n => exact h.registrar hs
  | startCancel =>
      cases hs
      refine h.cancelerGoes .refl
        ⟨rfl, rfl, rfl, rfl, rfl, fun r hr => Or.inl hr⟩ rfl
        (Nat.lt_succ_self _) (Nat.le_succ _) rfl rfl ?_ ⟨rfl, rfl, id⟩
      rw [h.asleep _ (Nat.le_refl _)]
      rfl
  | canceler n alive => exact h.canceler hs
  | task i => exact h.task hs

end AntRpc.Notify
