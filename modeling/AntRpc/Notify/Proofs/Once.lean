/-
`NotifyOnCancel`'s promise (rpc/controller.hpp): the callback runs exactly
once, immediately if cancellation or completion has won, otherwise before
the continuation.

# What holds, and when

Once it does in every run, since a callback is always at one place
(`Kept`). Before the continuation it does not: `StartCancel` takes the
callback, then resolves the call, and only then runs what it took. By that
time a worker may have run the continuation that the resolution scheduled
(`cancel_runs_late`). `NotifyOnCancel` too may decide to run its callback,
since a `StartCancel` has left its mark, and run it when the call is over.
If no continuation starts while either has the callback in its hands
(`inOrder`), the promise is kept: a first callback that was registered
before the continuation started is run before it.
-/
import AntRpc.Notify.Proofs.Custody
import AntRpc.Slot.Proofs.Isolation

namespace AntRpc.Notify

open Lib Slot

variable {cfg : TableConfig} {j : Nat} {x x' : State}

-- == runs

/-- The machine refines its slot table's. -/
theorem machine_refines (cfg : TableConfig) (j : Nat)
    (ok : State → Action → Prop) :
    (machine cfg j).Refines (Slot.machine cfg) State.slots ok where
  start := by
    rintro x ⟨heap, -, -, rfl⟩
    exact ⟨heap, rfl⟩
  step := by
    intro x x' a _ _ hs
    have hheap : ∀ {y : State} (f : Controller → Controller),
        y.slots = (x.onController j f).slots →
        ∃ b, Slot.apply cfg b x.slots = some y.slots := fun f hy =>
      ⟨.client (x.onController j f).slots.heap x.slots.metrics,
        congrArg some hy.symm⟩
    cases a with
    | slots a =>
        simp only [machine, apply] at hs
        split at hs
        · obtain ⟨s', hs', rfl⟩ := Option.map_eq_some_iff.mp hs
          exact Or.inr ⟨a, hs'⟩
        · cases hs
    | notifyOnCancel | startCancel =>
        cases hs
        exact Or.inl rfl
    | registrar n =>
        change execRegistrar j n (x.registrars n) x = some x' at hs
        cases hpc : x.registrars n with
        | idle | returned =>
            rw [hpc] at hs
            cases hs
        | runNow =>
            rw [hpc] at hs
            cases hs
            exact Or.inl rfl
        | register =>
            rw [hpc] at hs
            simp only [execRegistrar] at hs
            split_ifs at hs <;> cases hs
            · exact Or.inl rfl
            · exact Or.inl rfl
            · exact Or.inr (hheap ({ · with notifyOnCancel := some n }) rfl)
    | canceler n alive =>
        change execCanceler cfg j n alive (x.cancelers n) x = some x' at hs
        cases hpc : x.cancelers n with
        | idle | returned =>
            rw [hpc] at hs
            cases hs
        | storeRequested =>
            rw [hpc] at hs
            cases hs
            exact Or.inr (hheap ({ · with cancelRequested := true }) rfl)
        | takeNotify slot =>
            rw [hpc] at hs
            cases hs
            exact Or.inr (hheap ({ · with notifyOnCancel := none }) rfl)
        | copyActiveSlot =>
            rw [hpc] at hs
            cases hs
            exact Or.inl rfl
        | requestCancel slot notify =>
            rw [hpc] at hs
            simp only [execCanceler] at hs
            split at hs
            · next c _ =>
              split at hs <;> cases hs
              next hidle =>
              refine Or.inr ⟨.invoke (.canceler n)
                (.cancelSlot c "RPC call canceled"), ?_⟩
              simp only [Slot.machine, Slot.apply, hidle]
              rfl
            · cases hs
              exact Or.inl rfl
        | awaitCancel notify =>
            rw [hpc] at hs
            simp only [execCanceler] at hs
            split at hs <;> cases hs
            next r hret =>
            refine Or.inr ⟨.collect (.canceler n), ?_⟩
            simp only [Slot.machine, Slot.apply, hret]
            rfl
        | runNotify notify =>
            rw [hpc] at hs
            cases notify <;> cases hs <;> exact Or.inl rfl
    | task i =>
        change execTask j i x = some x' at hs
        simp only [execTask] at hs
        split at hs
        · split at hs
          · split at hs <;> cases hs <;> exact Or.inl rfl
          · cases hs
            exact Or.inl rfl
        · cases hs
          exact Or.inl rfl
        · cases hs

theorem slots_reachable {ok : State → Action → Prop}
    (h : (machine cfg j).Reach ok x) :
    (Slot.machine cfg).Reachable x.slots :=
  (machine_refines cfg j ok).reach h

/-- Wherever the threads stand, each callback is at one place. -/
theorem kept_reach {ok : State → Action → Prop}
    (h : (machine cfg j).Reach ok x) : Kept j x := by
  induction h with
  | start h => exact kept_start h
  | step hr _ hs ih =>
      have hslots := slots_reachable hr
      exact kept_apply ih (inv_reachable hslots) (tracked_reachable hslots)
        hs

-- == the continuation

theorem continued_iff : x.continued j = true ↔ ∃ i e,
    x.slots.scheduled[i]? = some e ∧ x.slots.mine j e = true
      ∧ x.tasks i = .continued := by
  simp only [State.continued, List.any_eq_true, List.mem_range,
    Bool.and_eq_true, decide_eq_true_eq, Option.any_eq_true]
  constructor
  · rintro ⟨i, -, htask, e, he, hmine⟩
    exact ⟨i, e, he, hmine, htask⟩
  · rintro ⟨i, e, he, hmine, htask⟩
    exact ⟨i, (List.getElem?_eq_some_iff.mp he).1, htask, e, he, hmine⟩

/-- A list with one such element has it at one index. -/
theorem index_unique {α : Type} {p : α → Bool} {l : List α} {i k : Nat}
    {a b : α} (hcount : l.countP p ≤ 1) (ha : l[i]? = some a)
    (hb : l[k]? = some b) (hpa : p a = true) (hpb : p b = true) : i = k := by
  induction l generalizing i k with
  | nil => simp at ha
  | cons c l ih =>
      have hnone : p c = true → ∀ (m : Nat) (d : α), l[m]? = some d →
          p d ≠ true := by
        intro hpc m d hd hpd
        rw [List.countP_cons_of_pos hpc] at hcount
        have := List.countP_pos_iff.mpr ⟨d, List.mem_of_getElem? hd, hpd⟩
        omega
      cases i with
      | zero =>
          simp only [List.getElem?_cons_zero, Option.some.injEq] at ha
          subst ha
          cases k with
          | zero => rfl
          | succ k => exact absurd hpb (hnone hpa k b (by simpa using hb))
      | succ i =>
          rw [List.getElem?_cons_succ] at ha
          cases k with
          | zero =>
              simp only [List.getElem?_cons_zero, Option.some.injEq] at hb
              subst hb
              exact absurd hpa (hnone hpb i a ha)
          | succ k =>
              rw [List.getElem?_cons_succ] at hb
              have hle : l.countP p ≤ 1 := by
                rw [List.countP_cons] at hcount
                omega
              rw [ih hle ha hb]

/-- Once the continuation has started, nobody is on the way to it. -/
theorem Kept.settled (h : Kept j x) (hi : Inv cfg x.slots)
    (htr : Tracked x.slots) (hcont : x.continued j = true) :
    (∀ t e, (x.slots.threads t).holds = some e → x.slots.mine j e = false)
      ∧ (∀ i e, x.slots.scheduled[i]? = some e → x.slots.mine j e = true →
        x.tasks i = .continued)
      ∧ (x.slots.heap.controllers j).rpcCompleted = true := by
  obtain ⟨i₀, e₀, he₀, hmine₀, htask₀⟩ := continued_iff.mp hcont
  have hmem₀ := List.mem_of_getElem? he₀
  obtain ⟨hpos₀, hle₀, -⟩ := htr.logged.tasks e₀ hmem₀
  have hcalls₀ : Calls j x.slots e₀.slot e₀.gen :=
    ⟨hpos₀, hle₀, of_decide_eq_true hmine₀⟩
  have hcount := htr.logged.scheduled e₀.slot e₀.gen
  have hmax := (hi.cells e₀.slot).dispatches e₀.gen
  change (x.slots.lives e₀.slot).dispatches e₀.gen
    ≤ ((x.slots.lives e₀.slot).fate e₀.gen).maxDispatches at hmax
  rw [← hcount] at hmax
  refine ⟨fun t e he => ?_, fun i e he hmine => ?_,
    h.scheduled e₀ hmem₀ hmine₀⟩
  · by_contra hmine
    rw [Bool.not_eq_false] at hmine
    obtain ⟨hpos, hle, hfate⟩ := holds_page hi he
    obtain ⟨hslot, hgen⟩ := h.one.one _ _ _ _ hcalls₀
      ⟨hpos, hle, of_decide_eq_true hmine⟩
    rw [← hslot, ← hgen] at hfate
    have hsome : 0 < x.slots.scheduled.countP
        (fun e => e.slot = e₀.slot ∧ e.gen = e₀.gen) :=
      List.countP_pos_iff.mpr ⟨e₀, hmem₀, by simp⟩
    cases hf : (x.slots.lives e₀.slot).fate e₀.gen with
    | dispatched => exact hfate hf
    | _ =>
        rw [hf] at hmax
        simp only [Fate.maxDispatches] at hmax
        omega
  · have hmem := List.mem_of_getElem? he
    obtain ⟨hpos, hle, -⟩ := htr.logged.tasks e hmem
    obtain ⟨hslot, hgen⟩ := h.one.one _ _ _ _ hcalls₀
      ⟨hpos, hle, of_decide_eq_true hmine⟩
    have hone : x.slots.scheduled.countP
        (fun e => e.slot = e₀.slot ∧ e.gen = e₀.gen) ≤ 1 := by
      refine hmax.trans ?_
      cases (x.slots.lives e₀.slot).fate e₀.gen <;>
        simp [Fate.maxDispatches]
    have hidx := index_unique hone he₀ he (by simp) (by simp [hslot, hgen])
    rw [← hidx]
    exact htask₀

-- == order

/-- The task's next step starts the continuation. -/
def continues (j : Nat) (x : State) (i : Nat) : Bool :=
  match x.slots.scheduled[i]?, x.tasks i with
  | some e, .queued => x.slots.mine j e && e.item.notify.isNone
  | some e, .notified => x.slots.mine j e
  | _, _ => false

/-- No continuation starts while a `StartCancel` has a callback in its
hands, or the first `NotifyOnCancel` is about to run its own. -/
def inOrder (j : Nat) (x : State) : Action → Bool
  | .task i => !continues j x i
      || ((List.range x.cancels).all fun n => (x.cancelers n).notify = none)
        && x.first.all fun n => x.registrars n ≠ .runNow
  | _ => true

/-- Only callers run a callback after the continuation has started, and
the first one only if it was registered after that. -/
structure Ordered (j : Nat) (x : State) : Prop where
  early : ∀ r ∈ x.runs, r.runner ≠ .registrar → r.late = false
  first : ∀ r ∈ x.runs, x.first = some r.callback →
    x.registeredLate = false → r.late = false
  quiet : x.continued j = true → ∀ n, (x.cancelers n).notify = none
  passed : x.continued j = true → x.registeredLate = false →
    ∀ n, x.first = some n → x.registrars n ≠ .runNow

/-- A step that starts no continuation. -/
theorem continued_of {s : Slot.State Tid} (h : x'.continued j = true)
    (hs : x'.slots = s) (hsched : ∀ i e, s.scheduled[i]? = some e → x'.tasks i = .continued →
      x.slots.scheduled[i]? = some e)
    (hmine : ∀ e ∈ x.slots.scheduled, s.mine j e = x.slots.mine j e)
    (htasks : ∀ i, x'.tasks i = .continued → x.tasks i = .continued) :
    x.continued j = true := by
  obtain ⟨i, e, he, hm, htask⟩ := continued_iff.mp h
  rw [hs] at he hm
  have hold := hsched i e he htask
  rw [hmine e (List.mem_of_getElem? hold)] at hm
  exact continued_iff.mpr ⟨i, e, hold, hm, htasks i htask⟩

/-- Nor does any action of the table. -/
theorem continued_slots (h : Kept j x) (hi : Inv cfg x.slots)
    (htr : Tracked x.slots) {a : Slot.Action Tid} {s' : Slot.State Tid}
    {called : Bool} (hs : Slot.apply cfg a x.slots = some s')
    (hcont : ({ x with slots := s', called := called }
      : State).continued j = true) : x.continued j = true := by
  have hbound : ∀ i, x.tasks i = .continued →
      i < x.slots.scheduled.length := by
    intro i htask
    by_contra hle
    rw [h.tasks i (by omega)] at htask
    cases htask
  cases apply_acts hs with
  | step hpc hexec =>
      refine continued_of hcont rfl (fun i e he htask => ?_)
        (fun e he => mine_exec hi hpc hexec (htr.logged.tasks e he).2.1)
        fun _ h => h
      cases exec_passes (j := j) hi htr.attended hpc hexec with
      | schedule e' hholds hnone hsched =>
          rw [hsched, List.getElem?_append_left (hbound i htask)] at he
          exact he
      | keep hholds hsched | take e' hnone hholds hsched
      | takeOther e' hnone hholds hsched | drop e' hholds hnone hsched =>
          rwa [hsched] at he
  | move published hmove | client heap metrics =>
      exact continued_of hcont rfl (fun i e he _ => he) (fun e he => rfl)
        fun _ h => h

section Order

variable (h : Ordered j x) (hk : Kept j x) (hi : Inv cfg x.slots)
  (htr : Tracked x.slots)
include h

/-- A step that runs nothing late and leaves the callers alone. -/
theorem Ordered.frame
    (hruns : ∀ r ∈ x'.runs, r ∈ x.runs ∨ r.late = false)
    (hfirst : x'.first = x.first)
    (hlate : x'.registeredLate = x.registeredLate)
    (hregistrars : ∀ n, x'.registrars n = .runNow →
      x.registrars n = .runNow)
    (hcont : x'.continued j = true →
      (∀ n, (x'.cancelers n).notify = none)
        ∧ (x.continued j = true
          ∨ ∀ n, x.first = some n → x.registrars n ≠ .runNow)) :
    Ordered j x' where
  early r hr hrunner :=
    (hruns r hr).elim (fun hr => h.early r hr hrunner) id
  first r hr hr' hin :=
    (hruns r hr).elim (fun hr => h.first r hr (hfirst ▸ hr') (hlate ▸ hin)) id
  quiet hc := (hcont hc).1
  passed hc hin n hn hnow := by
    rw [hfirst] at hn
    rw [hlate] at hin
    rcases (hcont hc).2 with hold | hfree
    · exact h.passed hold hin n hn (hregistrars n hnow)
    · exact hfree n hn (hregistrars n hnow)

include hk in
/-- `NotifyOnCancel` runs no callback but its own. -/
theorem Ordered.registrar {n : Nat}
    (hs : execRegistrar j n (x.registrars n) x = some x') :
    Ordered j x' := by
  cases hpc : x.registrars n with
  | idle | returned =>
      rw [hpc] at hs
      cases hs
  | register =>
      obtain ⟨-, hran⟩ := hk.not_ran (Or.inl hpc)
      -- the first registration: nothing of this callback has run
      have hnew : ∀ r ∈ x.runs, some n = some r.callback →
          x.continued j = false → r.late = false :=
        fun r hr heq => absurd (Option.some.inj heq).symm (hran r hr)
      have hpassed : x.continued j = true → x.continued j = false →
          ∀ m, some n = some m → Function.update x.registrars n .runNow m
            ≠ .runNow := by
        intro hc hnc
        rw [hc] at hnc
        cases hnc
      rw [hpc] at hs
      simp only [execRegistrar] at hs
      split_ifs at hs <;> cases hs
      · refine ⟨h.early, h.first, h.quiet, fun hc hin m hm => ?_⟩
        have hmn : m ≠ n := by
          rintro rfl
          rcases hk.passed m hm with hp | hp <;> rw [hpc] at hp <;> cases hp
        rw [registrarTo_ne _ _ hmn]
        exact h.passed hc hin m hm
      · exact ⟨h.early, hnew, h.quiet, hpassed⟩
      · refine ⟨h.early, hnew, h.quiet, fun hc hnc => ?_⟩
        change x.continued j = true at hc
        change x.continued j = false at hnc
        rw [hc] at hnc
        cases hnc
  | runNow =>
      rw [hpc] at hs
      cases hs
      refine ⟨fun r hr hrunner => ?_, fun r hr hfirst hin => ?_, h.quiet,
        fun hc hin m hm hnow => ?_⟩
      · rcases List.mem_append.mp hr with hr | hr
        · exact h.early r hr hrunner
        · rw [List.mem_singleton.mp hr] at hrunner
          exact absurd rfl hrunner
      · rcases List.mem_append.mp hr with hr | hr
        · exact h.first r hr hfirst hin
        · rw [List.mem_singleton.mp hr] at hfirst ⊢
          show x.continued j = false
          by_contra hc
          exact h.passed (Bool.not_eq_false _ ▸ hc) hin n hfirst hpc
      · by_cases hmn : m = n
        · subst hmn
          rw [registrarTo_self] at hnow
          cases hnow
        · rw [registrarTo_ne _ _ hmn] at hnow
          exact h.passed hc hin m hm hnow

include hk hi htr in
/-- `StartCancel` finds no callback after the completion. -/
theorem Ordered.canceler {n : Nat} {alive : Bool}
    (hs : execCanceler cfg j n alive (x.cancelers n) x = some x') :
    Ordered j x' := by
  have hgoes : ∀ {y : State} {pc : CancelPc},
      (∀ r ∈ y.runs, r ∈ x.runs ∨ r.late = false) →
      y.first = x.first ∧ y.registeredLate = x.registeredLate
        ∧ y.registrars = x.registrars →
      y.cancelers = Function.update x.cancelers n pc →
      (y.continued j = true → x.continued j = true) →
      (x.continued j = true → pc.notify = none) → Ordered j y := by
    intro y pc hruns hsame hcancelers hcont hpc
    refine h.frame hruns hsame.1 hsame.2.1
      (fun m hm => by rwa [hsame.2.2] at hm)
      fun hc => ⟨fun m => ?_, .inl (hcont hc)⟩
    rw [hcancelers, Function.update_apply]
    split
    · exact hpc (hcont hc)
    · exact h.quiet (hcont hc) m
  have hsame : x.continued j = true → (x.cancelers n).notify = none :=
    fun hc => h.quiet hc n
  cases hpc : x.cancelers n with
  | idle | returned =>
      rw [hpc] at hs
      cases hs
  | storeRequested | copyActiveSlot =>
      rw [hpc] at hs
      cases hs
      exact hgoes (fun _ => .inl) ⟨rfl, rfl, rfl⟩ rfl id fun _ => rfl
  | takeNotify slot =>
      rw [hpc] at hs
      cases hs
      refine hgoes (fun _ => .inl) ⟨rfl, rfl, rfl⟩ rfl id fun hc => ?_
      exact hk.completed (hk.settled hi htr hc).2.2
  | requestCancel slot notify =>
      rw [hpc] at hs hsame
      simp only [execCanceler] at hs
      split at hs
      · split at hs <;> cases hs
        exact hgoes (fun _ => .inl) ⟨rfl, rfl, rfl⟩ rfl id hsame
      · cases hs
        exact hgoes (fun _ => .inl) ⟨rfl, rfl, rfl⟩ rfl id hsame
  | awaitCancel notify =>
      rw [hpc] at hs hsame
      simp only [execCanceler] at hs
      split at hs <;> cases hs
      exact hgoes (fun _ => .inl) ⟨rfl, rfl, rfl⟩ rfl id hsame
  | runNotify notify =>
      rw [hpc] at hs hsame
      cases notify with
      | none =>
          cases hs
          exact hgoes (fun _ => .inl) ⟨rfl, rfl, rfl⟩ rfl id fun _ => rfl
      | some callback =>
          cases hs
          have hnot : x.continued j = false := by
            by_contra hc
            cases hsame (Bool.not_eq_false _ ▸ hc)
          refine hgoes (fun r hr => ?_) ⟨rfl, rfl, rfl⟩ rfl id fun _ => rfl
          rcases List.mem_append.mp hr with hr | hr
          · exact .inl hr
          · rw [List.mem_singleton.mp hr]
            exact .inr hnot

include hk hi htr in
/-- A worker runs the callback of a task before its continuation. -/
theorem Ordered.task {i : Nat} (hok : inOrder j x (.task i) = true)
    (hs : execTask j i x = some x') : Ordered j x' := by
  have hall : continues j x i = true →
      (∀ n, (x.cancelers n).notify = none)
        ∧ ∀ n, x.first = some n → x.registrars n ≠ .runNow := by
    intro hc
    simp only [inOrder, hc, Bool.not_true, Bool.false_or, Bool.and_eq_true,
      List.all_eq_true, List.mem_range, decide_eq_true_eq,
      Option.all_eq_true] at hok
    refine ⟨fun n => ?_, hok.2⟩
    by_cases hn : n < x.cancels
    · exact hok.1 n hn
    · rw [hk.asleep n (by omega)]
      rfl
  -- a task that goes on, but not to the continuation of this call
  have hgoes : ∀ {pc : TaskPc} {runs : List Run},
      (∀ r ∈ runs, r ∈ x.runs ∨ r.late = false) →
      (pc = .continued → ∀ e, x.slots.scheduled[i]? = some e →
        x.slots.mine j e = true → (∀ n, (x.cancelers n).notify = none)
          ∧ ∀ n, x.first = some n → x.registrars n ≠ .runNow) →
      Ordered j (({ x with runs := runs } : State).taskTo i pc) := by
    intro pc runs hruns hpc
    refine h.frame hruns rfl rfl (fun _ hm => hm) fun hc => ?_
    obtain ⟨k, e, he, hmine, htask⟩ := continued_iff.mp hc
    change Function.update x.tasks i pc k = .continued at htask
    by_cases hk : k = i
    · subst hk
      rw [Function.update_self] at htask
      exact (hpc htask e he hmine).imp_right .inr
    · rw [Function.update_of_ne hk] at htask
      have hold : x.continued j = true :=
        continued_iff.mpr ⟨k, e, he, hmine, htask⟩
      exact ⟨h.quiet hold, .inl hold⟩
  simp only [execTask] at hs
  split at hs
  · next e he hqueued =>
    split at hs
    · next callback hnotify =>
      split at hs
      · next hmine =>
        cases hs
        refine hgoes (fun r hr => ?_) (by rintro ⟨⟩)
        rcases List.mem_append.mp hr with hr | hr
        · exact .inl hr
        · rw [List.mem_singleton.mp hr]
          refine .inr ?_
          show x.continued j = false
          by_contra hc
          have htask := (hk.settled hi htr (Bool.not_eq_false _ ▸ hc)).2.1
            i e he hmine
          rw [hqueued] at htask
          cases htask
      · cases hs
        exact hgoes (fun _ => .inl) (by rintro ⟨⟩)
    · next hnotify =>
      cases hs
      refine hgoes (fun _ => .inl) fun _ e' he' hmine => hall ?_
      rw [he] at he'
      cases he'
      simp [continues, he, hqueued, hmine, hnotify]
  · next e he hpc =>
    cases hs
    refine hgoes (fun _ => .inl) fun _ e' he' hmine => hall ?_
    rw [he] at he'
    cases he'
    simp [continues, he, hpc, hmine]
  · cases hs

include hk hi htr in
/-- Every action. -/
theorem Ordered.apply {a : Action} (hok : inOrder j x a = true)
    (hs : Notify.apply cfg j a x = some x') : Ordered j x' := by
  cases a with
  | slots a =>
      simp only [Notify.apply] at hs
      split at hs
      · obtain ⟨s', hs', rfl⟩ := Option.map_eq_some_iff.mp hs
        refine h.frame (fun _ => .inl) rfl rfl (fun _ hm => hm) fun hc => ?_
        have hold := continued_slots hk hi htr hs' hc
        exact ⟨h.quiet hold, .inl hold⟩
      · cases hs
  | notifyOnCancel =>
      cases hs
      refine h.frame (fun _ => .inl) rfl rfl (fun m hm => ?_)
        fun hc => ⟨h.quiet hc, .inl hc⟩
      by_cases hmn : m = x.registrations
      · subst hmn
        rw [registrarTo_self] at hm
        cases hm
      · rwa [registrarTo_ne _ _ hmn] at hm
  | registrar n => exact h.registrar hk hs
  | startCancel =>
      cases hs
      refine h.frame (fun _ => .inl) rfl rfl (fun _ hm => hm)
        fun hc => ⟨fun n => ?_, .inl hc⟩
      show (Function.update x.cancelers x.cancels _ n).notify = none
      rw [Function.update_apply]
      split
      · rfl
      · exact h.quiet hc n
  | canceler n alive => exact h.canceler hk hi htr hs
  | task i => exact h.task hk hi htr hok hs

end Order

theorem ordered_reach
    (h : (machine cfg j).Reach (fun x a => inOrder j x a = true) x) :
    Ordered j x := by
  induction h with
  | start h =>
      obtain ⟨heap, -, -, rfl⟩ := h
      exact ⟨nofun, nofun, fun hc => (by cases hc), fun hc => (by cases hc)⟩
  | step hr hok hs ih =>
      have hslots := slots_reachable hr
      exact ih.apply (kept_reach hr) (inv_reachable hslots)
        (tracked_reachable hslots) hok hs

-- == the promise

/-- Once the continuation has started, a callback whose registration
returned has run, unless a `StartCancel` has it. -/
theorem Kept.ran (h : Kept j x) (hi : Inv cfg x.slots)
    (htr : Tracked x.slots) (hcont : x.continued j = true)
    (hquiet : ∀ n, (x.cancelers n).notify = none) {n : Nat}
    (hn : n < x.registrations) (hret : x.registrars n = .returned) :
    n ∈ x.runs.map Run.callback := by
  obtain ⟨hheld, hqueue, hcompleted⟩ := h.settled hi htr hcont
  obtain ⟨p, hp, -⟩ := h.placed.existsUnique hn
  cases p with
  | ran => exact hp
  | caller m =>
      simp only [places] at hp
      split at hp
      · next hpc =>
        cases List.mem_singleton.mp hp
        rw [hret] at hpc
        cases hpc
      · next hpc =>
        cases List.mem_singleton.mp hp
        rw [hret] at hpc
        cases hpc
      · cases hp
      · cases hp
  | controller =>
      simp [places, h.completed hcompleted] at hp
  | canceler m => simp [places, hquiet] at hp
  | winner t =>
      simp only [places] at hp
      cases hholds : (x.slots.threads t).holds with
      | none => simp [hholds, carried] at hp
      | some e => simp [hholds, carried, hheld t e hholds] at hp
  | queue i =>
      simp only [places] at hp
      cases he : x.slots.scheduled[i]? with
      | none => simp [he, carried] at hp
      | some e =>
          by_cases hmine : x.slots.mine j e = true
          · simp [hqueue i e he hmine] at hp
          · simp [he, carried, hmine] at hp

/-- In every run in which no continuation starts while a `StartCancel` has
a callback in its hands or the first `NotifyOnCancel` is about to run its
own: no callback runs twice; the first one, if it was registered before
the continuation started, never runs after that, whoever runs it; no other
one does unless its own caller runs it; the first one is run by its caller
only if cancellation or completion has won; and once the continuation has
started, every registered one has run. -/
theorem callbacks_run_once (cfg : TableConfig) (j : Nat) (x : State)
    (h : (machine cfg j).Reach (fun x a => inOrder j x a = true) x) :
    (∀ n, (x.runs.map Run.callback).count n ≤ 1)
      ∧ (∀ r ∈ x.runs, x.first = some r.callback →
        x.registeredLate = false → r.late = false)
      ∧ (∀ r ∈ x.runs, r.runner ≠ .registrar → r.late = false)
      ∧ (∀ r ∈ x.runs, r.runner = .registrar →
        x.first = some r.callback → decided j x = true)
      ∧ (x.continued j = true → ∀ n < x.registrations,
        x.registrars n = .returned →
        (x.runs.map Run.callback).count n = 1) := by
  have hk := kept_reach h
  have hslots := slots_reachable h
  have hi := inv_reachable hslots
  have htr := tracked_reachable hslots
  have hord := ordered_reach h
  have hcount : ∀ n, (x.runs.map Run.callback).count n ≤ 1 :=
    List.nodup_iff_count_le_one.mp (hk.placed.nodup .ran)
  refine ⟨hcount, hord.first, hord.early, fun r hr hrunner hfirst =>
    hk.won _ hfirst (Or.inr ⟨r, hr, rfl, hrunner⟩), ?_⟩
  intro hcont n hn hret
  have hmem := hk.ran hi htr hcont (hord.quiet hcont) hn hret
  have hpos := List.count_pos_iff.mpr hmem
  have hle := hcount n
  omega

-- == two runs

/-- A new controller, for a table of one cell. -/
def freshState : State := { slots := { table := .init oneCell } }

theorem freshState_start : (machine oneCell 0).start freshState :=
  ⟨{}, rfl, rfl, rfl⟩

/-- `n` steps of a thread inside the table. -/
def tableSteps (t : Tid) (n : Nat) : List Action :=
  List.replicate n (.slots (.step t))

/-- A callback is registered, and a call on the controller is in
flight. -/
def callSteps : List Action :=
  .notifyOnCancel :: .registrar 0
    :: .slots (.invoke (.channel 0) (.allocateSlot
      { controller := some 0, task := some 7, executor := some 1 } 1))
    :: tableSteps (.channel 0) 8
    ++ .slots (.collect (.channel 0))
    :: .slots (.client { controllers := fun _ =>
        { notifyOnCancel := some 0, activeSlot := some 0x100000000 } } {})
    :: .slots (.invoke (.channel 0) (.publishSlot 0x100000000))
    :: tableSteps (.channel 0) 3

/-- `StartCancel` takes the callback and cancels the call; a worker runs
the continuation; then `StartCancel` runs the callback. -/
def lateRun : List Action :=
  callSteps ++ .startCancel :: List.replicate 4 (.canceler 0 true)
    ++ tableSteps (.canceler 0) 16
    ++ [.task 0, .canceler 0 true, .canceler 0 true]

/-- The state `lateRun` ends in. -/
def lateState : State := (machine oneCell 0).final lateRun freshState

/-- The first callback runs after the continuation has started. -/
theorem cancel_runs_late :
    (machine oneCell 0).Reachable lateState
      ∧ lateState.first = some 0
      ∧ lateState.continued 0 = true
      ∧ lateState.runs = [⟨0, .canceler, true⟩] := by
  refine ⟨?_, by decide +kernel⟩
  unfold lateState
  exact Machine.reachable_final freshState_start (by decide +kernel)

/-- A response completes the call; the worker runs the callback, then the
continuation. A `StartCancel` comes too late for either. -/
def answeredRun : List Action :=
  callSteps ++ .slots (.invoke (.channel 1)
      (.completeResponseSlot 0x100000000 {}))
    :: tableSteps (.channel 1) 16 ++ .startCancel
    :: List.replicate 3 (.canceler 0 true) ++ [.task 0, .task 0]

/-- The state `answeredRun` ends in. -/
def answeredState : State :=
  (machine oneCell 0).finalWhile (inOrder 0) answeredRun freshState

theorem answeredState_runs_once :
    (answeredState.continued 0 = true
      ∧ answeredState.runs = [⟨0, .worker, false⟩])
      ∧ (answeredState.runs.map Run.callback).count 0 = 1 := by
  have hreach := callbacks_run_once oneCell 0 answeredState (by
    unfold answeredState
    exact Machine.reach_finalWhile freshState_start (by decide +kernel))
  exact ⟨by decide +kernel, hreach.2.2.2.2 (by decide +kernel) 0
    (by decide +kernel) (by decide +kernel)⟩

end AntRpc.Notify
