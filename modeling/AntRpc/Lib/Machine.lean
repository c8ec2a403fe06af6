/-
Labelled transition machines: a start condition and a partial function
that applies one action. An interleaving is a list of actions; a state
is reachable when some interleaving leads to it.

# Conditions on runs

`Reach ok` are the states reached by runs whose every step met the
condition `ok` in the state before it. With the trivial condition it is
plain reachability, so one induction serves both.

`Leads kind` says that actions of one kind lead from a state to another:
what somebody can bring about without the others.

# Layers

A machine refines another along a view of its states when every step is
a step of the other machine on the views, or leaves the view alone
(`Refines`). Reachability then goes through the view (`Refines.reach`),
and with it every invariant of the abstract machine.
-/
import Mathlib

namespace AntRpc.Lib

/-- A transition machine: where it may start and what an action does,
if it is enabled. -/
structure Machine (σ α : Type) where
  start : σ → Prop
  apply : α → σ → Option σ

variable {σ α σ₁ α₁ : Type}

/-- The states reached by runs whose every step met `ok`. -/
inductive Machine.Reach (m : Machine σ α) (ok : σ → α → Prop) : σ → Prop
  | start {s : σ} (h : m.start s) : m.Reach ok s
  | step {s s' : σ} {a : α} (h : m.Reach ok s) (hok : ok s a)
      (hs : m.apply a s = some s') : m.Reach ok s'

/-- The states any run reaches. -/
abbrev Machine.Reachable (m : Machine σ α) : σ → Prop :=
  m.Reach fun _ _ => True

/-- Apply a list of actions in order. -/
def Machine.run (m : Machine σ α) : List α → σ → Option σ
  | [], s => some s
  | a :: as, s => (m.apply a s).bind (m.run as)

/-- Apply a list of actions in order, as long as each meets `ok`. -/
def Machine.runWhile (m : Machine σ α) (ok : σ → α → Bool) :
    List α → σ → Option σ
  | [], s => some s
  | a :: as, s =>
      if ok s a then (m.apply a s).bind (m.runWhile ok as) else none

/-- What holds at the start and is kept by every step that meets the
condition holds in every state reached. -/
theorem Machine.Reach.invariant {m : Machine σ α} {ok : σ → α → Prop}
    {I : σ → Prop} (hstart : ∀ s, m.start s → I s)
    (hstep : ∀ s s' a, m.Reach ok s → I s → ok s a →
      m.apply a s = some s' → I s')
    {s : σ} (h : m.Reach ok s) : I s := by
  induction h with
  | start h => exact hstart _ h
  | step h hok hs ih => exact hstep _ _ _ h ih hok hs

/-- A weaker condition reaches at least as much. -/
theorem Machine.Reach.weaken {m : Machine σ α} {ok ok' : σ → α → Prop}
    (himp : ∀ s a, ok s a → ok' s a) {s : σ} (h : m.Reach ok s) :
    m.Reach ok' s := by
  induction h with
  | start h => exact .start h
  | step _ hok hs ih => exact ih.step (himp _ _ hok) hs

/-- A run from a start state ends in a reachable state. -/
theorem Machine.reachable_of_run {m : Machine σ α} {as : List α}
    {s s' : σ} (h : m.Reachable s) (hr : m.run as s = some s') :
    m.Reachable s' := by
  induction as generalizing s with
  | nil =>
      injection hr with hr
      exact hr ▸ h
  | cons a as ih =>
      obtain ⟨s₁, h1, h2⟩ := Option.bind_eq_some_iff.mp hr
      exact ih (h.step trivial h1) h2

/-- A run whose steps meet a condition reaches under that condition. -/
theorem Machine.reach_of_runWhile {m : Machine σ α} {ok : σ → α → Bool}
    {as : List α} {s s' : σ} (h : m.Reach (fun s a => ok s a = true) s)
    (hr : m.runWhile ok as s = some s') :
    m.Reach (fun s a => ok s a = true) s' := by
  induction as generalizing s with
  | nil =>
      injection hr with hr
      exact hr ▸ h
  | cons a as ih =>
      simp only [runWhile] at hr
      split at hr
      · next hok =>
        obtain ⟨s₁, h1, h2⟩ := Option.bind_eq_some_iff.mp hr
        exact ih (h.step hok h1) h2
      · cases hr

/-- Where a run leads, or the state it started from if it gets stuck. -/
def Machine.final (m : Machine σ α) (as : List α) (s : σ) : σ :=
  (m.run as s).getD s

theorem Machine.reachable_final {m : Machine σ α} {as : List α} {s : σ}
    (h : m.start s) (hr : (m.run as s).isSome = true) :
    m.Reachable (m.final as s) := by
  obtain ⟨s', hs'⟩ := Option.isSome_iff_exists.mp hr
  have heq : m.final as s = s' := by rw [final, hs', Option.getD_some]
  rw [heq]
  exact reachable_of_run (.start h) hs'

/-- The same for a single step. -/
theorem Machine.apply_final {m : Machine σ α} {a : α} {s : σ}
    (h : (m.apply a s).isSome = true) :
    m.apply a s = some (m.final [a] s) := by
  obtain ⟨s', hs'⟩ := Option.isSome_iff_exists.mp h
  rw [final, run, hs']
  rfl

/-- Where a run under a condition leads. -/
def Machine.finalWhile (m : Machine σ α) (ok : σ → α → Bool) (as : List α)
    (s : σ) : σ :=
  (m.runWhile ok as s).getD s

theorem Machine.reach_finalWhile {m : Machine σ α} {ok : σ → α → Bool}
    {as : List α} {s : σ} (h : m.start s)
    (hr : (m.runWhile ok as s).isSome = true) :
    m.Reach (fun s a => ok s a = true) (m.finalWhile ok as s) := by
  obtain ⟨s', hs'⟩ := Option.isSome_iff_exists.mp hr
  have heq : m.finalWhile ok as s = s' := by
    rw [finalWhile, hs', Option.getD_some]
  rw [heq]
  exact reach_of_runWhile (.start h) hs'

-- == onward

/-- The same machine, started in a given state. -/
def Machine.startedAt (m : Machine σ α) (s₀ : σ) : Machine σ α where
  start := (· = s₀)
  apply := m.apply

/-- What runs onward from a reachable state reach is reachable. -/
theorem Machine.Reachable.onward {m : Machine σ α} {s₀ s : σ}
    {ok : σ → α → Prop} (h₀ : m.Reachable s₀)
    (h : (m.startedAt s₀).Reach ok s) : m.Reachable s := by
  induction h with
  | start h => exact h ▸ h₀
  | step _ _ hs ih => exact ih.step trivial hs

/-- Some run by actions of one kind leads from `s` to `s'`. -/
def Machine.Leads (m : Machine σ α) (kind : α → Prop) (s s' : σ) : Prop :=
  ∃ as, (∀ a ∈ as, kind a) ∧ m.run as s = some s'

theorem Machine.Leads.refl {m : Machine σ α} {kind : α → Prop} (s : σ) :
    m.Leads kind s s := ⟨[], nofun, rfl⟩

theorem Machine.Leads.head {m : Machine σ α} {kind : α → Prop} {a : α}
    {s s₁ s' : σ} (ha : kind a) (hs : m.apply a s = some s₁)
    (h : m.Leads kind s₁ s') : m.Leads kind s s' := by
  obtain ⟨as, has, hrun⟩ := h
  refine ⟨a :: as, List.forall_mem_cons.mpr ⟨ha, has⟩, ?_⟩
  rw [Machine.run, hs]
  exact hrun

theorem Machine.Leads.trans {m : Machine σ α} {kind : α → Prop}
    {s s₁ s' : σ} (h : m.Leads kind s s₁) (h' : m.Leads kind s₁ s') :
    m.Leads kind s s' := by
  obtain ⟨as, has, hrun⟩ := h
  induction as generalizing s with
  | nil =>
      cases hrun
      exact h'
  | cons a as ih =>
      obtain ⟨ha, has⟩ := List.forall_mem_cons.mp has
      obtain ⟨s₂, hs, hrun⟩ := Option.bind_eq_some_iff.mp hrun
      exact .head ha hs (ih has hrun)

theorem Machine.Leads.weaken {m : Machine σ α} {kind kind' : α → Prop}
    {s s' : σ} (h : m.Leads kind s s') (himp : ∀ a, kind a → kind' a) :
    m.Leads kind' s s' := by
  obtain ⟨as, has, hrun⟩ := h
  exact ⟨as, fun a ha => himp a (has a ha), hrun⟩

/-- What every action of the kind keeps is kept on the way. -/
theorem Machine.Leads.keeps {m : Machine σ α} {kind : α → Prop}
    {I : σ → Prop} (hstep : ∀ s s' a, kind a → m.apply a s = some s' →
      I s → I s') {s s' : σ} (h : m.Leads kind s s') (hs : I s) : I s' := by
  obtain ⟨as, has, hrun⟩ := h
  induction as generalizing s with
  | nil =>
      cases hrun
      exact hs
  | cons a as ih =>
      obtain ⟨ha, has⟩ := List.forall_mem_cons.mp has
      obtain ⟨s₂, hs₂, hrun⟩ := Option.bind_eq_some_iff.mp hrun
      exact ih (hstep _ _ a ha hs₂ hs) has hrun

theorem Machine.Leads.reachable {m : Machine σ α} {kind : α → Prop}
    {s s' : σ} (h : m.Leads kind s s') (hs : m.Reachable s) :
    m.Reachable s' :=
  h.keeps (fun _ _ _ _ hap hr => hr.step trivial hap) hs

-- == layers

/-- `m` refines `m₁` along `view`, in the runs under `ok`: a step of `m`
is a step of `m₁` on the views or leaves the view alone. -/
structure Machine.Refines (m : Machine σ α) (m₁ : Machine σ₁ α₁)
    (view : σ → σ₁) (ok : σ → α → Prop) : Prop where
  start : ∀ s, m.start s → m₁.start (view s)
  step : ∀ s s' a, m.Reach ok s → ok s a → m.apply a s = some s' →
    view s' = view s ∨ ∃ b, m₁.apply b (view s) = some (view s')

/-- Reachability goes through the view. -/
theorem Machine.Refines.reach {m : Machine σ α} {m₁ : Machine σ₁ α₁}
    {view : σ → σ₁} {ok : σ → α → Prop} (hr : m.Refines m₁ view ok)
    {s : σ} (h : m.Reach ok s) : m₁.Reachable (view s) := by
  induction h with
  | start h => exact .start (hr.start _ h)
  | step h hok hs ih =>
      cases hr.step _ _ _ h hok hs with
      | inl heq => exact heq ▸ ih
      | inr hb =>
          obtain ⟨b, hb⟩ := hb
          exact ih.step trivial hb

end AntRpc.Lib
