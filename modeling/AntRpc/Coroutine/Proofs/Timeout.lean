/-
The steps of `with_timeout` one by one, and how often the parent of a
child task is resumed.

# The parent

Two places resume it: `await_suspend` itself, if the task function gave
no coroutine, and the child's final suspension, if the promise has a
continuation by then. The child runs before the continuation is set, so
one that ends without having suspended, or that is resumed elsewhere and
ends before `set_continuation`, finds none, and nobody resumes the
parent afterwards.
-/
import AntRpc.Coroutine.Timeout
import AntRpc.Context.Proofs.Control

namespace AntRpc.Coroutine.Timeout

open Lib Context

variable {cfg : Control.Config} {s s' : State}

-- == the steps

/-- The steps of the context that announce no cancellation and take no
mailbox out. -/
inductive Quiet : Control.Action Poster Unit Mailbox → Prop
  | post (n : Nat) (cmd : Control.IoCommand Unit) :
      Quiet (.post (.other n) cmd)
  | notify (n m : Nat) : Quiet (.notify (.other n) (.other m))
  | producer (t : Poster) : Quiet (.producer t)
  | wakeup : Quiet .wakeup
  | drain : Quiet .drain

/-- What one action can do. -/
inductive Step (cfg : Control.Config) (s : State) : Action → State → Prop
  | launchTask (h : s.launcher = .launch) :
      Step cfg s (.launch true)
        { s with launcher := .inTask, child := .running }
  | launchNull (h : s.launcher = .launch) :
      Step cfg s (.launch false) { s with launcher := .resumeParent }
  | setStopToken (h : s.launcher = .setStopToken) :
      Step cfg s .launcher { s with
        promise := { s.promise with token := true }
        launcher := .setContinuation }
  | setContinuation (h : s.launcher = .setContinuation) :
      Step cfg s .launcher { s with
        promise := { s.promise with continuation := true }
        launcher := .addTimer }
  | resumeParent (h : s.launcher = .resumeParent) :
      Step cfg s .launcher
        { s with resumes := s.resumes + 1, launcher := .returned }
  | addTimer (h : s.launcher = .addTimer) :
      Step cfg s .launcher
        { s with timer := .waiting, launcher := .storeTimerId }
  | storeTimerId (h : s.launcher = .storeTimerId) :
      Step cfg s .launcher { s with timerId := true, launcher := .returned }
  | await (h : s.child = .running) :
      Step cfg s .await { s with
        child := .capture
        awaiter := some { id := s.nextId }
        nextId := s.nextId + 1 }
  | awaitElsewhere (h : s.child = .running) :
      Step cfg s .awaitElsewhere (s.suspend .elsewhere)
  | finish (h : s.child = .running) : Step cfg s .finish (finalSuspend s)
  | resume (h : s.child = .elsewhere) :
      Step cfg s .resume { s with child := .running }
  | tryBlocks {a : BaseAwaiter} (ha : s.awaiter = some a)
      (h : s.child = .tryIo) :
      Step cfg s (.tryIo none) { s with child := .bind }
  | tryEnds {a : BaseAwaiter} (n : Int) (ha : s.awaiter = some a)
      (h : s.child = .tryIo) :
      Step cfg s (.tryIo (some n)) { s with
        child := .resumed
        awaiter := some { a with res := n }
        completions := s.completions ++ [(a.id, n)] }
  | capture {a : BaseAwaiter} (ha : s.awaiter = some a)
      (h : s.child = .capture) :
      Step cfg s .child { s with
        child := .tryIo
        awaiter := some { a with
          token := s.promise.token
          early := s.launcher.beforeToken } }
  | bindEmpty {a : BaseAwaiter} (ha : s.awaiter = some a)
      (h : s.child = .bind) (ht : a.token = false) :
      Step cfg s .child (s.suspend .suspended)
  | bindRuns {a : BaseAwaiter} {c : Control.State Poster Unit Mailbox}
      (ha : s.awaiter = some a) (h : s.child = .bind)
      (ht : a.token = true) (hr : s.source.requested = true)
      (hc : Control.apply cfg (.notify .child (.cancel a.id)) s.context
        = some c) :
      Step cfg s .child { s with
        awaiter := some { a with callback := true }
        context := c
        child := .notifying }
  | bindRegisters {a : BaseAwaiter} (ha : s.awaiter = some a)
      (h : s.child = .bind) (ht : a.token = true)
      (hr : s.source.requested = false) :
      Step cfg s .child (State.suspend { s with
        awaiter := some { a with callback := true }
        source := { s.source with callback := some a.id } } .suspended)
  | bound {a : BaseAwaiter} (ha : s.awaiter = some a)
      (h : s.child = .notifying)
      (hi : s.context.producers .child = .idle) :
      Step cfg s .child (s.suspend .suspended)
  | dropAnchor {a : BaseAwaiter} (ha : s.awaiter = some a)
      (h : s.child = .resumed) :
      Step cfg s .child { s with
        child := .unbind, awaiter := some { a with anchor := false } }
  | unregister {a : BaseAwaiter} (ha : s.awaiter = some a)
      (h : s.child = .unbind) (hk : s.source.callback = some a.id) :
      Step cfg s .child { s with
        child := .running
        awaiter := none
        source := { s.source with callback := none } }
  | unbind {a : BaseAwaiter} (ha : s.awaiter = some a)
      (h : s.child = .unbind) :
      Step cfg s .child { s with child := .running, awaiter := none }
  | readyBlocks {a : BaseAwaiter} (ha : s.awaiter = some a)
      (h : s.child = .suspended) : Step cfg s (.ready none) s
  | ready {a : BaseAwaiter} (n : Int) (ha : s.awaiter = some a)
      (h : s.child = .suspended) :
      Step cfg s (.ready (some n)) (s.complete a n)
  | fire (h : s.timer = .waiting) :
      Step cfg s .fire { s with timer := .check }
  | checkRequested (h : s.timer = .check)
      (hr : s.source.requested = true) :
      Step cfg s .timer { s with timer := .done }
  | check (h : s.timer = .check) (hr : s.source.requested = false) :
      Step cfg s .timer { s with timer := .requestStop }
  | requestStop (h : s.timer = .requestStop) :
      Step cfg s .timer { s with
        source := { s.source with requested := true }
        timer := .callbacks }
  | callbacksDone (h : s.timer = .callbacks)
      (hk : s.source.callback = none) :
      Step cfg s .timer { s with timer := .done }
  | popCallback {k : Nat} (h : s.timer = .callbacks)
      (hk : s.source.callback = some k) :
      Step cfg s .timer { s with
        source := { s.source with callback := none }
        timer := .callback k }
  | runCallback {k : Nat} {c : Control.State Poster Unit Mailbox}
      (h : s.timer = .callback k)
      (hc : Control.apply cfg (.notify .timer (.cancel k)) s.context
        = some c) :
      Step cfg s .timer { s with context := c, timer := .notifying k }
  | callbackDone {k : Nat} (h : s.timer = .notifying k)
      (hi : s.context.producers .timer = .idle) :
      Step cfg s .timer { s with timer := .callbacks }
  | drains {c : Control.State Poster Unit Mailbox}
      (h : s.child.onIo = false)
      (hc : Control.apply cfg .io s.context = some c) :
      Step cfg s .loop
        (State.drain { s with context := c } (headMailbox s.context))
  | context {a : Action} {b : Control.Action Poster Unit Mailbox}
      {c : Control.State Poster Unit Mailbox} (hq : Quiet b)
      (hc : Control.apply cfg b s.context = some c) :
      Step cfg s a { s with context := c }
  | parent (h : s.taken < s.resumes) :
      Step cfg s .parent { s with
        taken := s.taken + 1
        timer :=
          if s.timerId = true ∧ s.timer = .waiting then .canceled
          else s.timer }

theorem post_some {b : Control.Action Poster Unit Mailbox}
    {after : State → State} (h : s.post cfg b after = some s') :
    ∃ c, Control.apply cfg b s.context = some c
      ∧ s' = after { s with context := c } := by
  obtain ⟨c, hc, rfl⟩ := Option.map_eq_some_iff.mp h
  exact ⟨c, hc, rfl⟩

/-- A quiet step of the context on its own. -/
theorem post_step {a : Action} {b : Control.Action Poster Unit Mailbox}
    (hq : Quiet b) (h : s.post cfg b id = some s') :
    Step cfg s a s' := by
  obtain ⟨c, hc, rfl⟩ := post_some h
  exact .context hq hc

theorem execLauncher_step (h : execLauncher s = some s') :
    Step cfg s .launcher s' := by
  unfold execLauncher at h
  split at h <;> cases h
  · next hp => exact .setStopToken hp
  · next hp => exact .setContinuation hp
  · next hp => exact .resumeParent hp
  · next hp => exact .addTimer hp
  · next hp => exact .storeTimerId hp

theorem bindStopCallback_step {a : BaseAwaiter} (ha : s.awaiter = some a)
    (hchild : s.child = .bind)
    (h : bindStopCallback cfg s a = some s') : Step cfg s .child s' := by
  unfold bindStopCallback at h
  split at h
  · next ht =>
    dsimp only at h
    split at h
    · next hr =>
      obtain ⟨c, hc, rfl⟩ := post_some h
      exact .bindRuns ha hchild ht hr hc
    · next hr =>
      cases h
      exact .bindRegisters ha hchild ht (Bool.eq_false_iff.mpr hr)
  · next ht =>
    cases h
    exact .bindEmpty ha hchild (Bool.eq_false_iff.mpr ht)

theorem destroyCallback_step {a : BaseAwaiter} (ha : s.awaiter = some a)
    (hchild : s.child = .unbind)
    (h : destroyCallback s a = some s') : Step cfg s .child s' := by
  unfold destroyCallback at h
  dsimp only at h
  split at h
  · next hk =>
    cases h
    exact .unregister ha hchild hk.2
  · split at h <;> cases h
    exact .unbind ha hchild

theorem execChild_step (h : execChild cfg s = some s') :
    Step cfg s .child s' := by
  unfold execChild at h
  split at h
  · cases h
  · next a ha =>
    split at h
    · next hp =>
      cases h
      exact .capture ha hp
    · next hp => exact bindStopCallback_step ha hp h
    · next hp =>
      split at h
      · next hi =>
        cases h
        exact .bound ha hp hi
      · exact post_step (.producer _) h
    · next hp =>
      cases h
      exact .dropAnchor ha hp
    · next hp => exact destroyCallback_step ha hp h
    all_goals cases h

theorem tryIo_step {outcome : Option Int}
    (h : tryIo outcome s = some s') : Step cfg s (.tryIo outcome) s' := by
  unfold tryIo at h
  split at h
  · cases h
  · next a ha =>
    split at h
    · next hp =>
      cases outcome with
      | none =>
          cases h
          exact .tryBlocks ha hp
      | some n =>
          cases h
          exact .tryEnds n ha hp
    · cases h

theorem onComplete_step {outcome : Option Int}
    (h : onComplete outcome s = some s') :
    Step cfg s (.ready outcome) s' := by
  unfold onComplete at h
  split at h
  · cases h
  · next a ha =>
    split at h
    · next hp =>
      cases outcome with
      | none =>
          cases h
          exact .readyBlocks ha hp.1
      | some n =>
          cases h
          exact .ready n ha hp.1
    · cases h

theorem execTimer_step (h : execTimer cfg s = some s') :
    Step cfg s .timer s' := by
  unfold execTimer at h
  split at h
  · cases h
  · cases h
  · cases h
  · cases h
  · next hp =>
    split at h <;> cases h
    · next hr => exact .checkRequested hp hr
    · next hr => exact .check hp (Bool.eq_false_iff.mpr hr)
  · next hp =>
    cases h
    exact .requestStop hp
  · next hp =>
    split at h <;> cases h
    · next hk => exact .callbacksDone hp hk
    · next hk => exact .popCallback hp hk
  · next hp =>
    obtain ⟨c, hc, rfl⟩ := post_some h
    exact .runCallback hp hc
  · next hp =>
    split at h
    · next hi =>
      cases h
      exact .callbackDone hp hi
    · exact post_step (.producer _) h

theorem execLoop_step (h : execLoop cfg s = some s') :
    Step cfg s .loop s' := by
  unfold execLoop at h
  split at h
  · cases h
  · next hio =>
    split at h
    · split at h
      · exact post_step .drain h
      · cases h
    · obtain ⟨c, hc, rfl⟩ := post_some h
      exact .drains (Bool.eq_false_iff.mpr hio) hc

theorem apply_step {a : Action} (h : apply cfg a s = some s') :
    Step cfg s a s' := by
  cases a with
  | launch engaged =>
      simp only [apply] at h
      split at h
      · next hp =>
        cases engaged with
        | true =>
            cases h
            exact .launchTask hp
        | false =>
            cases h
            exact .launchNull hp
      · cases h
  | launcher => exact execLauncher_step h
  | await =>
      simp only [apply] at h
      split at h <;> cases h
      next hp => exact .await hp
  | awaitElsewhere =>
      simp only [apply] at h
      split at h <;> cases h
      next hp => exact .awaitElsewhere hp
  | finish =>
      simp only [apply] at h
      split at h <;> cases h
      next hp => exact .finish hp
  | resume =>
      simp only [apply] at h
      split at h <;> cases h
      next hp => exact .resume hp
  | tryIo outcome => exact tryIo_step h
  | child => exact execChild_step h
  | ready outcome => exact onComplete_step h
  | fire =>
      simp only [apply] at h
      split at h <;> cases h
      next hp => exact .fire hp
  | timer => exact execTimer_step h
  | loop => exact execLoop_step h
  | otherPosts n cmd => exact post_step (.post n cmd) h
  | otherNotifies n mailbox => exact post_step (.notify n mailbox) h
  | other n => exact post_step (.producer _) h
  | wakeup => exact post_step .wakeup h
  | parent =>
      simp only [apply] at h
      split at h <;> cases h
      next hp => exact .parent hp

/-- A mailbox does nothing, or it cancels the awaiter that is there. -/
theorem drain_cases (s : State) (m : Option Mailbox) :
    s.drain m = s
      ∨ ∃ a, s.awaiter = some a ∧ m = some (.cancel a.id) ∧ a.done = false
        ∧ s.drain m = s.complete a (-ecanceled) := by
  unfold State.drain
  split
  · next k =>
    split
    · next a ha =>
      by_cases hk : a.id = k ∧ a.anchor = true
      · rw [if_pos hk]
        unfold State.cancelOnIoThread
        split
        · exact .inl rfl
        · next hd =>
          exact .inr ⟨a, ha, by rw [hk.1], Bool.eq_false_iff.mpr hd, rfl⟩
      · rw [if_neg hk]
        exact .inl rfl
    · exact .inl rfl
  · exact .inl rfl
  · exact .inl rfl

/-- The first completion of an awaiter resumes the child. -/
theorem complete_open {a : BaseAwaiter} {n : Int} (h : a.done = false) :
    s.complete a n = { s with
      awaiter := some { a with res := n, done := true }
      child := .resumed
      completions := s.completions ++ [(a.id, n)] } := by
  simp [State.complete, h]

-- == the parent

/-- The child has started and is not over. -/
def ChildPc.live : ChildPc → Bool
  | .absent | .finished => false
  | .running | .capture | .tryIo | .bind | .notifying | .suspended
  | .elsewhere | .resumed | .unbind => true

/-- The child is at an awaiter. -/
def ChildPc.inAwait : ChildPc → Bool
  | .capture | .tryIo | .bind | .notifying | .suspended | .resumed
  | .unbind => true
  | .absent | .running | .elsewhere | .finished => false

/-- The child is over: it has ended, or there was none and
`await_suspend` has dealt with that. -/
def State.ended (s : State) : Bool :=
  match s.child with
  | .finished => true
  | .absent => s.launcher = .returned
  | _ => false

/-- The child does not end before its continuation is set. -/
def attached (s : State) (a : Action) : Bool :=
  a ≠ .finish ∨ s.promise.continuation = true

/-- Where the child and `await_suspend` can stand together; `Tally`
relates the parent's resumptions so far to whether the child is over. -/
structure Once (Tally : Nat → Bool → Prop) (s : State) : Prop where
  starting : s.launcher = .launch ∨ s.launcher = .resumeParent →
    s.child = .absent
  absent : s.child = .absent → s.launcher = .launch
    ∨ s.launcher = .resumeParent ∨ s.launcher = .returned
  awaiter : s.awaiter.isSome = s.child.inAwait
  tally : Tally s.resumes s.ended

theorem ended_of_live (h : s.child.live = true) : s.ended = false := by
  unfold State.ended
  split
  · next hp =>
    rw [hp] at h
    cases h
  · next hp =>
    rw [hp] at h
    cases h
  · rfl

theorem leave_started {l : LauncherPc}
    (h : l.leave = .launch ∨ l.leave = .resumeParent) :
    l = .launch ∨ l = .resumeParent := by
  cases l <;> simp_all [LauncherPc.leave]

section Once

variable {Tally : Nat → Bool → Prop}

/-- The child goes on, perhaps to suspend. -/
theorem Once.goOn (h : Once Tally s) (hlive : s.child.live = true)
    (hlive' : s'.child.live = true)
    (hlauncher : s'.launcher = s.launcher
      ∨ s'.launcher = s.launcher.leave)
    (hawaiter : s'.awaiter.isSome = s'.child.inAwait)
    (hresumes : s'.resumes = s.resumes) : Once Tally s' := by
  refine ⟨fun hl => ?_, fun hp => ?_, hawaiter, ?_⟩
  · have hl' : s.launcher = .launch ∨ s.launcher = .resumeParent := by
      rcases hlauncher with heq | heq
      · rwa [heq] at hl
      · rw [heq] at hl
        exact leave_started hl
    rw [h.starting hl'] at hlive
    cases hlive
  · rw [hp] at hlive'
    cases hlive'
  · have htally := h.tally
    rw [ended_of_live hlive] at htally
    rwa [hresumes, ended_of_live hlive']

/-- An awaiter that completes lets its child go on. -/
theorem Once.complete (h : Once Tally s) {a : BaseAwaiter} {n : Int}
    (ha : s.awaiter = some a) : Once Tally (s.complete a n) := by
  have hin : s.child.inAwait = true := by
    rw [← h.awaiter, ha]
    rfl
  have hlive : s.child.live = true := by
    cases hp : s.child <;> rw [hp] at hin <;> first | rfl | cases hin
  unfold State.complete
  dsimp only
  split
  · exact ⟨h.starting, h.absent, hin.symm, h.tally⟩
  · exact h.goOn hlive rfl (.inl rfl) rfl rfl

/-- What a drain takes out. -/
theorem Once.drain (h : Once Tally s) (m : Option Mailbox) :
    Once Tally (s.drain m) := by
  rcases drain_cases s m with heq | ⟨a, ha, -, -, heq⟩
  · rw [heq]
    exact h
  · rw [heq]
    exact h.complete ha

/-- Nothing the parent's resumption depends on changes. -/
theorem Once.same (h : Once Tally s) (hlauncher : s'.launcher = s.launcher)
    (hchild : s'.child = s.child) (hawaiter : s'.awaiter = s.awaiter)
    (hresumes : s'.resumes = s.resumes) : Once Tally s' := by
  have hended : s'.ended = s.ended := by
    unfold State.ended
    rw [hchild, hlauncher]
  refine ⟨?_, ?_, ?_, ?_⟩
  · rw [hlauncher, hchild]
    exact h.starting
  · rw [hlauncher, hchild]
    exact h.absent
  · rw [hawaiter, hchild]
    exact h.awaiter
  · rw [hresumes, hended]
    exact h.tally

/-- `await_suspend` goes on after a task function that has started a
child. -/
theorem Once.install (h : Once Tally s) {l : LauncherPc}
    (hl : s.launcher = l)
    (hbefore : l ≠ .launch ∧ l ≠ .resumeParent ∧ l ≠ .returned)
    (hafter : s'.launcher ≠ .launch ∧ s'.launcher ≠ .resumeParent)
    (hchild : s'.child = s.child) (hawaiter : s'.awaiter = s.awaiter)
    (hresumes : s'.resumes = s.resumes) : Once Tally s' := by
  have hpresent : s.child ≠ .absent := by
    intro hp
    rcases h.absent hp with heq | heq | heq
    · exact hbefore.1 (hl.symm.trans heq)
    · exact hbefore.2.1 (hl.symm.trans heq)
    · exact hbefore.2.2 (hl.symm.trans heq)
  have hended : s'.ended = s.ended := by
    unfold State.ended
    rw [hchild]
    split
    · rfl
    · next hp => exact absurd hp hpresent
    · rfl
  refine ⟨fun hl' => ?_, fun hp => ?_, ?_, ?_⟩
  · exact absurd hl' (not_or.mpr hafter)
  · exact absurd (hchild.symm.trans hp) hpresent
  · rw [hawaiter, hchild]
    exact h.awaiter
  · rw [hresumes, hended]
    exact h.tally

variable (hup : ∀ n, Tally n false → Tally (n + 1) true)

include hup

/-- The child ends, and transfers to its continuation if that is set. -/
theorem Once.finish (h : Once Tally s) (hp : s.child = .running)
    (hskip : s.promise.continuation = false →
      ∀ n, Tally n false → Tally n true) :
    Once Tally (finalSuspend s) := by
  have hnone : s.awaiter.isSome = false := by
    rw [h.awaiter, hp]
    rfl
  have hstart : s.launcher.leave = .launch
      ∨ s.launcher.leave = .resumeParent → ChildPc.finished = .absent := by
    intro hl
    have habs := h.starting (leave_started hl)
    rw [hp] at habs
    cases habs
  have htally := h.tally
  rw [ended_of_live (by rw [hp]; rfl)] at htally
  unfold finalSuspend
  dsimp only
  split
  · exact ⟨hstart, nofun, hnone, hup _ htally⟩
  · next hc =>
    exact ⟨hstart, nofun, hnone,
      hskip (Bool.eq_false_iff.mpr hc) _ htally⟩

theorem once_step {a : Action} (h : Once Tally s)
    (hskip : attached s a = false → ∀ n, Tally n false → Tally n true)
    (hstep : Step cfg s a s') : Once Tally s' := by
  have hnone : s.child = .running → s.awaiter.isSome = false := by
    intro hp
    rw [h.awaiter, hp]
    rfl
  have htally := h.tally
  cases hstep with
  | launchTask hl =>
      have hp := h.starting (.inl hl)
      rw [State.ended, hp, hl] at htally
      refine ⟨nofun, nofun, ?_, htally⟩
      show s.awaiter.isSome = false
      rw [h.awaiter, hp]
      rfl
  | launchNull hl =>
      have hp := h.starting (.inl hl)
      refine ⟨fun _ => hp, fun _ => .inr (.inl rfl), h.awaiter, ?_⟩
      rw [State.ended, hp, hl] at htally
      rw [State.ended, hp]
      exact htally
  | resumeParent hl =>
      have hp := h.starting (.inr hl)
      refine ⟨nofun, fun _ => .inr (.inr rfl), h.awaiter, ?_⟩
      rw [State.ended, hp, hl] at htally
      rw [State.ended, hp]
      exact hup _ htally
  | setStopToken hl | setContinuation hl | addTimer hl
  | storeTimerId hl =>
      exact h.install hl ⟨nofun, nofun, nofun⟩ ⟨nofun, nofun⟩ rfl rfl rfl
  | finish hp =>
      refine h.finish hup hp fun hc => hskip ?_
      simp [attached, hc]
  | await hp =>
      exact h.goOn (by rw [hp]; rfl) rfl (.inl rfl) rfl rfl
  | awaitElsewhere hp =>
      exact h.goOn (by rw [hp]; rfl) rfl (.inr rfl) (hnone hp) rfl
  | resume hp =>
      refine h.goOn (by rw [hp]; rfl) rfl (.inl rfl) ?_ rfl
      show s.awaiter.isSome = false
      rw [h.awaiter, hp]
      rfl
  | tryBlocks ha hp =>
      exact h.goOn (by rw [hp]; rfl) rfl (.inl rfl)
        (Option.isSome_iff_exists.mpr ⟨_, ha⟩) rfl
  | bindEmpty ha hp _ | bound ha hp _ =>
      exact h.goOn (by rw [hp]; rfl) rfl (.inr rfl)
        (Option.isSome_iff_exists.mpr ⟨_, ha⟩) rfl
  | bindRegisters _ hp _ _ =>
      exact h.goOn (by rw [hp]; rfl) rfl (.inr rfl) rfl rfl
  | tryEnds _ _ hp | capture _ hp | bindRuns _ hp _ _ _
  | dropAnchor _ hp | unregister _ hp _ | unbind _ hp =>
      exact h.goOn (by rw [hp]; rfl) rfl (.inl rfl) rfl rfl
  | ready n ha _ => exact h.complete ha
  | @drains c _ _ =>
      have hsame : Once Tally { s with context := c } :=
        h.same rfl rfl rfl rfl
      exact hsame.drain _
  | readyBlocks _ _ => exact h
  | fire _ | checkRequested _ _ | check _ _ | requestStop _
  | callbacksDone _ _ | popCallback _ _ | runCallback _ _
  | callbackDone _ _ | context _ _ | parent _ =>
      exact h.same rfl rfl rfl rfl

theorem once_reach {ok : State → Action → Prop} (hzero : Tally 0 false)
    (hskip : ∀ s a, ok s a → attached s a = false →
      ∀ n, Tally n false → Tally n true)
    (h : (machine cfg).Reach ok s) : Once Tally s := by
  refine h.invariant (I := Once Tally) ?_ fun _ _ _ _ ho hok hs =>
    once_step hup ho (hskip _ _ hok) (apply_step hs)
  rintro _ rfl
  exact ⟨fun _ => rfl, fun _ => .inl rfl, rfl, hzero⟩

end Once

/-- **Never twice.** In every run the parent is resumed at most once, and
not before the child is over. -/
theorem parent_resumed_le (h : (machine cfg).Reachable s) :
    s.resumes ≤ if s.ended = true then 1 else 0 := by
  have honce : Once (fun n e => n ≤ if e = true then 1 else 0) s :=
    once_reach (fun _ hn => Nat.succ_le_succ hn) (Nat.le_refl 0)
      (fun _ _ _ _ _ hn => Nat.le_succ_of_le hn) h
  exact honce.tally

/-- **The parent is resumed once.** If the child does not end before its
continuation is set, the parent has been resumed exactly once when the
child is over, whatever it suspended on, how often and whoever resumed
it, and not at all before. -/
theorem parent_resumed_once (cfg : Control.Config) (s : State)
    (h : (machine cfg).Reach (fun s a => attached s a = true) s) :
    s.resumes = if s.ended = true then 1 else 0 := by
  have honce : Once (fun n e => n = if e = true then 1 else 0) s := by
    refine once_reach (fun _ hn => congrArg Nat.succ hn) rfl ?_ h
    intro _ _ hok hlost
    rw [hok] at hlost
    cases hlost
  exact honce.tally

/-- A child that suspends on something else while it is launched, then on
a socket, where the timer finds it; it ends when its awaiter is
canceled. -/
def timedOutRun : List Action :=
  [.launch true, .awaitElsewhere, .launcher, .launcher, .launcher,
    .launcher, .resume, .await, .child, .tryIo none, .child, .fire,
    .timer, .timer, .timer, .timer, .timer, .timer, .timer, .loop, .loop,
    .loop, .loop, .loop, .loop, .child, .child, .finish]

def timedOutState : State :=
  (machine ⟨true, true⟩).finalWhile attached timedOutRun {}

theorem timedOut_resumed_once :
    timedOutState.completions = [(0, -ecanceled)]
      ∧ timedOutState.ended = true
      ∧ timedOutState.resumes
        = if timedOutState.ended = true then 1 else 0 :=
  ⟨by decide +kernel, by decide +kernel, parent_resumed_once ⟨true, true⟩
    timedOutState (Machine.reach_finalWhile rfl (by decide +kernel))⟩

-- == a lost parent

/-- The child is over and so is `await_suspend`. -/
structure Over (s : State) : Prop where
  child : s.child = .finished
  launcher : s.launcher = .returned
  awaiter : s.awaiter = none

/-- From there nobody resumes the parent. -/
theorem over_step {a : Action} (h : Over s) (hstep : Step cfg s a s') :
    Over s' ∧ s'.resumes = s.resumes := by
  obtain ⟨hchild, hlauncher, hawaiter⟩ := h
  cases hstep with
  | launchTask hl | launchNull hl | setStopToken hl | setContinuation hl
  | resumeParent hl | addTimer hl | storeTimerId hl =>
      rw [hlauncher] at hl
      cases hl
  | await hp | awaitElsewhere hp | finish hp | resume hp =>
      rw [hchild] at hp
      cases hp
  | tryBlocks ha _ | tryEnds _ ha _ | capture ha _ | bindEmpty ha _ _
  | bindRuns ha _ _ _ _ | bindRegisters ha _ _ _ | bound ha _ _
  | dropAnchor ha _ | unregister ha _ _ | unbind ha _
  | readyBlocks ha _ | ready _ ha _ =>
      rw [hawaiter] at ha
      cases ha
  | @drains c _ _ =>
      rcases drain_cases { s with context := c } (headMailbox s.context)
        with heq | ⟨a, ha, -⟩
      · rw [heq]
        exact ⟨⟨hchild, hlauncher, hawaiter⟩, rfl⟩
      · exact absurd (hawaiter.symm.trans ha) nofun
  | _ =>
      exact ⟨⟨hchild, hlauncher, hawaiter⟩, rfl⟩

/-- A child that ends without having suspended. -/
def eagerState : State :=
  (machine ⟨true, true⟩).final
    [.launch true, .finish, .launcher, .launcher, .launcher, .launcher] {}

/-- Its parent is never resumed: not by then, and not later. -/
theorem eager_never_resumed :
    (machine ⟨true, true⟩).Reachable eagerState
      ∧ eagerState.ended = true ∧ eagerState.launcher = .returned
      ∧ ∀ s, ((machine ⟨true, true⟩).startedAt eagerState).Reachable s →
        s.resumes = 0 := by
  refine ⟨Machine.reachable_final rfl (by decide), by decide, by decide,
    fun s h => ?_⟩
  have hover : Over s ∧ s.resumes = 0 := by
    refine h.invariant (I := fun s => Over s ∧ s.resumes = 0) ?_
      fun s s' a _ ho _ hs => ?_
    · rintro _ rfl
      exact ⟨⟨by decide, by decide, by decide⟩, by decide⟩
    · obtain ⟨hover, heq⟩ := over_step ho.1 (apply_step hs)
      exact ⟨hover, heq.trans ho.2⟩
  exact hover.2

theorem eager_resumed_le : eagerState.ended = true
    ∧ eagerState.resumes ≤ if eagerState.ended = true then 1 else 0 :=
  ⟨by decide, parent_resumed_le (Machine.reachable_final rfl (by decide))⟩

end AntRpc.Coroutine.Timeout
