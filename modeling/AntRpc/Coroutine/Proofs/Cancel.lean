/-
A timeout reaches the socket the child waits for, unless the child came
to wait there before it had a token.

# What is owed

An awaiter with a token is owed a cancellation from the moment its
callback is registered: the callback is still in the source, or the
timer's thread has taken it out and is about to run it, or the mailbox
has been announced to the IO thread (`Owed`). The steps of the timer
move it along this line and lose nothing; a callback bound after the
stop was requested runs at once, which is the same as the end of the
line. An awaiter without a token is owed nothing, ever.

# From there to the completion

While the child waits, the announced mailbox has not been taken out yet
(`undrained`): taking it out would have completed the awaiter. So it is
in the queue, and the IO thread's own guarantee that a queued mailbox is
taken out without anybody's help (`Context.Proofs.Control`) becomes a
run of the timer's thread, the posters and the loop that ends with
`-ECANCELED`.
-/
import AntRpc.Coroutine.Proofs.Timeout

namespace AntRpc.Coroutine.Timeout

open Lib Context

variable {cfg : Control.Config} {s s' : State}

-- == the context

section Context

variable {c₀ c : Control.State Poster Unit Mailbox}

theorem notify_effect {t : Poster} {m : Mailbox}
    (hc : Control.apply cfg (.notify t m) c₀ = some c) :
    c.announced = c₀.announced ++ [m] ∧ c.drained = c₀.drained
      ∧ c.producers = Function.update c₀.producers t .exchange := by
  simp only [Control.apply] at hc
  split at hc <;> cases hc
  exact ⟨rfl, rfl, rfl⟩

theorem io_effect (hc : Control.apply cfg .io c₀ = some c) :
    c.announced = c₀.announced
      ∧ c.drained = c₀.drained ++ (headMailbox c₀).toList
      ∧ c.producers = c₀.producers := by
  simp only [Control.apply, Control.execDrain] at hc
  unfold headMailbox
  split at hc
  · cases hc
  · next hio =>
    rw [hio, if_neg (by rintro ⟨⟩), Option.toList_none, List.append_nil]
    split at hc <;> cases hc <;> exact ⟨rfl, rfl, rfl⟩
  · next hio =>
    rw [hio, if_neg (by rintro ⟨⟩), Option.toList_none, List.append_nil]
    cases hc
    exact ⟨rfl, rfl, rfl⟩
  · next hio =>
    rw [hio, if_neg (by rintro ⟨⟩), Option.toList_none, List.append_nil]
    split at hc <;> cases hc <;> exact ⟨rfl, rfl, rfl⟩
  · next hio =>
    rw [if_pos hio]
    split at hc
    · next hms =>
      cases hc
      rw [hms]
      exact ⟨rfl, (List.append_nil _).symm, rfl⟩
    · next hms =>
      cases hc
      rw [hms]
      exact ⟨rfl, rfl, rfl⟩

/-- A quiet step announces no cancellation, takes nothing out and starts
nothing for the timer or the child. -/
theorem quiet_effect {b : Control.Action Poster Unit Mailbox}
    (hq : Quiet b) (hc : Control.apply cfg b c₀ = some c) :
    (∀ k, .cancel k ∈ c.announced ↔ .cancel k ∈ c₀.announced)
      ∧ c.drained = c₀.drained
      ∧ ∀ t, (∀ n, t ≠ .other n) → c₀.producers t = .idle →
        c.producers t = .idle := by
  cases hq with
  | post n cmd =>
      simp only [Control.apply] at hc
      split at hc <;> cases hc
      refine ⟨fun _ => Iff.rfl, rfl, fun t ht hi => ?_⟩
      exact (Function.update_of_ne (ht n) ..).trans hi
  | notify n m =>
      obtain ⟨hann, hdr, hprod⟩ := notify_effect hc
      refine ⟨fun k => ?_, hdr, fun t ht hi => ?_⟩
      · rw [hann]
        simp
      · rw [hprod, Function.update_of_ne (ht n)]
        exact hi
  | producer t =>
      simp only [Control.apply, Control.execProducer] at hc
      split at hc
      · cases hc
      · next hp =>
        cases hc
        refine ⟨fun _ => Iff.rfl, rfl, fun u _ hi => ?_⟩
        have hne : u ≠ t := by
          rintro rfl
          rw [hp] at hi
          cases hi
        exact (Function.update_of_ne hne ..).trans hi
      · next hp =>
        cases hc
        rw [Control.wakeup_same]
        refine ⟨fun _ => Iff.rfl, rfl, fun u _ hi => ?_⟩
        have hne : u ≠ t := by
          rintro rfl
          rw [hp] at hi
          cases hi
        exact (Function.update_of_ne hne ..).trans hi
  | wakeup =>
      cases hc
      rw [Control.wakeup_same]
      exact ⟨fun _ => Iff.rfl, rfl, fun _ _ hi => hi⟩
  | drain =>
      simp only [Control.apply] at hc
      split at hc <;> cases hc
      exact ⟨fun _ => Iff.rfl, rfl, fun _ _ hi => hi⟩

end Context

theorem complete_context (s : State) (a : BaseAwaiter) (n : Int) :
    (s.complete a n).context = s.context := by
  unfold State.complete
  dsimp only
  split <;> rfl

theorem drain_context (s : State) (m : Option Mailbox) :
    (s.drain m).context = s.context := by
  rcases drain_cases s m with heq | ⟨a, -, -, -, heq⟩
  · rw [heq]
  · rw [heq, complete_context]

/-- Every step is a step of the context or leaves it alone. -/
theorem context_refines (cfg : Control.Config) :
    (machine cfg).Refines (Control.machine cfg) (·.context)
      fun _ _ => True := by
  refine ⟨fun s hs => congrArg State.context hs, fun s s' a _ _ hs => ?_⟩
  cases apply_step hs with
  | bindRuns _ _ _ _ hc => exact .inr ⟨.notify _ _, hc⟩
  | runCallback _ hc => exact .inr ⟨.notify _ _, hc⟩
  | drains _ hc =>
      rw [drain_context]
      exact .inr ⟨.io, hc⟩
  | @context _ b _ _ hc => exact .inr ⟨b, hc⟩
  | finish _ =>
      left
      unfold finalSuspend
      dsimp only
      split <;> rfl
  | ready n _ _ => exact .inl (complete_context ..)
  | _ => exact .inl rfl

-- == the course

/-- `request_stop` has been called. -/
def TimerPc.requested : TimerPc → Bool
  | .callbacks | .callback _ | .notifying _ | .done => true
  | .unset | .waiting | .canceled | .check | .requestStop => false

/-- `request_stop` has taken the callbacks out. -/
def TimerPc.popped : TimerPc → Bool
  | .callback _ | .notifying _ | .done => true
  | .unset | .waiting | .canceled | .check | .requestStop
  | .callbacks => false

/-- `AddTimer` has been called, or will not be. -/
def LauncherPc.timerAdded : LauncherPc → Bool
  | .storeTimerId | .returned => true
  | .launch | .inTask | .setStopToken | .setContinuation | .resumeParent
  | .addTimer => false

/-- How far the launch, the timer and the source have come together. -/
structure Course (s : State) : Prop where
  starting : s.launcher = .launch ∨ s.launcher = .resumeParent →
    s.promise.token = false
  token : s.child ≠ .absent →
    s.promise.token = !s.launcher.beforeToken
  unset : s.launcher.timerAdded = false → s.timer = .unset
  requested : s.source.requested = s.timer.requested
  callback : s.source.callback ≠ none → s.timer.popped = false

theorem beforeToken_leave (l : LauncherPc) :
    l.leave.beforeToken = l.beforeToken := by
  cases l <;> rfl

theorem timerAdded_leave (l : LauncherPc) :
    l.leave.timerAdded = l.timerAdded := by
  cases l <;> rfl

theorem once_reachable (h : (machine cfg).Reachable s) :
    Once (fun _ _ => True) s :=
  once_reach (fun _ _ => trivial) trivial (fun _ _ _ _ _ _ => trivial) h

/-- The child goes on, which leaves the timer alone. -/
theorem Course.goOn (h : Course s) (hp : s.child ≠ .absent)
    (hlauncher : s'.launcher = s.launcher
      ∨ s'.launcher = s.launcher.leave)
    (hpromise : s'.promise = s.promise) (htimer : s'.timer = s.timer)
    (hrequested : s'.source.requested = s.source.requested)
    (hcallback : s'.source.callback ≠ none → s.timer.popped = false) :
    Course s' := by
  have hbefore : s'.launcher.beforeToken = s.launcher.beforeToken := by
    rcases hlauncher with heq | heq <;> rw [heq]
    exact beforeToken_leave _
  have hadded : s'.launcher.timerAdded = s.launcher.timerAdded := by
    rcases hlauncher with heq | heq <;> rw [heq]
    exact timerAdded_leave _
  refine ⟨fun hl => ?_, fun _ => ?_, fun hl => ?_, ?_, fun hk => ?_⟩
  · rw [hpromise]
    refine h.starting ?_
    rcases hlauncher with heq | heq
    · rwa [heq] at hl
    · rw [heq] at hl
      exact leave_started hl
  · rw [hpromise, hbefore]
    exact h.token hp
  · rw [htimer]
    exact h.unset (hadded.symm.trans hl)
  · rw [hrequested, htimer]
    exact h.requested
  · rw [htimer]
    exact hcallback hk

/-- The timer goes on, which it does only after it was added. -/
theorem Course.tick (h : Course s) {p : TimerPc} (hp : s.timer = p)
    (hset : p ≠ .unset) (hlauncher : s'.launcher = s.launcher)
    (hchild : s'.child = s.child) (hpromise : s'.promise = s.promise)
    (hrequested : s'.source.requested = s'.timer.requested)
    (hcallback : s'.source.callback ≠ none → s'.timer.popped = false) :
    Course s' := by
  refine ⟨?_, ?_, fun hl => ?_, hrequested, hcallback⟩
  · rw [hlauncher, hpromise]
    exact h.starting
  · rw [hlauncher, hchild, hpromise]
    exact h.token
  · rw [hlauncher] at hl
    exact absurd (hp.symm.trans (h.unset hl)) hset

theorem course_step {a : Action} (ho : Once (fun _ _ => True) s)
    (h : Course s) (hstep : Step cfg s a s') : Course s' := by
  have hreq := h.requested
  cases hstep with
  | launchTask hl =>
      exact ⟨nofun, fun _ => h.starting (.inl hl),
        fun _ => h.unset (by rw [hl]; rfl), hreq, h.callback⟩
  | launchNull hl =>
      have habs := ho.starting (.inl hl)
      exact ⟨fun _ => h.starting (.inl hl), fun hp => absurd habs hp,
        fun _ => h.unset (by rw [hl]; rfl), hreq, h.callback⟩
  | setStopToken hl =>
      exact ⟨nofun, fun _ => rfl, fun _ => h.unset (by rw [hl]; rfl), hreq,
        h.callback⟩
  | setContinuation hl =>
      refine ⟨nofun, fun hp => ?_, fun _ => h.unset (by rw [hl]; rfl),
        hreq, h.callback⟩
      have htoken := h.token hp
      rwa [hl] at htoken
  | resumeParent hl =>
      have habs := ho.starting (.inr hl)
      exact ⟨nofun, fun hp => absurd habs hp, nofun, hreq, h.callback⟩
  | addTimer hl =>
      have hunset := h.unset (by rw [hl]; rfl)
      refine ⟨nofun, fun hp => ?_, nofun, ?_, fun _ => rfl⟩
      · have htoken := h.token hp
        rwa [hl] at htoken
      · rw [hunset] at hreq
        exact hreq
  | storeTimerId hl =>
      refine ⟨nofun, fun hp => ?_, nofun, hreq, h.callback⟩
      have htoken := h.token hp
      rwa [hl] at htoken
  | await hp | resume hp | tryBlocks _ hp | tryEnds _ _ hp
  | capture _ hp | bindRuns _ hp _ _ _ | dropAnchor _ hp
  | unbind _ hp =>
      exact h.goOn (by rw [hp]; nofun) (.inl rfl) rfl rfl rfl h.callback
  | unregister _ hp _ =>
      exact h.goOn (by rw [hp]; nofun) (.inl rfl) rfl rfl rfl nofun
  | awaitElsewhere hp | bindEmpty _ hp _ | bound _ hp _ =>
      exact h.goOn (by rw [hp]; nofun) (.inr rfl) rfl rfl rfl h.callback
  | bindRegisters _ hp _ hr =>
      refine h.goOn (by rw [hp]; nofun) (.inr rfl) rfl rfl rfl fun _ => ?_
      rw [hr] at hreq
      cases ht : s.timer <;> rw [ht] at hreq <;> first | rfl | cases hreq
  | finish hp =>
      have hne : s.child ≠ .absent := by
        rw [hp]
        nofun
      unfold finalSuspend
      dsimp only
      split <;>
        exact h.goOn hne (.inr rfl) rfl rfl rfl h.callback
  | @ready a n ha hp =>
      have hne : s.child ≠ .absent := by
        rw [hp]
        nofun
      unfold State.complete
      dsimp only
      split <;> exact h.goOn hne (.inl rfl) rfl rfl rfl h.callback
  | @drains c _ _ =>
      have hsame : Course { s with context := c } :=
        ⟨h.starting, h.token, h.unset, hreq, h.callback⟩
      rcases drain_cases { s with context := c } (headMailbox s.context)
        with heq | ⟨a, ha, -, hd, heq⟩
      · rw [heq]
        exact hsame
      · have hne : s.child ≠ .absent := by
          intro hp
          have hin := ho.awaiter
          rw [hp, show s.awaiter = some a from ha] at hin
          cases hin
        rw [heq, complete_open hd]
        exact h.goOn hne (.inl rfl) rfl rfl rfl h.callback
  | readyBlocks _ _ | context _ _ =>
      exact ⟨h.starting, h.token, h.unset, hreq, h.callback⟩
  | fire hp | check hp _ =>
      rw [hp] at hreq
      exact h.tick hp nofun rfl rfl rfl hreq fun _ => rfl
  | requestStop hp =>
      exact h.tick hp nofun rfl rfl rfl rfl fun _ => rfl
  | checkRequested hp hr =>
      rw [hp, hr] at hreq
      cases hreq
  | callbacksDone hp hk =>
      rw [hp] at hreq
      exact h.tick hp nofun rfl rfl rfl hreq fun hne => absurd hk hne
  | popCallback hp _ =>
      rw [hp] at hreq
      exact h.tick hp nofun rfl rfl rfl hreq nofun
  | runCallback hp _ =>
      rw [hp] at hreq
      refine h.tick hp nofun rfl rfl rfl hreq fun hk => ?_
      have hpop := h.callback hk
      rw [hp] at hpop
      cases hpop
  | callbackDone hp _ =>
      rw [hp] at hreq
      exact h.tick hp nofun rfl rfl rfl hreq fun _ => rfl
  | parent _ =>
      by_cases hw : s.timerId = true ∧ s.timer = .waiting
      · rw [if_pos hw]
        rw [hw.2] at hreq
        exact h.tick hw.2 nofun rfl rfl rfl hreq fun _ => rfl
      · rw [if_neg hw]
        exact ⟨h.starting, h.token, h.unset, hreq, h.callback⟩

theorem course_reachable (h : (machine cfg).Reachable s) : Course s := by
  refine h.invariant (I := Course) ?_ fun _ _ _ hr hcs _ hs =>
    course_step (once_reachable hr) hcs (apply_step hs)
  rintro _ rfl
  exact ⟨fun _ => rfl, fun hp => absurd rfl hp, fun _ => rfl, rfl, nofun⟩

-- == the posters

/-- The timer and the child have calls of `Notify` under way only where
they make them. -/
structure Posting (s : State) : Prop where
  child : s.child ≠ .notifying → s.context.producers .child = .idle
  timer : (∀ k, s.timer ≠ .notifying k) →
    s.context.producers .timer = .idle

/-- The child goes on from where it makes no call. -/
theorem Posting.goOn (h : Posting s) {p : ChildPc} (hp : s.child = p)
    (hne : p ≠ .notifying) (htimer : s'.timer = s.timer)
    (hproducers : s'.context.producers = s.context.producers) :
    Posting s' := by
  refine ⟨fun _ => ?_, fun hk => ?_⟩
  · rw [hproducers]
    exact h.child (by rw [hp]; exact hne)
  · rw [htimer] at hk
    rw [hproducers]
    exact h.timer hk

/-- The timer goes on from where it makes no call. -/
theorem Posting.tick (h : Posting s) {p : TimerPc} (hp : s.timer = p)
    (hne : ∀ k, p ≠ .notifying k) (hchild : s'.child = s.child)
    (hcontext : s'.context = s.context) : Posting s' := by
  refine ⟨fun hc => ?_, fun _ => ?_⟩
  · rw [hchild] at hc
    rw [hcontext]
    exact h.child hc
  · rw [hcontext]
    exact h.timer (by rw [hp]; exact hne)

theorem posting_step {a : Action} (ho : Once (fun _ _ => True) s)
    (hcs : Course s) (h : Posting s) (hstep : Step cfg s a s') :
    Posting s' := by
  cases hstep with
  | launchTask hl => exact h.goOn (ho.starting (.inl hl)) nofun rfl rfl
  | launchNull _ | setStopToken _ | setContinuation _ | resumeParent _
  | storeTimerId _ | readyBlocks _ _ => exact ⟨h.child, h.timer⟩
  | addTimer hl =>
      exact h.tick (hcs.unset (by rw [hl]; rfl)) nofun rfl rfl
  | await hp | awaitElsewhere hp | resume hp | tryBlocks _ hp
  | tryEnds _ _ hp | capture _ hp | bindEmpty _ hp _
  | bindRegisters _ hp _ _ | dropAnchor _ hp | unregister _ hp _
  | unbind _ hp => exact h.goOn hp nofun rfl rfl
  | finish hp =>
      unfold finalSuspend
      dsimp only
      split <;> exact h.goOn hp nofun rfl rfl
  | bindRuns _ _ _ _ hc =>
      refine ⟨fun hne => absurd rfl hne, fun hk => ?_⟩
      show _ = _
      rw [(notify_effect hc).2.2]
      exact (Function.update_of_ne (by decide) ..).trans (h.timer hk)
  | bound _ _ hi => exact ⟨fun _ => hi, h.timer⟩
  | ready n ha hp =>
      unfold State.complete
      dsimp only
      split <;> exact h.goOn hp nofun rfl rfl
  | @drains c hio hc =>
      have hne : s.child ≠ .notifying := by
        intro hp
        rw [hp] at hio
        cases hio
      have hprod := (io_effect hc).2.2
      rcases drain_cases { s with context := c } (headMailbox s.context)
        with heq | ⟨a, ha, -, hd, heq⟩
      · rw [heq]
        exact h.goOn rfl hne rfl hprod
      · rw [heq, complete_open hd]
        exact h.goOn rfl hne rfl hprod
  | context hq hc =>
      have hidle := (quiet_effect hq hc).2.2
      exact ⟨fun hp => hidle _ nofun (h.child hp),
        fun hk => hidle _ nofun (h.timer hk)⟩
  | fire hp | checkRequested hp _ | check hp _ | requestStop hp
  | callbacksDone hp _ | popCallback hp _ => exact h.tick hp nofun rfl rfl
  | runCallback _ hc =>
      refine ⟨fun hp => ?_, fun hk => absurd rfl (hk _)⟩
      show _ = _
      rw [(notify_effect hc).2.2]
      exact (Function.update_of_ne (by decide) ..).trans (h.child hp)
  | callbackDone _ hi => exact ⟨h.child, fun _ => hi⟩
  | parent _ =>
      by_cases hw : s.timerId = true ∧ s.timer = .waiting
      · rw [if_pos hw]
        exact h.tick hw.2 nofun rfl rfl
      · rw [if_neg hw]
        exact ⟨h.child, h.timer⟩

theorem posting_reachable (h : (machine cfg).Reachable s) :
    Posting s := by
  refine h.invariant (I := Posting) ?_ fun _ _ _ hr hp _ hs =>
    posting_step (once_reachable hr) (course_reachable hr) hp
      (apply_step hs)
  rintro _ rfl
  exact ⟨fun _ => rfl, fun _ => rfl⟩

-- == the awaiter

/-- The cancellation of awaiter `k` is under way: its callback is
registered, or taken out and about to run, or its mailbox has been
announced. -/
def Owed (s : State) (k : Nat) : Prop :=
  s.source.callback = some k ∨ s.timer = .callback k
    ∨ .cancel k ∈ s.context.announced

/-- The child is at an awaiter that has not completed. -/
def ChildPc.held : ChildPc → Bool
  | .capture | .tryIo | .bind | .notifying | .suspended => true
  | .absent | .running | .elsewhere | .resumed | .unbind
  | .finished => false

/-- The callback has been bound, if there was a token. -/
def ChildPc.bound : ChildPc → Bool
  | .notifying | .suspended => true
  | .absent | .running | .capture | .tryIo | .bind | .elsewhere
  | .resumed | .unbind | .finished => false

/-- An awaiter the child is at. -/
structure Held (s : State) (a : BaseAwaiter) : Prop where
  done : a.done = false
  anchor : a.anchor = true
  token : s.child ≠ .capture → a.token = !a.early
  owed : Owed s a.id ↔ s.child.bound = true ∧ a.token = true
  undrained : .cancel a.id ∉ s.context.drained

structure Awaiting (s : State) : Prop where
  fresh : ∀ k, Owed s k → k < s.nextId
  id : ∀ a, s.awaiter = some a → a.id < s.nextId
  held : ∀ a, s.awaiter = some a → s.child.held = true → Held s a

/-- Nothing the awaiter depends on changes. -/
theorem Awaiting.same (h : Awaiting s) (hchild : s'.child = s.child)
    (hawaiter : s'.awaiter = s.awaiter) (hnext : s'.nextId = s.nextId)
    (howed : ∀ k, Owed s' k ↔ Owed s k)
    (hdrained : s'.context.drained = s.context.drained) :
    Awaiting s' := by
  refine ⟨fun k hk => ?_, fun a ha => ?_, fun a ha hheld => ?_⟩
  · rw [hnext]
    exact h.fresh k ((howed k).mp hk)
  · rw [hnext]
    exact h.id a (hawaiter.symm.trans ha)
  · rw [hchild] at hheld
    obtain ⟨hdone, hanchor, htoken, how, hun⟩ :=
      h.held a (hawaiter.symm.trans ha) hheld
    refine ⟨hdone, hanchor, ?_, ?_, ?_⟩
    · rw [hchild]
      exact htoken
    · rw [howed, hchild]
      exact how
    · rw [hdrained]
      exact hun

/-- The child leaves its awaiter, or goes on without one. -/
theorem Awaiting.leave (h : Awaiting s) (hheld : s'.child.held = false)
    (hawaiter : ∀ a', s'.awaiter = some a' →
      ∃ a, s.awaiter = some a ∧ a'.id = a.id)
    (hnext : s'.nextId = s.nextId)
    (howed : ∀ k, Owed s' k → Owed s k) : Awaiting s' := by
  refine ⟨fun k hk => ?_, fun a' ha' => ?_, fun a' _ hheld' => ?_⟩
  · rw [hnext]
    exact h.fresh k (howed k hk)
  · obtain ⟨a, ha, heq⟩ := hawaiter a' ha'
    rw [hnext, heq]
    exact h.id a ha
  · rw [hheld] at hheld'
    cases hheld'

/-- The child goes on inside its awaiter. -/
theorem Awaiting.goOn (h : Awaiting s) {a a' : BaseAwaiter}
    (ha : s.awaiter = some a) (hheld : s.child.held = true)
    (ha' : s'.awaiter = some a')
    (hsame : a'.id = a.id ∧ a'.done = a.done ∧ a'.anchor = a.anchor)
    (htoken : s'.child ≠ .capture → a'.token = !a'.early)
    (howed : Owed s' a.id ↔ s'.child.bound = true ∧ a'.token = true)
    (hfresh : ∀ k, Owed s' k → Owed s k ∨ k = a.id)
    (hnext : s'.nextId = s.nextId)
    (hdrained : s'.context.drained = s.context.drained) :
    Awaiting s' := by
  obtain ⟨hid, hdone, hanchor⟩ := hsame
  have hold := h.held a ha hheld
  refine ⟨fun k hk => ?_, fun b hb => ?_, fun b hb _ => ?_⟩
  · rw [hnext]
    rcases hfresh k hk with hk | rfl
    · exact h.fresh k hk
    · exact h.id a ha
  · obtain rfl : a' = b := Option.some.inj (ha'.symm.trans hb)
    rw [hnext, hid]
    exact h.id a ha
  · obtain rfl : a' = b := Option.some.inj (ha'.symm.trans hb)
    refine ⟨hdone.trans hold.done, hanchor.trans hold.anchor, htoken, ?_, ?_⟩
    · rw [hid]
      exact howed
    · rw [hid, hdrained]
      exact hold.undrained

theorem owed_congr (hcallback : s'.source.callback = s.source.callback)
    (htimer : ∀ k, s'.timer = .callback k ↔ s.timer = .callback k)
    (hannounced : ∀ k, .cancel k ∈ s'.context.announced
      ↔ .cancel k ∈ s.context.announced) (k : Nat) :
    Owed s' k ↔ Owed s k := by
  unfold Owed
  rw [hcallback, htimer, hannounced]

/-- The timer goes on between places where it holds no callback. -/
theorem Awaiting.tick (h : Awaiting s) {p : TimerPc} (hp : s.timer = p)
    (hne : ∀ k, p ≠ .callback k) (hne' : ∀ k, s'.timer ≠ .callback k)
    (hcallback : s'.source.callback = s.source.callback)
    (hchild : s'.child = s.child) (hawaiter : s'.awaiter = s.awaiter)
    (hnext : s'.nextId = s.nextId) (hcontext : s'.context = s.context) :
    Awaiting s' := by
  refine h.same hchild hawaiter hnext (owed_congr hcallback ?_ ?_) ?_
  · intro k
    rw [hp]
    exact iff_of_false (hne' k) (hne k)
  · intro k
    rw [hcontext]
  · rw [hcontext]

/-- A new awaiter. -/
theorem Awaiting.await (h : Awaiting s)
    (hfifo : Control.Fifo s.context) :
    Awaiting { s with
      child := .capture
      awaiter := some { id := s.nextId }
      nextId := s.nextId + 1 } := by
  have hnot : ¬ Owed s s.nextId := fun hk => Nat.lt_irrefl _ (h.fresh _ hk)
  refine ⟨fun k hk => Nat.lt_succ_of_lt (h.fresh k hk), fun a ha => ?_,
    fun a ha _ => ?_⟩
  · obtain rfl := Option.some.inj ha
    exact Nat.lt_succ_self _
  · obtain rfl := Option.some.inj ha
    refine ⟨rfl, rfl, fun hc => absurd rfl hc,
      iff_of_false hnot (fun hb => nomatch hb.1), fun hd => ?_⟩
    refine hnot (.inr (.inr ?_))
    rw [hfifo.mailboxes]
    exact List.mem_append_left _ hd

theorem drain_cancel {a : BaseAwaiter} (ha : s.awaiter = some a)
    (hanchor : a.anchor = true) (hdone : a.done = false) :
    s.drain (some (.cancel a.id)) = s.complete a (-ecanceled) := by
  simp [State.drain, State.cancelOnIoThread, ha, hanchor, hdone]

/-- An awaiter completes. -/
theorem Awaiting.complete (h : Awaiting s) {a : BaseAwaiter} {n : Int}
    (ha : s.awaiter = some a) (hd : a.done = false) :
    Awaiting (s.complete a n) := by
  rw [complete_open hd]
  refine h.leave rfl (fun a' ha' => ?_) rfl fun _ hk => hk
  obtain rfl := Option.some.inj ha'
  exact ⟨a, ha, rfl⟩

/-- A drain completes the awaiter, or takes out a mailbox that is not
its. -/
theorem Awaiting.drains (h : Awaiting s)
    {c : Control.State Poster Unit Mailbox}
    (hc : Control.apply cfg .io s.context = some c) :
    Awaiting (State.drain { s with context := c }
      (headMailbox s.context)) := by
  obtain ⟨hann, hdr, -⟩ := io_effect hc
  have howed : ∀ k, Owed { s with context := c } k ↔ Owed s k :=
    owed_congr rfl (fun _ => Iff.rfl) fun k => by rw [hann]
  rcases drain_cases { s with context := c } (headMailbox s.context)
    with heq | ⟨a, ha, -, hd, heq⟩
  · rw [heq]
    refine ⟨fun k hk => h.fresh k ((howed k).mp hk), h.id,
      fun a ha hheld => ?_⟩
    have hold := h.held a ha hheld
    refine ⟨hold.done, hold.anchor, hold.token, (howed _).trans hold.owed,
      fun hmem => ?_⟩
    rw [show c.drained = _ from hdr, List.mem_append] at hmem
    refine hmem.elim hold.undrained fun hm => ?_
    -- its own mailbox would have completed it
    rw [Option.mem_toList.mp hm, drain_cancel ha hold.anchor hold.done,
      complete_open hold.done] at heq
    rw [← congrArg State.child heq] at hheld
    cases hheld
  · rw [heq]
    rw [complete_open hd]
    refine h.leave rfl (fun a' ha' => ?_) rfl fun k hk => (howed k).mp hk
    obtain rfl := Option.some.inj ha'
    exact ⟨a, ha, rfl⟩

theorem awaiting_step {a : Action} (hcs : Course s)
    (hfifo : Control.Fifo s.context) (h : Awaiting s)
    (hstep : Step cfg s a s') : Awaiting s' := by
  cases hstep with
  | launchTask _ | awaitElsewhere _ | resume _ =>
      exact h.leave rfl (fun a ha => ⟨a, ha, rfl⟩) rfl fun _ hk => hk
  | finish _ =>
      unfold finalSuspend
      dsimp only
      split <;>
        exact h.leave rfl (fun a ha => ⟨a, ha, rfl⟩) rfl fun _ hk => hk
  | launchNull _ | setStopToken _ | setContinuation _ | resumeParent _
  | storeTimerId _ | readyBlocks _ _ =>
      exact h.same rfl rfl rfl (fun _ => Iff.rfl) rfl
  | addTimer hl =>
      exact h.tick (hcs.unset (by rw [hl]; rfl)) nofun nofun rfl rfl rfl rfl
        rfl
  | await _ => exact h.await hfifo
  | tryBlocks ha hp | bound ha hp _ =>
      have hold := h.held _ ha (by rw [hp]; rfl)
      refine h.goOn ha (by rw [hp]; rfl) ha ⟨rfl, rfl, rfl⟩
        (fun _ => hold.token (by rw [hp]; nofun)) ?_ (fun _ => .inl) rfl rfl
      have howed := hold.owed
      rwa [hp] at howed
  | tryEnds _ ha _ | dropAnchor ha _ =>
      refine h.leave rfl (fun a' ha' => ?_) rfl fun _ hk => hk
      obtain rfl := Option.some.inj ha'
      exact ⟨_, ha, rfl⟩
  | capture ha hp =>
      have hold := h.held _ ha (by rw [hp]; rfl)
      refine h.goOn ha (by rw [hp]; rfl) rfl ⟨rfl, rfl, rfl⟩
        (fun _ => hcs.token (by rw [hp]; nofun)) ?_ (fun _ => .inl) rfl rfl
      refine iff_of_false (fun hk => ?_) fun hb => nomatch hb.1
      have hbound := (hold.owed.mp hk).1
      rw [hp] at hbound
      cases hbound
  | bindEmpty ha hp ht =>
      have hold := h.held _ ha (by rw [hp]; rfl)
      refine h.goOn ha (by rw [hp]; rfl) ha ⟨rfl, rfl, rfl⟩
        (fun _ => hold.token (by rw [hp]; nofun)) ?_ (fun _ => .inl) rfl rfl
      refine iff_of_false (fun hk => ?_) fun hb => ?_
      · have hbound := (hold.owed.mp hk).1
        rw [hp] at hbound
        cases hbound
      · rw [ht] at hb
        exact nomatch hb.2
  | @bindRuns a c ha hp ht _ hc =>
      have hold := h.held _ ha (by rw [hp]; rfl)
      obtain ⟨hann, hdr, -⟩ := notify_effect hc
      refine h.goOn ha (by rw [hp]; rfl) rfl ⟨rfl, rfl, rfl⟩
        (fun _ => hold.token (by rw [hp]; nofun)) ?_ (fun k hk => ?_) rfl
        hdr
      · refine iff_of_true (.inr (.inr ?_)) ⟨rfl, ht⟩
        show _ ∈ c.announced
        rw [hann]
        exact List.mem_append_right _ (List.mem_singleton_self _)
      · rcases hk with hk | hk | hk
        · exact .inl (.inl hk)
        · exact .inl (.inr (.inl hk))
        · rw [show c.announced = _ from hann, List.mem_append,
            List.mem_singleton, Mailbox.cancel.injEq] at hk
          exact hk.imp_left fun hk => .inr (.inr hk)
  | bindRegisters ha hp ht _ =>
      have hold := h.held _ ha (by rw [hp]; rfl)
      refine h.goOn ha (by rw [hp]; rfl) rfl ⟨rfl, rfl, rfl⟩
        (fun _ => hold.token (by rw [hp]; nofun))
        (iff_of_true (.inl rfl) ⟨rfl, ht⟩) (fun k hk => ?_) rfl rfl
      rcases hk with hk | hk
      · exact .inr (Option.some.inj hk).symm
      · exact .inl (.inr hk)
  | unregister _ _ _ =>
      refine h.leave rfl nofun rfl fun k hk => .inr ?_
      exact hk.resolve_left nofun
  | unbind _ _ => exact h.leave rfl nofun rfl fun _ hk => hk
  | ready n ha hp =>
      exact h.complete ha (h.held _ ha (by rw [hp]; rfl)).done
  | drains _ hc => exact h.drains hc
  | context hq hc =>
      obtain ⟨hann, hdr, -⟩ := quiet_effect hq hc
      exact h.same rfl rfl rfl
        (owed_congr rfl (fun _ => Iff.rfl) hann) hdr
  | fire hp | checkRequested hp _ | check hp _ | requestStop hp
  | callbacksDone hp _ | callbackDone hp _ =>
      exact h.tick hp nofun nofun rfl rfl rfl rfl rfl
  | @popCallback k hp hk =>
      refine h.same rfl rfl rfl (fun j => ?_) rfl
      simp [Owed, hp, hk]
  | @runCallback k c hp hc =>
      obtain ⟨hann, hdr, -⟩ := notify_effect hc
      refine h.same rfl rfl rfl (fun j => ?_) hdr
      simp only [Owed, hp, hann, List.mem_append, List.mem_singleton,
        Mailbox.cancel.injEq, TimerPc.callback.injEq, reduceCtorEq,
        false_or]
      tauto
  | parent _ =>
      by_cases hw : s.timerId = true ∧ s.timer = .waiting
      · rw [if_pos hw]
        exact h.tick hw.2 nofun nofun rfl rfl rfl rfl rfl
      · rw [if_neg hw]
        exact h.same rfl rfl rfl (fun _ => Iff.rfl) rfl

theorem fifo_reachable (h : (machine cfg).Reachable s) :
    Control.Fifo s.context :=
  Control.fifo_reachable ((context_refines cfg).reach h)

theorem awaiting_reachable (h : (machine cfg).Reachable s) :
    Awaiting s := by
  refine h.invariant (I := Awaiting) ?_ fun _ _ _ hr ha _ hs =>
    awaiting_step (course_reachable hr) (fifo_reachable hr) ha
      (apply_step hs)
  rintro _ rfl
  refine ⟨fun k hk => ?_, nofun, nofun⟩
  simp [Owed] at hk

-- == the wait

section Wait

variable {a : BaseAwaiter}

/-- The mailbox a drain is about to take out was announced. -/
theorem head_announced {c : Control.State Poster Unit Mailbox}
    (h : Control.Fifo c) {m : Mailbox} (hm : headMailbox c = some m) :
    m ∈ c.announced := by
  unfold headMailbox at hm
  split at hm
  · rw [h.mailboxes]
    exact List.mem_append_right _ (List.mem_of_head? hm)
  · cases hm

/-- A child that waits for a socket goes on waiting, or the drain
cancels its awaiter, which has a token, or its IO completes. -/
theorem suspended_step {act : Action} (h : (machine cfg).Reachable s)
    (hp : s.child = .suspended) (ha : s.awaiter = some a)
    (hstep : Step cfg s act s') :
    (s'.child = .suspended ∧ s'.awaiter = some a)
      ∨ (a.token = true ∧ (a.id, -ecanceled) ∈ s'.completions)
      ∨ ∃ n, act = .ready (some n) ∧ (a.id, n) ∈ s'.completions := by
  have hheld := (awaiting_reachable h).held a ha (by rw [hp]; rfl)
  cases hstep with
  | launchTask hl =>
      have habs := (once_reachable h).starting (.inl hl)
      rw [hp] at habs
      cases habs
  | await hq | awaitElsewhere hq | finish hq | resume hq
  | tryBlocks _ hq | tryEnds _ _ hq | capture _ hq | bindEmpty _ hq _
  | bindRuns _ hq _ _ _ | bindRegisters _ hq _ _ | bound _ hq _
  | dropAnchor _ hq | unregister _ hq _ | unbind _ hq =>
      rw [hp] at hq
      cases hq
  | @ready b n hb _ =>
      obtain rfl : b = a := Option.some.inj (hb.symm.trans ha)
      rw [complete_open hheld.done]
      exact .inr (.inr ⟨n, rfl, List.mem_append_right _
        (List.mem_singleton_self _)⟩)
  | @drains c _ _ =>
      rcases drain_cases { s with context := c } (headMailbox s.context)
        with heq | ⟨b, hb, hm, hd, heq⟩
      · rw [heq]
        exact .inl ⟨hp, ha⟩
      · obtain rfl : b = a := Option.some.inj (hb.symm.trans ha)
        have hann := head_announced (fifo_reachable h) hm
        rw [heq, complete_open hd]
        exact .inr (.inl ⟨(hheld.owed.mp (.inr (.inr hann))).2,
          List.mem_append_right _ (List.mem_singleton_self _)⟩)
  | _ => exact .inl ⟨hp, ha⟩

-- == to the end

/-- Steps of the timer's callback, of the IO thread's loop and of those
who have a `Notify` under way. -/
def ofCancel (act : Action) : Prop :=
  act = .timer ∨ act = .loop ∨ ∃ n, act = .other n

/-- A drain under way goes on to its end, or cancels the awaiter
before. -/
theorem loop_lifts {c : Control.State Poster Unit Mailbox}
    (hp : s.child = .suspended) (ha : s.awaiter = some a)
    (hlead : (Control.machine cfg).Leads (· = .io) s.context c) :
    (∃ s', (machine cfg).Leads ofCancel s s'
        ∧ (a.id, -ecanceled) ∈ s'.completions)
      ∨ (machine cfg).Leads ofCancel s { s with context := c } := by
  obtain ⟨as, has, hrun⟩ := hlead
  induction as generalizing s with
  | nil =>
      cases hrun
      exact .inr (.refl s)
  | cons b as ih =>
      obtain ⟨rfl, hrest⟩ := List.forall_mem_cons.mp has
      obtain ⟨c₁, hc, hrun⟩ := Option.bind_eq_some_iff.mp hrun
      have hio : s.context.io ≠ .outside := by
        intro hio
        simp [Control.machine, Control.apply, Control.execDrain, hio] at hc
      have hs : (machine cfg).apply .loop s
          = some (State.drain { s with context := c₁ }
            (headMailbox s.context)) := by
        show execLoop cfg s = _
        unfold execLoop State.post
        rw [hp, if_neg (by rintro ⟨⟩), if_neg hio,
          show Control.apply cfg .io s.context = some c₁ from hc]
        rfl
      rcases drain_cases { s with context := c₁ } (headMailbox s.context)
        with heq | ⟨b, hb, -, hd, heq⟩
      · rw [heq] at hs
        refine (ih (s := { s with context := c₁ }) hp ha hrest hrun).imp
          (fun hend => ?_) (.head (.inr (.inl rfl)) hs)
        obtain ⟨s', hlead, hdone⟩ := hend
        exact ⟨s', .head (.inr (.inl rfl)) hs hlead, hdone⟩
      · obtain rfl : b = a := Option.some.inj (hb.symm.trans ha)
        rw [heq, complete_open hd] at hs
        exact .inl ⟨_, .head (.inr (.inl rfl)) hs (.refl _),
          List.mem_append_right _ (List.mem_singleton_self _)⟩

/-- Those who have a `Notify` under way end it. -/
theorem posters_lift {c : Control.State Poster Unit Mailbox}
    (h : (machine cfg).Reachable s) (hp : s.child = .suspended)
    (hlead : (Control.machine cfg).Leads Control.ofProducer s.context c) :
    (machine cfg).Leads ofCancel s { s with context := c } := by
  obtain ⟨as, has, hrun⟩ := hlead
  induction as generalizing s with
  | nil =>
      cases hrun
      exact .refl s
  | cons b as ih =>
      obtain ⟨⟨t, rfl⟩, hrest⟩ := List.forall_mem_cons.mp has
      obtain ⟨c₁, hc, hrun⟩ := Option.bind_eq_some_iff.mp hrun
      have hbusy : s.context.producers t ≠ .idle := by
        intro hi
        simp [Control.machine, Control.apply, Control.execProducer, hi]
          at hc
      have hc' : Control.apply cfg (.producer t) s.context = some c₁ := hc
      obtain ⟨act, hact, hs⟩ : ∃ act, ofCancel act
          ∧ (machine cfg).apply act s = some { s with context := c₁ } := by
        have hposting := posting_reachable h
        cases t with
        | child => exact absurd (hposting.child (by rw [hp]; rintro ⟨⟩)) hbusy
        | other n =>
            refine ⟨.other n, .inr (.inr ⟨n, rfl⟩), ?_⟩
            show s.post cfg _ id = _
            rw [State.post, hc']
            rfl
        | timer =>
            obtain ⟨k, hk⟩ : ∃ k, s.timer = .notifying k := by
              by_contra hne
              exact hbusy (hposting.timer fun k hk => hne ⟨k, hk⟩)
            refine ⟨.timer, .inl rfl, ?_⟩
            have hpost : execTimer cfg s
                = s.post cfg (.producer .timer) id := by
              simp only [execTimer, hk, if_neg hbusy]
            show execTimer cfg s = _
            rw [hpost, State.post, hc']
            rfl
      exact .head hact hs (ih (s := { s with context := c₁ })
        (h.step trivial hs) hp hrest hrun)

/-- A drain under way completes an awaiter whose mailbox is
announced. -/
theorem drain_completes (h : (machine cfg).Reachable s)
    (hp : s.child = .suspended) (ha : s.awaiter = some a)
    (hann : .cancel a.id ∈ s.context.announced)
    (hio : s.context.io ≠ .outside) :
    ∃ s', (machine cfg).Leads ofCancel s s'
      ∧ (a.id, -ecanceled) ∈ s'.completions := by
  obtain ⟨c, hlead, -, hms, -⟩ := Control.drain_ends cfg hio
  refine (loop_lifts hp ha hlead).resolve_right fun hend => ?_
  -- the drain took out all that was announced, this mailbox too
  have hr := hend.reachable h
  have hsame := (Control.pushed_leads
    (fun _ hb => Or.inr (Or.inr hb)) hlead).2
  have hfifo := (fifo_reachable hr).mailboxes
  have hundrained :=
    ((awaiting_reachable hr).held a ha (by rw [hp]; rfl)).undrained
  refine hundrained ?_
  rw [show c.mailboxes = [] from hms, List.append_nil] at hfifo
  rw [← hfifo, show c.announced = _ from hsame]
  exact hann

theorem announced_completes (h : (machine cfg).Reachable s)
    (hp : s.child = .suspended) (ha : s.awaiter = some a)
    (hann : .cancel a.id ∈ s.context.announced) :
    ∃ s', (machine cfg).Leads ofCancel s s'
      ∧ (a.id, -ecanceled) ∈ s'.completions := by
  by_cases hio : s.context.io = .outside
  · have hheld := (awaiting_reachable h).held a ha (by rw [hp]; rfl)
    have hawake := Control.awake_reachable ((context_refines cfg).reach h)
    have hne : s.context.mailboxes ≠ [] := by
      intro hnil
      have hfifo := (fifo_reachable h).mailboxes
      rw [hnil, List.append_nil] at hfifo
      exact hheld.undrained (hfifo ▸ hann)
    obtain ⟨c, hlead, hfd, hout⟩ : ∃ c, (Control.machine cfg).Leads
        Control.ofProducer s.context c ∧ 0 < c.wakeupFd
        ∧ c.io = .outside :=
      Control.producers_wake hawake hio (hawake.ready hio (.inr hne))
    have hwoken := posters_lift h hp hlead
    have hs : (machine cfg).apply .loop { s with context := c }
        = some { s with context := { c with io := .readLoop } } := by
      show execLoop cfg _ = _
      unfold execLoop State.post
      simp only [hp, hout, hfd, Control.apply]
      rfl
    have hsame := (Control.pushed_leads (fun _ hb => Or.inl hb) hlead).2
    have hr := (hwoken.reachable h).step trivial hs
    obtain ⟨s', hend, hdone⟩ := drain_completes
      (s := { s with context := { c with io := .readLoop } }) hr hp ha
      (by show _ ∈ c.announced; rw [hsame]; exact hann) (by rintro ⟨⟩)
    exact ⟨s', hwoken.trans (.head (.inr (.inl rfl)) hs hend), hdone⟩
  · exact drain_completes h hp ha hann hio

/-- A child waits for a socket with a token, and the mailbox that
cancels its awaiter can be announced without anybody else's help. -/
def Announces (cfg : Control.Config) (s : State) (a : BaseAwaiter) : Prop :=
  ∃ s', (machine cfg).Leads ofCancel s s' ∧ s'.child = .suspended
    ∧ s'.awaiter = some a ∧ .cancel a.id ∈ s'.context.announced

/-- A step of the timer that leaves the child where it is. -/
theorem Announces.step (hs : (machine cfg).apply .timer s = some s')
    (h : Announces cfg s' a) : Announces cfg s a := by
  obtain ⟨s₁, hlead, hend⟩ := h
  exact ⟨s₁, .head (.inl rfl) hs hlead, hend⟩

theorem callback_announces (h : (machine cfg).Reachable s)
    (hp : s.child = .suspended) (ha : s.awaiter = some a)
    (ht : s.timer = .callback a.id) : Announces cfg s a := by
  have hidle := (posting_reachable h).timer (by rw [ht]; nofun)
  obtain ⟨c, hc⟩ : ∃ c, Control.apply cfg
      (.notify .timer (.cancel a.id)) s.context = some c := by
    simp only [Control.apply, if_pos hidle]
    exact ⟨_, rfl⟩
  have hs : (machine cfg).apply .timer s
      = some { s with context := c, timer := .notifying a.id } := by
    show execTimer cfg s = _
    simp only [execTimer, ht, State.post, hc]
    rfl
  refine ⟨_, .head (.inl rfl) hs (.refl _), hp, ha, ?_⟩
  show _ ∈ c.announced
  rw [(notify_effect hc).1]
  exact List.mem_append_right _ (List.mem_singleton_self _)

theorem callbacks_announce (h : (machine cfg).Reachable s)
    (hp : s.child = .suspended) (ha : s.awaiter = some a)
    (htoken : a.token = true) (ht : s.timer = .callbacks) :
    Announces cfg s a := by
  have hheld := (awaiting_reachable h).held a ha (by rw [hp]; rfl)
  rcases hheld.owed.mpr ⟨by rw [hp]; rfl, htoken⟩ with hk | hk | hk
  · have hs : (machine cfg).apply .timer s = some { s with
        source := { s.source with callback := none }
        timer := .callback a.id } := by
      show execTimer cfg s = _
      simp only [execTimer, ht, hk]
    exact .step hs (callback_announces (h.step trivial hs) hp ha rfl)
  · rw [ht] at hk
    cases hk
  · exact ⟨s, .refl s, hp, ha, hk⟩

/-- From wherever the timer's callback is. -/
theorem timer_announces (h : (machine cfg).Reachable s)
    (hp : s.child = .suspended) (ha : s.awaiter = some a)
    (htoken : a.token = true) (hfired : s.timer.fired = true) :
    Announces cfg s a := by
  have hcourse := course_reachable h
  have hheld := (awaiting_reachable h).held a ha (by rw [hp]; rfl)
  have howed := hheld.owed.mpr ⟨by rw [hp]; rfl, htoken⟩
  have hrequest : ∀ s₁ : State, (machine cfg).Reachable s₁ →
      s₁.child = .suspended → s₁.awaiter = some a →
      s₁.timer = .requestStop → Announces cfg s₁ a := by
    intro s₁ h₁ hp₁ ha₁ ht
    have hs : (machine cfg).apply .timer s₁ = some { s₁ with
        source := { s₁.source with requested := true }
        timer := .callbacks } := by
      show execTimer cfg s₁ = _
      simp only [execTimer, ht]
    exact .step hs
      (callbacks_announce (h₁.step trivial hs) hp₁ ha₁ htoken rfl)
  -- the callback has been taken out: only its run is left
  have hpopped : s.timer.popped = true →
      s.timer = .callback a.id ∨ .cancel a.id ∈ s.context.announced := by
    intro hpop
    refine howed.resolve_left fun hk => ?_
    rw [hcourse.callback (by rw [hk]; nofun)] at hpop
    cases hpop
  cases ht : s.timer with
  | unset | waiting | canceled =>
      rw [ht] at hfired
      cases hfired
  | check =>
      have hr := hcourse.requested
      rw [ht] at hr
      have hs : (machine cfg).apply .timer s
          = some { s with timer := .requestStop } := by
        show execTimer cfg s = _
        simp only [execTimer, ht, hr]
        rfl
      exact .step hs (hrequest _ (h.step trivial hs) hp ha rfl)
  | requestStop => exact hrequest s h hp ha ht
  | callbacks => exact callbacks_announce h hp ha htoken ht
  | callback k | notifying k | done =>
      rcases hpopped (by rw [ht]; rfl) with hk | hk
      · exact callback_announces h hp ha hk
      · exact ⟨s, .refl s, hp, ha, hk⟩

end Wait

/-- **A timeout ends the wait for a socket.** Let the delay elapse while
the child waits for a socket that it came to wait for after its token
was installed. Then the timer's callback, the IO thread and those who
have a `Notify` under way complete the awaiter with `-ECANCELED` on
their own; nothing but this or the awaiter's own IO ends the wait; and
it cannot go on once the callback is over and no mailbox is left. -/
theorem timeout_cancels (cfg : Control.Config) (s : State)
    (h : (machine cfg).Reachable s) (a : BaseAwaiter)
    (hp : s.child = .suspended) (ha : s.awaiter = some a)
    (hlate : a.early = false) (hfired : s.timer.fired = true) :
    (∃ s', (machine cfg).Leads ofCancel s s'
        ∧ (a.id, -ecanceled) ∈ s'.completions)
      ∧ (∀ act s', apply cfg act s = some s' →
        (s'.child = .suspended ∧ s'.awaiter = some a)
          ∨ (a.id, -ecanceled) ∈ s'.completions
          ∨ ∃ n, act = .ready (some n) ∧ (a.id, n) ∈ s'.completions)
      ∧ ¬ (s.timer = .done ∧ s.context.mailboxes = []) := by
  have hheld := (awaiting_reachable h).held a ha (by rw [hp]; rfl)
  have htoken : a.token = true := by
    rw [hheld.token (by rw [hp]; nofun), hlate]
    rfl
  refine ⟨?_, fun act s' hs => ?_, fun hquiet => ?_⟩
  · obtain ⟨s₁, hlead, hp₁, ha₁, hann⟩ :=
      timer_announces h hp ha htoken hfired
    obtain ⟨s₂, hlead', hdone⟩ :=
      announced_completes (hlead.reachable h) hp₁ ha₁ hann
    exact ⟨s₂, hlead.trans hlead', hdone⟩
  · exact (suspended_step h hp ha (apply_step hs)).imp_right
      (Or.imp_left And.right)
  · obtain ⟨hdone, hms⟩ := hquiet
    have hfifo := (fifo_reachable h).mailboxes
    rw [hms, List.append_nil] at hfifo
    rcases hheld.owed.mpr ⟨by rw [hp]; rfl, htoken⟩ with hk | hk | hk
    · have hpop := (course_reachable h).callback (by rw [hk]; nofun)
      rw [hdone] at hpop
      cases hpop
    · rw [hdone] at hk
      cases hk
    · rw [hfifo] at hk
      exact hheld.undrained hk

/-- A child whose first read completes and that waits for a second one
when the delay elapses. -/
def secondReadState : State :=
  (machine ⟨true, true⟩).final
    [.launch true, .await, .child, .tryIo none, .child, .launcher,
      .launcher, .launcher, .launcher, .ready (some 64), .child, .child,
      .await, .child, .tryIo none, .child, .fire] {}

def secondRead : BaseAwaiter :=
  { id := 1, token := true, callback := true }

theorem secondRead_canceled :
    secondReadState.awaiter = some secondRead
      ∧ ∃ s', (machine ⟨true, true⟩).Leads ofCancel secondReadState s'
        ∧ (1, -ecanceled) ∈ s'.completions :=
  ⟨by decide, (timeout_cancels ⟨true, true⟩ secondReadState
    (Machine.reachable_final rfl (by decide)) secondRead (by decide)
    (by decide) rfl (by decide)).1⟩

/-- A child that is still at its first read when the delay elapses. -/
def firstReadState : State :=
  (machine ⟨true, true⟩).final
    [.launch true, .await, .child, .tryIo none, .child, .launcher,
      .launcher, .launcher, .launcher, .fire, .timer, .timer, .timer] {}

/-- The stop was requested, the callback is over, nothing is on its way
to the IO thread, and unless its read completes the child waits for
ever. -/
theorem firstRead_waits :
    (machine ⟨true, true⟩).Reachable firstReadState
      ∧ firstReadState.source.requested = true
      ∧ firstReadState.timer = .done
      ∧ firstReadState.context.mailboxes = []
      ∧ ∀ s, ((machine ⟨true, true⟩).startedAt firstReadState).Reach
        (fun _ act => ∀ n, act ≠ .ready (some n)) s →
          s.child = .suspended := by
  have hreach : (machine ⟨true, true⟩).Reachable firstReadState :=
    Machine.reachable_final rfl (by decide)
  refine ⟨hreach, by decide, by decide, by decide, fun s h => ?_⟩
  have hwait : s.child = .suspended
      ∧ s.awaiter = some { id := 0, early := true } := by
    refine h.invariant (I := fun s => s.child = .suspended
      ∧ s.awaiter = some { id := 0, early := true }) ?_
      fun s s' act hs hw hok happly => ?_
    · rintro _ rfl
      exact ⟨by decide, by decide⟩
    · rcases suspended_step (hreach.onward hs) hw.1 hw.2
        (apply_step happly) with hsame | ⟨htoken, -⟩ | ⟨n, hn, -⟩
      · exact hsame
      · cases htoken
      · exact absurd hn (hok n)
  exact hwait.1

end AntRpc.Coroutine.Timeout
