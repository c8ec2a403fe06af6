/-
A coroutine is resumed once at most, and not after its awaiter is gone,
unless the awaiter is destroyed between `Fire` and the drain.

# The armed flag

`Fire` and the destructor exchange the same flag. Whoever finds it set
decides: after `Fire` the mailbox is queued, after the destructor it
never will be. What the destructor cannot do is take a queued mailbox
back: if it finds the flag cleared while the handle is still there, the
drain resumes a coroutine that may be gone.
-/
import AntRpc.Context.TimerAwaiter
import AntRpc.Context.Proofs.Control

namespace AntRpc.Context.TimerAwaiter

open Lib

variable {ι α : Type}

/-- The destructor is past the exchange. -/
def DestroyPc.spent : DestroyPc → Bool
  | .cancel | .release | .destroyed => true
  | _ => false

/-- What holds of an awaiter, given whether its mailbox is queued or
being drained. -/
structure AwaiterOk (x : Awaiter) (queued : Prop) : Prop where
  fired : queued ∨ x.callback = .notify → x.armed = false
  spared : x.destroy.spent = true → x.handle = true →
    x.armed = false ∧ ¬queued ∧ x.callback ≠ .notify
  once : x.resumes + x.handle.toNat ≤ 1
  fresh : x.suspend = .constructed ∨ x.suspend = .storeHandle →
    x.resumes = 0 ∧ x.handle = false
  storing : x.suspend = .storeHandle → x.destroy = .alive
  late : x.lateResumes = 0

/-- The awaiter's mailbox is in the queue or taken out of it. -/
def State.Queued (s : State ι α) (i : ι) : Prop :=
  some i ∈ s.context.mailboxes ∨ s.draining = some i

/-- The awaiter of a suspended coroutine is destroyed before its timer
fires. -/
def destroyedInTime (s : State ι α) : Action ι α → Bool
  | .destroy i =>
      let x := s.awaiters i
      match x.destroy with
      | .checkId => !x.handle || x.timerId ≠ 0
      | .exchange => !x.handle || x.armed
      | _ => true
  | _ => true

variable {x x' : Awaiter} {queued queued' : Prop}

-- == awaiters

theorem AwaiterOk.mono (h : AwaiterOk x queued)
    (himp : queued' → queued) : AwaiterOk x queued' :=
  { h with
    fired := fun hq => h.fired (hq.imp_left himp)
    spared := fun hd hh =>
      have ⟨ha, hq, hc⟩ := h.spared hd hh
      ⟨ha, fun hq' => hq (himp hq'), hc⟩ }

theorem AwaiterOk.coAwait {delay : Int64} (h : AwaiterOk x queued)
    (hs : x.coAwait delay = some x') : AwaiterOk x' queued := by
  simp only [Awaiter.coAwait] at hs
  split at hs
  · next hfresh =>
    cases hs
    exact { h with
      fresh := fun _ => h.fresh (Or.inl hfresh.1)
      storing := fun _ => hfresh.2 }
  · cases hs

theorem AwaiterOk.awaitSuspend {id : UInt64} (h : AwaiterOk x queued)
    (hs : x.awaitSuspend id = some x') : AwaiterOk x' queued := by
  cases hpc : x.suspend with
  | constructed | ready | suspended =>
      rw [Awaiter.awaitSuspend, hpc] at hs
      cases hs
  | storeHandle =>
      have halive := h.storing hpc
      obtain ⟨hresumes, -⟩ := h.fresh (Or.inr hpc)
      rw [Awaiter.awaitSuspend, hpc] at hs
      cases hs
      exact { h with
        spared := fun hd _ => by
          rw [show (_ : DestroyPc) = _ from halive] at hd
          cases hd
        once := by
          show x.resumes + 1 ≤ 1
          omega
        fresh := nofun
        storing := nofun }
  | addTimer =>
      rw [Awaiter.awaitSuspend, hpc] at hs
      cases hs
      exact { h with
        fired := fun hq => h.fired (Or.inl (hq.resolve_right nofun))
        spared := fun hd hh =>
          have ⟨ha, hq, _⟩ := h.spared hd hh
          ⟨ha, hq, nofun⟩
        fresh := nofun
        storing := nofun }
  | storeId =>
      rw [Awaiter.awaitSuspend, hpc] at hs
      cases hs
      exact { h with fresh := nofun, storing := nofun }

theorem AwaiterOk.fire (h : AwaiterOk x queued)
    (hs : x.fire = some x') : AwaiterOk x' queued := by
  cases hpc : x.callback with
  | unarmed | notify | done =>
      rw [Awaiter.fire, hpc] at hs
      cases hs
  | pending =>
      rw [Awaiter.fire, hpc] at hs
      cases hs
      have hne : (if x.destroy = .destroyed then CallbackPc.done
          else .exchange) ≠ .notify := by
        split <;> nofun
      exact { h with
        fired := fun hq => h.fired (Or.inl (hq.resolve_right hne))
        spared := fun hd hh =>
          have ⟨ha, hq, _⟩ := h.spared hd hh
          ⟨ha, hq, hne⟩ }
  | exchange =>
      rw [Awaiter.fire, hpc] at hs
      cases hs
      exact { h with
        fired := fun _ => rfl
        spared := fun hd hh => by
          -- the destructor had the flag, so `Fire` does not get it
          obtain ⟨ha, hq, -⟩ := h.spared hd hh
          refine ⟨rfl, hq, ?_⟩
          show (if x.armed then CallbackPc.notify else .done) ≠ .notify
          rw [ha]
          nofun }

theorem AwaiterOk.destruct (h : AwaiterOk x queued)
    (hid : x.destroy = .checkId → x.handle = true → x.timerId ≠ 0)
    (harmed : x.destroy = .exchange → x.handle = true → x.armed = true)
    (hs : x.destruct = some x') : AwaiterOk x' queued := by
  cases hpc : x.destroy with
  | alive =>
      -- `await_suspend` has not begun or is over
      have hx' : x' = { x with destroy := .checkId }
          ∧ x.suspend ≠ .storeHandle := by
        rw [Awaiter.destruct, hpc] at hs
        cases hsus : x.suspend with
        | constructed | ready | suspended =>
            rw [hsus] at hs
            cases hs
            exact ⟨rfl, nofun⟩
        | storeHandle =>
            have hresumes := (h.fresh (Or.inr hsus)).1
            rw [hsus] at hs
            simp [hresumes] at hs
        | addTimer | storeId =>
            rw [hsus] at hs
            simp only at hs
            split at hs <;> cases hs
            exact ⟨rfl, nofun⟩
      obtain ⟨rfl, hsus⟩ := hx'
      exact { h with
        spared := nofun
        storing := fun hst => absurd hst hsus }
  | checkId =>
      have hsus : x.suspend ≠ .storeHandle := fun hst => by
        rw [h.storing hst] at hpc
        cases hpc
      rw [Awaiter.destruct, hpc] at hs
      cases hs
      exact { h with
        spared := fun hd hh => by
          have hne := hid hpc hh
          rw [show (_ : DestroyPc) = _ from if_neg hne] at hd
          cases hd
        storing := fun hst => absurd hst hsus }
  | exchange =>
      have hsus : x.suspend ≠ .storeHandle := fun hst => by
        rw [h.storing hst] at hpc
        cases hpc
      rw [Awaiter.destruct, hpc] at hs
      cases hs
      exact { h with
        fired := fun _ => rfl
        spared := fun _ hh => by
          -- the flag was still set, so `Fire` has not queued anything
          have hset := harmed hpc hh
          refine ⟨rfl, fun hq => ?_, fun hc => ?_⟩
          · rw [h.fired (Or.inl hq)] at hset
            cases hset
          · rw [h.fired (Or.inr hc)] at hset
            cases hset
        storing := fun hst => absurd hst hsus }
  | cancel | release =>
      have hspent : x.destroy.spent = true := by rw [hpc]; rfl
      have hsus : x.suspend ≠ .storeHandle := fun hst => by
        rw [h.storing hst] at hpc
        cases hpc
      rw [Awaiter.destruct, hpc] at hs
      cases hs
      exact { h with
        spared := fun _ hh => h.spared hspent hh
        storing := fun hst => absurd hst hsus }
  | destroyed =>
      rw [Awaiter.destruct, hpc] at hs
      cases hs

/-- The drain of a queued mailbox. -/
theorem AwaiterOk.drainCommands (h : AwaiterOk x queued) (hq : queued) :
    AwaiterOk x.drainCommands queued := by
  unfold Awaiter.drainCommands
  split
  · next hhandle =>
    have hne : x.destroy ≠ .destroyed := fun hd =>
      (h.spared (by rw [hd]; rfl) hhandle).2.1 hq
    have honce := h.once
    rw [hhandle, Bool.toNat_true] at honce
    exact { h with
      spared := nofun
      once := by
        show x.resumes + 1 + 0 ≤ 1
        omega
      fresh := fun hf => by
        have := (h.fresh hf).2
        rw [hhandle] at this
        cases this
      late := by
        show (if x.destroy = .destroyed then _ else _) = _
        rw [if_neg hne]
        exact h.late }
  · exact h

/-- The push of the mailbox. -/
theorem AwaiterOk.notify (h : AwaiterOk x queued)
    (hpc : x.callback = .notify) :
    AwaiterOk { x with callback := .done } True :=
  { h with
    fired := fun _ => h.fired (Or.inr hpc)
    spared := fun hd hh => absurd hpc (h.spared hd hh).2.2 }

-- == machine

section Machine

variable [DecidableEq ι] {cfg : Control.Config} {s s' : State ι α}

omit [DecidableEq ι] in
theorem wakeup_mailboxes (c : Control.State (Thread ι) α (Option ι)) :
    c.wakeup.mailboxes = c.mailboxes := by
  rw [Control.wakeup_same c]

/-- A step of others leaves the queue of awaiters' mailboxes alone. -/
theorem foreign_mailboxes {a : Control.Action (Thread ι) α (Option ι)}
    {c c' : Control.State (Thread ι) α (Option ι)}
    (hforeign : foreign a = true) (hs : Control.apply cfg a c = some c')
    (i : ι) (hi : some i ∈ c'.mailboxes) : some i ∈ c.mailboxes := by
  cases a with
  | post t cmd =>
      simp only [Control.apply] at hs
      split at hs <;> cases hs
      exact hi
  | notify t mailbox =>
      cases t with
      | callback j => cases hforeign
      | other n =>
          cases mailbox with
          | some j => cases hforeign
          | none =>
              simp only [Control.apply] at hs
              split at hs <;> cases hs
              exact (List.mem_append.mp hi).resolve_right
                (by rw [List.mem_singleton]; rintro ⟨⟩)
  | producer t =>
      simp only [Control.apply, Control.execProducer] at hs
      split at hs <;> cases hs
      · exact hi
      · exact wakeup_mailboxes c ▸ hi
  | wakeup =>
      cases hs
      exact wakeup_mailboxes c ▸ hi
  | drain =>
      simp only [Control.apply] at hs
      split at hs <;> cases hs
      exact hi
  | io => cases hforeign

/-- A step of the drain takes out what was queued. -/
theorem io_mailboxes {c c' : Control.State (Thread ι) α (Option ι)}
    (hs : Control.apply cfg .io c = some c') (i : ι)
    (hi : some i ∈ c'.mailboxes ∨ popped c = some i) :
    some i ∈ c.mailboxes := by
  cases hio : c.io with
  | mailboxes =>
      simp only [Control.apply, Control.execDrain, hio] at hs
      simp only [popped, hio, if_pos] at hi
      cases hboxes : c.mailboxes with
      | nil =>
          rw [hboxes] at hs hi
          cases hs
          simp at hi
      | cons mailbox rest =>
          rw [hboxes] at hs hi
          cases hs
          rcases hi with hi | hi
          · exact List.mem_cons_of_mem _ hi
          · have hi : mailbox = some i := hi
            rw [hi]
            exact List.mem_cons_self
  | outside =>
      simp only [Control.apply, Control.execDrain, hio] at hs
      cases hs
  | clear =>
      simp only [Control.apply, Control.execDrain, hio] at hs
      cases hs
      exact hi.resolve_right (by rw [popped, hio]; rintro ⟨⟩)
  | readLoop | commands =>
      simp only [Control.apply, Control.execDrain, hio] at hs
      split at hs <;> cases hs <;>
        exact hi.resolve_right (by rw [popped, hio]; rintro ⟨⟩)

def Ok (s : State ι α) : Prop := ∀ i, AwaiterOk (s.awaiters i) (s.Queued i)

/-- A step of one awaiter. -/
theorem Ok.setAwaiter {x' : Awaiter} (h : Ok s) {i : ι}
    (hx : AwaiterOk x' (s.Queued i)) : Ok (s.setAwaiter i x') := by
  intro j
  show AwaiterOk (Function.update s.awaiters i x' j) _
  by_cases hj : j = i
  · subst hj
    rw [Function.update_self]
    exact hx
  · rw [Function.update_of_ne hj]
    exact h j

/-- The callback queues its mailbox. -/
theorem Ok.notify (h : Ok s) {i : ι}
    (hpc : (s.awaiters i).callback = .notify)
    (hs : notify cfg s i = some s') : Ok s' := by
  obtain ⟨c, hc, rfl⟩ := Option.map_eq_some_iff.mp hs
  simp only [Control.apply] at hc
  split at hc <;> cases hc
  intro j
  show AwaiterOk (Function.update s.awaiters i _ j) _
  by_cases hj : j = i
  · subst hj
    rw [Function.update_self]
    exact ((h j).notify hpc).mono fun _ => trivial
  · rw [Function.update_of_ne hj]
    refine (h j).mono fun hq => hq.imp_left fun hin => ?_
    refine (List.mem_append.mp hin).resolve_right ?_
    rw [List.mem_singleton, Option.some_inj]
    exact hj

theorem ok_step {a : Action ι α} (h : Ok s)
    (hok : destroyedInTime s a = true) (hs : apply cfg a s = some s') :
    Ok s' := by
  cases a with
  | coAwait i delay =>
      obtain ⟨x', hx', rfl⟩ := Option.map_eq_some_iff.mp hs
      exact h.setAwaiter ((h i).coAwait hx')
  | awaitSuspend i id =>
      obtain ⟨x', hx', rfl⟩ := Option.map_eq_some_iff.mp hs
      exact h.setAwaiter ((h i).awaitSuspend hx')
  | callback i =>
      simp only [apply] at hs
      split at hs
      · next hpc => exact h.notify hpc hs
      · obtain ⟨x', hx', rfl⟩ := Option.map_eq_some_iff.mp hs
        exact h.setAwaiter ((h i).fire hx')
  | destroy i =>
      obtain ⟨x', hx', rfl⟩ := Option.map_eq_some_iff.mp hs
      refine h.setAwaiter ((h i).destruct (fun hpc hh => ?_)
        (fun hpc hh => ?_) hx')
      · simpa [destroyedInTime, hpc, hh] using hok
      · simpa [destroyedInTime, hpc, hh] using hok
  | context a =>
      simp only [apply] at hs
      split at hs
      · next hforeign =>
        obtain ⟨c, hc, rfl⟩ := Option.map_eq_some_iff.mp hs
        exact fun i => (h i).mono fun hq =>
          hq.imp_left (foreign_mailboxes hforeign hc i)
      · cases hs
  | io =>
      simp only [apply] at hs
      split at hs
      · obtain ⟨c, hc, rfl⟩ := Option.map_eq_some_iff.mp hs
        exact fun i => (h i).mono fun hq => Or.inl (io_mailboxes hc i hq)
      · cases hs
  | drainCommands =>
      obtain ⟨i, hi, rfl⟩ := Option.map_eq_some_iff.mp hs
      have hleft : Ok { s with draining := none } := fun j =>
        (h j).mono fun hq => Or.inl (hq.resolve_right nofun)
      exact hleft.setAwaiter (((h i).drainCommands (Or.inr hi)).mono
        fun hq => Or.inl (hq.resolve_right nofun))

/-- **A coroutine is resumed once and in time.** If no awaiter of a
suspended coroutine is destroyed after its timer fired, its coroutine is
resumed once at most, and never after the awaiter's destructor has
returned. -/
theorem awaiter_resumed_once (cfg : Control.Config) (s : State ι α)
    (hreach : (machine cfg).Reach
      (fun s a => destroyedInTime s a = true) s) (i : ι) :
    (s.awaiters i).resumes ≤ 1 ∧ (s.awaiters i).lateResumes = 0 := by
  have h : Ok s := hreach.invariant (I := Ok)
    (by
      rintro s rfl i
      exact ⟨nofun, nofun, Nat.zero_le 1, fun _ => ⟨rfl, rfl⟩, nofun, rfl⟩)
    fun _ _ _ _ ih hok hs => ok_step ih hok hs
  exact ⟨Nat.le_of_add_right_le (h i).once, (h i).late⟩

end Machine

/-- A coroutine waits for its timer, the timer fires and queues the
mailbox. -/
def firedRun : List (Action Unit Unit) :=
  .coAwait () 1000 :: (List.replicate 3 (.awaitSuspend () 16)
    ++ List.replicate 3 (.callback ()))

/-- The awaiter is destroyed. -/
def destroyRun : List (Action Unit Unit) :=
  List.replicate 4 (.destroy ())

/-- The IO thread drains. -/
def drainRun : List (Action Unit Unit) :=
  [.context .drain, .io, .io, .io, .io, .drainCommands]

/-- Destroyed after `Fire`: the coroutine is resumed all the same. -/
theorem firedRun_late :
    ∃ s : State Unit Unit,
      (machine ⟨true, true⟩).Reachable s
      ∧ (s.awaiters ()).lateResumes = 1 :=
  ⟨(machine ⟨true, true⟩).final (firedRun ++ destroyRun ++ drainRun) {},
    Machine.reachable_final rfl (by decide +kernel), by decide +kernel⟩

/-- Destroyed after the drain. -/
theorem firedRun_once :
    (((machine ⟨true, true⟩).finalWhile destroyedInTime
        (firedRun ++ drainRun ++ destroyRun)
        ({} : State Unit Unit)).awaiters ()).resumes = 1
    ∧ (((machine ⟨true, true⟩).finalWhile destroyedInTime
        (firedRun ++ drainRun ++ destroyRun)
        ({} : State Unit Unit)).awaiters ()).lateResumes = 0 :=
  ⟨by decide +kernel, (awaiter_resumed_once ⟨true, true⟩ _
    (Machine.reach_finalWhile rfl (by decide +kernel)) ()).2⟩

end AntRpc.Context.TimerAwaiter
