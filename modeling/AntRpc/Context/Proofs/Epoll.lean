/-
Which handlers `ProcessEvents` calls.

# The two ways to call a wrong one

Both handlers of an event are fetched before the first one is called, so
user code run by the first can cancel the second, which is called all the
same (`canceledWrite_invoked`). And a handler that user code registers
during a batch is called for an event of that batch if its descriptor
comes up later, although it was not registered when the batch was
returned.

# The condition

`keepsBatch` excludes these two: no cancel of the handler that is next
for the same event, no new wait on a descriptor with an event still to
come. Then every handler called was waiting when the batch was returned
and has not ended since. The invariant: on the descriptors still to come,
who waits now waited then, and whoever waits, or was fetched, is not
done.
-/
import AntRpc.Context.Epoll

namespace AntRpc.Context

open Lib

variable {handlers : Nat → Handler} {s s' : State}

-- == waiters

theorem Waiters.entry_on (w : Waiters) (side : Side) :
    (w.entry.bind fun w => w.on side) = w.on side := by
  unfold Waiters.entry
  split
  · next hnone => cases side <;> simp [Waiters.on, hnone.1, hnone.2]
  · rfl

theorem waiting_entry (waits : Nat → Option Waiters) (fd fd' : Nat)
    (w : Waiters) (side : Side) :
    waiting (Function.update waits fd w.entry) fd' side
      = if fd' = fd then w.on side else waiting waits fd' side := by
  unfold waiting
  rcases eq_or_ne fd' fd with rfl | hne
  · rw [Function.update_self, if_pos rfl, Waiters.entry_on]
  · rw [Function.update_of_ne hne, if_neg hne]

theorem waiting_register (h fd : Nat) (side : Side) :
    waiting (s.register handlers h).waits fd side
      = if fd = (handlers h).fd ∧ side = (handlers h).side then some h
        else waiting s.waits fd side := by
  show waiting (Function.update s.waits _ _) fd side = _
  unfold waiting
  rcases eq_or_ne fd (handlers h).fd with rfl | hne
  · rw [Function.update_self]
    simp only [true_and, Option.bind_some]
    cases hw : s.waits (handlers h).fd <;>
      cases side <;> cases hside : (handlers h).side <;>
      simp [Waiters.set, Waiters.on]
  · rw [Function.update_of_ne hne, if_neg (fun hc => hne hc.1)]

theorem waiting_cancelWait (h fd : Nat) (side : Side) :
    waiting (s.cancelWait h).waits fd side
      = if waiting s.waits fd side = some h then none
        else waiting s.waits fd side := by
  unfold waiting State.cancelWait
  cases hw : s.waits fd with
  | none => simp only [hw, Option.bind_none, reduceCtorEq, if_false]
  | some w =>
      simp only [hw, Option.bind_some, Waiters.entry_on]
      cases side <;> rfl

/-- Nobody waits in the second who does not wait in the first. -/
def Shrinks (waits waits' : Nat → Option Waiters) : Prop :=
  ∀ fd side h, waiting waits' fd side = some h →
    waiting waits fd side = some h

theorem cancelWait_shrinks (h : Nat) :
    Shrinks s.waits (s.cancelWait h).waits := by
  intro fd side h' hw
  rw [waiting_cancelWait] at hw
  split at hw
  · cases hw
  · exact hw

-- == condition

/-- The events still to come. -/
def Pc.rest : Pc → List Event
  | .outside => []
  | .next rest | .entered _ _ _ rest | .resumed _ _ _ rest
  | .draining rest => rest

/-- The write handler that is next for the same event. -/
def Pc.fetched : Pc → Option Nat
  | .entered _ _ fetched _ | .resumed _ _ fetched _ => fetched
  | _ => none

def Event.isOf (fd : Nat) : Event → Bool
  | .wakeup => false
  | .ready fd' _ => fd' = fd

/-- User code does not cancel the handler that is next, and starts no
wait on a descriptor with an event still to come. -/
def keepsBatch (handlers : Nat → Handler) (s : State) : Action → Bool
  | .cancel h => s.pc.fetched ≠ some h
  | .await h => !s.pc.rest.any (Event.isOf (handlers h).fd)
  | _ => true

-- == invariant

/-- Handler `h`, taken out of `waits_`, may be called for `fd`. -/
structure Callable (handlers : Nat → Handler) (s : State) (h fd : Nat)
    (side : Side) : Prop where
  fd_eq : (handlers h).fd = fd
  side_eq : (handlers h).side = side
  live : s.done h = false
  awaited : s.awaited h = true
  known : waiting s.atReturn fd side = some h
  absent : ∀ fd side, waiting s.waits fd side ≠ some h

/-- The fetched write handler is another one and may be called. -/
def NextOk (handlers : Nat → Handler) (s : State) (h fd : Nat)
    (fetched : Option Nat) : Prop :=
  ∀ w, fetched = some w → w ≠ h ∧ Callable handlers s w fd .writable

/-- What is known of the handlers of the event being processed. -/
def PcOk (handlers : Nat → Handler) (s : State) : Pc → Prop
  | .outside | .next _ | .draining _ => True
  | .entered h fd fetched _ =>
      (∃ side, Callable handlers s h fd side)
        ∧ NextOk handlers s h fd fetched
  | .resumed h fd fetched _ =>
      ((handlers h).kind = .acceptor →
        ∃ side, Callable handlers s h fd side)
        ∧ NextOk handlers s h fd fetched

/-- Whoever waits is not done, whoever ended is, and the calls so far
were right. -/
structure Sound (handlers : Nat → Handler) (s : State) : Prop where
  waits : ∀ fd side h, waiting s.waits fd side = some h →
    (handlers h).fd = fd ∧ (handlers h).side = side ∧ s.done h = false
      ∧ s.awaited h = true
  ended : ∀ h, s.ended h = true → s.done h = true
  done : ∀ h, s.done h = true → s.awaited h = true
  calls : ∀ i ∈ s.invocations, i.registered = true ∧ i.ended = false

/-- On the descriptors still to come, who waits now waited at the
return of the batch. -/
def Kept (s : State) (rest : List Event) : Prop :=
  ∀ fd side h, rest.any (Event.isOf fd) = true →
    waiting s.waits fd side = some h → waiting s.atReturn fd side = some h

structure Inv (handlers : Nat → Handler) (s : State) : Prop where
  sound : Sound handlers s
  kept : Kept s s.pc.rest
  pc : PcOk handlers s s.pc

theorem inv_start : Inv handlers {} where
  sound := ⟨nofun, nofun, nofun, nofun⟩
  kept := nofun
  pc := trivial

-- == single changes

theorem Sound.goto (hs : Sound handlers s) (pc : Pc) :
    Sound handlers { s with pc := pc } :=
  ⟨hs.waits, hs.ended, hs.done, hs.calls⟩

theorem Sound.shrink (hs : Sound handlers s)
    {waits : Nat → Option Waiters} (hw : Shrinks s.waits waits) :
    Sound handlers { s with waits := waits } :=
  ⟨fun fd side h hh => hs.waits fd side h (hw fd side h hh), hs.ended,
    hs.done, hs.calls⟩

theorem Sound.register (hs : Sound handlers s) {h : Nat}
    (hlive : s.done h = false) (hawaited : s.awaited h = true) :
    Sound handlers (s.register handlers h) := by
  refine ⟨fun fd side h' hw => ?_, hs.ended, hs.done, hs.calls⟩
  rw [waiting_register] at hw
  split at hw
  · next hat =>
    cases hw
    exact ⟨hat.1.symm, hat.2.symm, hlive, hawaited⟩
  · exact hs.waits fd side h' hw

theorem Sound.finish (hs : Sound handlers s) {h : Nat}
    (hawaited : s.awaited h = true)
    (habsent : ∀ fd side, waiting s.waits fd side ≠ some h) :
    Sound handlers (s.finish h) := by
  refine ⟨fun fd side h' hw => ?_, fun h' he => ?_, fun h' hd => ?_,
    hs.calls⟩
  · obtain ⟨hfd, hside, hlive, hawaited⟩ := hs.waits fd side h' hw
    have hne : h' ≠ h := fun heq => habsent fd side (heq ▸ hw)
    exact ⟨hfd, hside, (Function.update_of_ne hne _ _).trans hlive,
      hawaited⟩
  · rcases eq_or_ne h' h with rfl | hne
    · exact Function.update_self ..
    · have he : s.ended h' = true := by
        rwa [← Function.update_of_ne hne true s.ended]
      exact (Function.update_of_ne hne _ _).trans (hs.ended h' he)
  · rcases eq_or_ne h' h with rfl | hne
    · exact hawaited
    · exact hs.done h' (by rwa [← Function.update_of_ne hne true s.done])

theorem awaited_mono {h h' : Nat} (hh : s.awaited h' = true) :
    Function.update s.awaited h true h' = true := by
  rw [Function.update_apply, hh]
  split <;> rfl

theorem Sound.await (hs : Sound handlers s) (h : Nat) :
    Sound handlers
      { s with awaited := Function.update s.awaited h true } := by
  refine ⟨fun fd side h' hw => ?_, hs.ended,
    fun h' hd => awaited_mono (hs.done h' hd), hs.calls⟩
  obtain ⟨hfd, hside, hlive, hawaited⟩ := hs.waits fd side h' hw
  exact ⟨hfd, hside, hlive, awaited_mono hawaited⟩

theorem Sound.cancel (hs : Sound handlers s) {h : Nat}
    (hawaited : s.awaited h = true) : Sound handlers (s.cancel h) := by
  unfold State.cancel
  split
  · exact hs
  · refine (hs.shrink (cancelWait_shrinks h)).finish hawaited ?_
    intro fd side hw
    change waiting (s.cancelWait h).waits fd side = some h at hw
    rw [waiting_cancelWait] at hw
    split at hw
    · cases hw
    · next hne => exact hne hw

/-- The handler called was waiting at the return and has not ended. -/
theorem Sound.invoke (hs : Sound handlers s) {h fd : Nat} {side : Side}
    (hh : Callable handlers s h fd side) (fetched : Option Nat)
    (rest : List Event) :
    Sound handlers (s.invoke h fd side fetched rest) := by
  refine ⟨hs.waits, hs.ended, hs.done, fun i hi => ?_⟩
  rcases List.mem_append.1 hi with hi | hi
  · exact hs.calls i hi
  · rw [List.mem_singleton.1 hi]
    refine ⟨decide_eq_true hh.known, ?_⟩
    cases he : s.ended h with
    | false => rfl
    | true => exact absurd (hs.ended h he) (by rw [hh.live]; decide)

theorem Callable.goto {h fd : Nat} {side : Side}
    (hh : Callable handlers s h fd side)
    (hdone : s'.done h = s.done h) (hawaited : s'.awaited h = s.awaited h)
    (hreturn : s'.atReturn = s.atReturn)
    (habsent : ∀ fd side, waiting s'.waits fd side ≠ some h) :
    Callable handlers s' h fd side :=
  ⟨hh.fd_eq, hh.side_eq, hdone.trans hh.live, hawaited.trans hh.awaited,
    hreturn ▸ hh.known, habsent⟩

theorem Callable.register {h fd : Nat} {side : Side}
    (hh : Callable handlers s h fd side) {h' : Nat} (hne : h ≠ h') :
    Callable handlers (s.register handlers h') h fd side := by
  refine hh.goto rfl rfl rfl fun fd side hw => ?_
  rw [waiting_register] at hw
  split at hw
  · exact hne (Option.some.inj hw).symm
  · exact hh.absent fd side hw

theorem Callable.finish {h fd : Nat} {side : Side}
    (hh : Callable handlers s h fd side) {h' : Nat} (hne : h ≠ h') :
    Callable handlers (s.finish h') h fd side :=
  hh.goto (Function.update_of_ne hne _ _) rfl rfl hh.absent

theorem Callable.shrink {h fd : Nat} {side : Side}
    (hh : Callable handlers s h fd side)
    {waits : Nat → Option Waiters} (hw : Shrinks s.waits waits) :
    Callable handlers { s with waits := waits } h fd side :=
  hh.goto rfl rfl rfl fun fd side hc => hh.absent fd side (hw fd side h hc)

theorem Callable.cancel {h fd : Nat} {side : Side}
    (hh : Callable handlers s h fd side) {h' : Nat} (hne : h ≠ h') :
    Callable handlers (s.cancel h') h fd side := by
  unfold State.cancel
  split
  · exact hh
  · exact (hh.shrink (cancelWait_shrinks h')).finish hne

theorem Callable.await {h fd : Nat} {side : Side}
    (hh : Callable handlers s h fd side) (h' : Nat) :
    Callable handlers
      { s with awaited := Function.update s.awaited h' true } h fd side :=
  ⟨hh.fd_eq, hh.side_eq, hh.live, awaited_mono hh.awaited, hh.known,
    hh.absent⟩

theorem NextOk.imp {h fd : Nat} {fetched : Option Nat}
    (hn : NextOk handlers s h fd fetched)
    (himp : ∀ w, fetched = some w → w ≠ h →
      Callable handlers s w fd .writable →
      Callable handlers s' w fd .writable) :
    NextOk handlers s' h fd fetched :=
  fun w hw => ⟨(hn w hw).1, himp w hw (hn w hw).1 (hn w hw).2⟩

theorem Kept.shrink {rest : List Event} (hk : Kept s rest)
    {waits : Nat → Option Waiters} (hw : Shrinks s.waits waits) :
    Kept { s with waits := waits } rest :=
  fun fd side h hc hh => hk fd side h hc (hw fd side h hh)

theorem Kept.tail {event : Event} {rest : List Event}
    (hk : Kept s (event :: rest)) : Kept s rest :=
  fun fd side h hc hw =>
    hk fd side h (by rw [List.any_cons, hc, Bool.or_true]) hw

/-- A handler registers where no event comes, or where it waited. -/
theorem Kept.register {rest : List Event} (hk : Kept s rest) {h : Nat}
    (hh : rest.any (Event.isOf (handlers h).fd) = true →
      waiting s.atReturn (handlers h).fd (handlers h).side = some h) :
    Kept (s.register handlers h) rest := by
  intro fd side h' hc hw
  rw [waiting_register] at hw
  split at hw
  · next hat =>
    cases hw
    rw [hat.1] at hc
    rw [hat.1, hat.2]
    exact hh hc
  · exact hk fd side h' hc hw

-- == steps

/-- Handler `h` returned; the fetched one, if any, is called. -/
theorem inv_returned {h fd : Nat} {fetched : Option Nat}
    {rest : List Event} (hs : Sound handlers s) (hk : Kept s rest)
    (hn : NextOk handlers s h fd fetched) :
    Inv handlers (s.returned h fd fetched rest) := by
  unfold State.returned
  cases fetched with
  | none => exact ⟨hs.goto _, hk, trivial⟩
  | some w =>
      obtain ⟨hne, hw⟩ := hn w rfl
      show Inv handlers (if w = h then _ else _)
      rw [if_neg hne]
      exact ⟨hs.invoke hw none rest, hk,
        ⟨_, hw.goto rfl rfl rfl hw.absent⟩, nofun⟩

/-- A handler that waited on the event's descriptor may be called once it
was taken out. -/
theorem callable_taken {h fd : Nat} {side : Side} (hs : Sound handlers s)
    (hwait : waiting s.waits fd side = some h)
    (hknown : waiting s.atReturn fd side = some h)
    {waits : Nat → Option Waiters} (hw : Shrinks s.waits waits)
    (hout : waiting waits fd side = none) :
    Callable handlers { s with waits := waits } h fd side := by
  obtain ⟨hfd, hside, hlive, hawaited⟩ := hs.waits fd side h hwait
  refine ⟨hfd, hside, hlive, hawaited, hknown, fun fd' side' hc => ?_⟩
  -- `h` can only wait where it is made for, and there it was taken out
  obtain ⟨hfd', hside', -, -⟩ :=
    hs.waits fd' side' h (hw fd' side' h hc)
  rw [← hfd', ← hside', hfd, hside] at hc
  change waiting waits fd side = some h at hc
  rw [hout] at hc
  cases hc

/-- What is left of a descriptor's waiters by an event. -/
def Waiters.left (w : Waiters) (flags : Flags) : Waiters :=
  ⟨if flags.wakes .readable then none else w.readable,
    if flags.wakes .writable then none else w.writable⟩

theorem Waiters.left_on (w : Waiters) (flags : Flags) (side : Side) :
    (w.left flags).on side
      = if flags.wakes side then none else w.on side := by
  cases side <;> rfl

theorem left_shrinks {fd : Nat} {w : Waiters} (hw : s.waits fd = some w)
    (flags : Flags) :
    Shrinks s.waits
      (Function.update s.waits fd (w.left flags).entry) := by
  intro fd' side h hh
  rw [waiting_entry, Waiters.left_on] at hh
  split at hh
  · next heq =>
    split at hh
    · cases hh
    · rw [heq, waiting, hw]
      exact hh
  · exact hh

theorem inv_dispatch {fd : Nat} {flags : Flags} {rest : List Event}
    (hs : Sound handlers s) (hk : Kept s (.ready fd flags :: rest)) :
    Inv handlers (s.dispatch fd flags rest) := by
  unfold State.dispatch
  cases hw : s.waits fd with
  | none => exact ⟨hs.goto _, hk.tail, trivial⟩
  | some w =>
      have hshrink := left_shrinks hw flags
      -- whoever is woken waited, and waited at the return
      have htaken : ∀ side h, flags.wakes side = true →
          w.on side = some h →
          Callable handlers
            { s with
              waits := Function.update s.waits fd (w.left flags).entry }
            h fd side := by
        intro side h hwakes hon
        have hwait : waiting s.waits fd side = some h := by
          rw [waiting, hw]
          exact hon
        have hcomes : (Event.ready fd flags :: rest).any (Event.isOf fd)
            = true := by
          simp [Event.isOf]
        refine callable_taken hs hwait (hk fd side h hcomes hwait) hshrink ?_
        rw [waiting_entry, if_pos rfl, Waiters.left_on, if_pos hwakes]
      have hs' := hs.shrink hshrink
      have hk' := hk.tail.shrink hshrink
      simp only
      split
      · next h hread =>
        have hread : flags.wakes .readable = true
            ∧ w.readable = some h := by
          split at hread
          · next hwakes => exact ⟨hwakes, hread⟩
          · cases hread
        have hh := htaken .readable h hread.1 hread.2
        refine ⟨hs'.invoke hh _ rest, hk',
          ⟨_, hh.goto rfl rfl rfl hh.absent⟩, fun v hv => ?_⟩
        split at hv
        · next hwakes =>
          have hv' := htaken .writable v hwakes hv
          refine ⟨fun heq => ?_, hv'.goto rfl rfl rfl hv'.absent⟩
          have hsides := hh.side_eq.symm.trans (heq ▸ hv'.side_eq)
          cases hsides
        · cases hv
      · next h hread hwrite =>
        split at hwrite
        · next hwakes =>
          have hh := htaken .writable h hwakes hwrite
          exact ⟨hs'.invoke hh _ rest, hk',
            ⟨_, hh.goto rfl rfl rfl hh.absent⟩, nofun⟩
        · cases hwrite
      · exact ⟨hs'.goto _, hk', trivial⟩

/-- User code changes a state: the handlers that are to be called or to
register again stay so. -/
theorem PcOk.user {pc : Pc} (hpc : PcOk handlers s pc)
    (huser : pc.user = true)
    (himp : ∀ w fd side,
      pc.fetched = some w ∨ (handlers w).kind = .acceptor →
      Callable handlers s w fd side → Callable handlers s' w fd side) :
    PcOk handlers s' pc := by
  cases pc with
  | outside | draining _ => trivial
  | next _ | entered _ _ _ _ => cases huser
  | resumed h fd fetched rest =>
      refine ⟨fun hkind => ?_, hpc.2.imp fun w hw _ hc =>
        himp w fd .writable (.inl hw) hc⟩
      obtain ⟨side, hc⟩ := hpc.1 hkind
      exact ⟨side, himp h fd side (.inr hkind) hc⟩

theorem inv_await {h : Nat} (hi : Inv handlers s)
    (hstep : apply handlers (.await h) s = some s')
    (hok : keepsBatch handlers s (.await h) = true) : Inv handlers s' := by
  simp only [apply] at hstep
  split at hstep
  · next hguard =>
    obtain ⟨huser, hfresh⟩ := hguard
    have hfresh : s.awaited h = false := by simpa using hfresh
    have hnone : s.pc.rest.any (Event.isOf (handlers h).fd) = false := by
      simpa [keepsBatch] using hok
    have hlive : s.done h = false := by
      cases hd : s.done h with
      | false => rfl
      | true => rw [hi.sound.done h hd] at hfresh; cases hfresh
    cases hstep
    refine ⟨(hi.sound.await h).register hlive (Function.update_self ..),
      Kept.register (s := { s with awaited := _ }) hi.kept
        (fun hc => by rw [hnone] at hc; cases hc),
      PcOk.user hi.pc huser fun w fd side _ hc => ?_⟩
    have hne : w ≠ h := fun heq => by
      have := hc.awaited
      rw [heq, hfresh] at this
      cases this
    exact (hc.await h).register hne
  · cases hstep

theorem cancel_frame (h : Nat) :
    (s.cancel h).pc = s.pc ∧ (s.cancel h).atReturn = s.atReturn
      ∧ Shrinks s.waits (s.cancel h).waits := by
  unfold State.cancel
  split
  · exact ⟨rfl, rfl, fun _ _ _ hw => hw⟩
  · exact ⟨rfl, rfl, cancelWait_shrinks h⟩

theorem inv_cancel {h : Nat} (hi : Inv handlers s)
    (hstep : apply handlers (.cancel h) s = some s')
    (hok : keepsBatch handlers s (.cancel h) = true) : Inv handlers s' := by
  simp only [apply] at hstep
  split at hstep
  · next hguard =>
    obtain ⟨huser, hawaited, hkind⟩ := hguard
    have hnext : s.pc.fetched ≠ some h := by simpa [keepsBatch] using hok
    cases hstep
    obtain ⟨hpc, hreturn, hshrink⟩ := cancel_frame (s := s) h
    refine ⟨hi.sound.cancel hawaited, ?_, ?_⟩
    · intro fd side h' hc hw
      rw [hpc] at hc
      rw [hreturn]
      exact hi.kept fd side h' hc (hshrink fd side h' hw)
    · rw [hpc]
      refine hi.pc.user huser fun w fd side hw hc => hc.cancel ?_
      rintro rfl
      exact hw.elim hnext hkind
  · cases hstep

theorem inv_complete {blocked : Bool} (hi : Inv handlers s)
    (hstep : apply handlers (.complete blocked) s = some s') :
    Inv handlers s' := by
  obtain ⟨hs, hk, hpc⟩ := hi
  simp only [apply] at hstep
  split at hstep
  · next h fd fetched rest hat =>
    rw [hat] at hk hpc
    obtain ⟨⟨side, hc⟩, hn⟩ := hpc
    split at hstep
    · -- it blocks again: registered where it waited at the return
      cases hstep
      refine inv_returned (hs.register hc.live hc.awaited)
        (hk.register fun _ => ?_)
        (hn.imp fun w _ hne hw => hw.register hne)
      rw [hc.fd_eq, hc.side_eq]
      exact hc.known
    all_goals try
      rw [if_neg (by rw [hc.live]; decide)] at hstep
      cases hstep
      refine ⟨(hs.finish hc.awaited hc.absent).goto _, hk, fun hkind => ?_,
        hn.imp fun w _ hne hw => ?_⟩
      · next hkind' => rw [hkind'] at hkind; cases hkind
      · have hw := hw.finish hne
        exact hw.goto rfl rfl rfl hw.absent
    · cases hstep
    · cases hstep
      exact ⟨hs.goto _, hk, fun _ => ⟨side, hc.goto rfl rfl rfl hc.absent⟩,
        hn.imp fun w _ _ hw => hw.goto rfl rfl rfl hw.absent⟩
  · cases hstep

theorem inv_return (hi : Inv handlers s)
    (hstep : apply handlers .return s = some s') : Inv handlers s' := by
  obtain ⟨hs, hk, hpc⟩ := hi
  simp only [apply] at hstep
  split at hstep
  · next h fd fetched rest hat =>
    rw [hat] at hk hpc
    obtain ⟨hacceptor, hn⟩ := hpc
    split at hstep
    · next hkind =>
      obtain ⟨side, hc⟩ := hacceptor hkind
      cases hstep
      refine inv_returned (hs.register hc.live hc.awaited)
        (hk.register fun _ => ?_)
        (hn.imp fun w _ hne hw => hw.register hne)
      rw [hc.fd_eq, hc.side_eq]
      exact hc.known
    · cases hstep
      exact inv_returned hs hk hn
  · next rest hat =>
    rw [hat] at hk
    cases hstep
    exact ⟨hs.goto _, hk, trivial⟩
  · cases hstep

theorem inv_step (hi : Inv handlers s)
    (hstep : apply handlers .step s = some s') : Inv handlers s' := by
  obtain ⟨hs, hk, -⟩ := hi
  simp only [apply] at hstep
  split at hstep
  · cases hstep
    exact ⟨hs.goto _, nofun, trivial⟩
  · next rest hat =>
    rw [hat] at hk
    cases hstep
    exact ⟨hs.goto _, hk.tail, trivial⟩
  · next fd flags rest hat =>
    rw [hat] at hk
    cases hstep
    exact inv_dispatch hs hk
  · cases hstep

theorem inv_wait {events : List Event} (hi : Inv handlers s)
    (hstep : apply handlers (.wait events) s = some s') :
    Inv handlers s' := by
  simp only [apply] at hstep
  split at hstep
  · split at hstep
    · cases hstep
      exact ⟨⟨hi.sound.waits, nofun, hi.sound.done, hi.sound.calls⟩,
        fun _ _ _ _ hw => hw, trivial⟩
    · cases hstep
  · cases hstep

theorem inv_apply {a : Action} (hi : Inv handlers s)
    (hok : keepsBatch handlers s a = true)
    (hstep : apply handlers a s = some s') : Inv handlers s' := by
  cases a with
  | wait events => exact inv_wait hi hstep
  | step => exact inv_step hi hstep
  | complete blocked => exact inv_complete hi hstep
  | await h => exact inv_await hi hstep hok
  | cancel h => exact inv_cancel hi hstep hok
  | «return» => exact inv_return hi hstep

-- == result

/-- Every handler called was registered for the event's descriptor when
the batch was returned, and was not canceled or finished since. -/
def CallsRegistered (s : State) : Prop :=
  ∀ i ∈ s.invocations, i.registered = true ∧ i.ended = false

instance : Decidable (CallsRegistered s) :=
  inferInstanceAs (Decidable (∀ i ∈ s.invocations, _))

/-- In a run that keeps the batch, only registered handlers that have not
ended are called. -/
theorem calls_registered (handlers : Nat → Handler)
    (h : (machine handlers).Reach
      (fun s a => keepsBatch handlers s a = true) s) :
    CallsRegistered s := by
  have hi : Inv handlers s := by
    induction h with
    | start h =>
        cases h
        exact inv_start
    | step _ hok hstep hi => exact inv_apply hi hok hstep
  exact hi.sound.calls

/-- A read and a write on descriptor 5, a read on descriptor 6. -/
def duplex : Nat → Handler
  | 1 => ⟨5, .readable, .socket⟩
  | 2 => ⟨5, .writable, .socket⟩
  | _ => ⟨6, .readable, .socket⟩

/-- Both sides of descriptor 5 are woken and the read finishes. -/
def hangupRun : List Action :=
  [.await 1, .await 2, .await 3,
    .wait [.ready 5 { error := true, hangup := true }], .step,
    .complete false]

/-- The reader's coroutine cancels the other read; then the write
finishes. -/
def keptState : State :=
  (machine duplex).finalWhile (fun s a => keepsBatch duplex s a)
    (hangupRun ++ [.cancel 3, .return, .complete false]) {}

theorem keptState_registered :
    keptState.invocations.length = 2 ∧ CallsRegistered keptState :=
  ⟨by decide +kernel,
    calls_registered duplex
      (Machine.reach_finalWhile rfl (by decide +kernel))⟩

/-- The reader's coroutine cancels the write. -/
def canceledState : State :=
  (machine duplex).final (hangupRun ++ [.cancel 2, .return]) {}

/-- The canceled write is called. -/
theorem canceledWrite_invoked :
    (machine duplex).Reachable canceledState
      ∧ ⟨2, true, true⟩ ∈ canceledState.invocations
      ∧ ¬ CallsRegistered canceledState :=
  ⟨Machine.reachable_final rfl (by decide +kernel), by decide +kernel,
    by decide +kernel⟩

end AntRpc.Context
