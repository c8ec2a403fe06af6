/-
No wake-up is lost between a push and a drain.

# The invariant

`notified_` is cleared after the eventfd was read and before the queues
are drained. From the clear on, the flag stands only if somebody wrote
the eventfd since or is about to (`flag`). A queue that was seen empty
after the clear has elements again only if somebody pushed since: the
flag stands, or the producer has not exchanged it yet (`commands`,
`mailboxes`). Outside a drain the three facts together say that the
eventfd is readable or a producer is on its way.

# From there to the dispatch

The producers on their way need two steps to make the eventfd readable,
and a drain takes out everything it finds, in order (`drain_empties`).
-/
import AntRpc.Context.Control

namespace AntRpc.Context.Control

open Lib

variable {τ α β : Type}

/-- The flag has been cleared since the eventfd was last read. -/
def DrainPc.cleared : DrainPc → Bool
  | .outside | .commands | .mailboxes => true
  | .readLoop | .clear => false

structure Awake (s : State τ α β) : Prop where
  flag : s.io.cleared = true → s.notified = true →
    0 < s.wakeupFd ∨ ∃ t, s.producers t = .write
  commands : s.io = .mailboxes ∨ s.io = .outside → s.commands ≠ [] →
    s.notified = true ∨ ∃ t, s.producers t = .exchange
  mailboxes : s.io = .outside → s.mailboxes ≠ [] →
    s.notified = true ∨ ∃ t, s.producers t = .exchange

/-- What was pushed was taken out or is still queued, in order. -/
structure Fifo (s : State τ α β) : Prop where
  commands : s.posted = s.handled.map Prod.fst ++ s.commands
  mailboxes : s.announced = s.drained ++ s.mailboxes

section Steps

variable {cfg : Config} {s s' : State τ α β}

theorem wakeup_pos (s : State τ α β) : 0 < s.wakeup.wakeupFd := by
  unfold State.wakeup
  split
  · exact Nat.succ_pos _
  · next h =>
    have : 0 < counterMax := by decide
    omega

theorem wakeup_same (s : State τ α β) :
    s.wakeup = { s with wakeupFd := s.wakeup.wakeupFd } := by
  unfold State.wakeup
  split <;> rfl

/-- A step of the drain. -/
theorem awake_drain (h : Awake s) (hs : execDrain cfg s = some s') :
    Awake s' := by
  unfold execDrain at hs
  split at hs
  · cases hs
  · next hio =>
    split at hs <;> cases hs
    · exact ⟨nofun, nofun, nofun⟩
    · refine ⟨fun hc => ?_, fun hc => ?_, fun hc => ?_⟩ <;>
        simp [hio, DrainPc.cleared] at hc
  · cases hs
    exact ⟨nofun, nofun, nofun⟩
  · next hio =>
    split at hs <;> cases hs
    · next hnil =>
      exact ⟨fun _ => h.flag (by rw [hio]; rfl),
        fun _ hne => absurd hnil hne, nofun⟩
    · refine ⟨h.flag, fun hc => ?_, fun hc => ?_⟩ <;> simp [hio] at hc
  · next hio =>
    have hcommands := h.commands (Or.inl hio)
    split at hs <;> cases hs
    · next hnil =>
      exact ⟨fun _ => h.flag (by rw [hio]; rfl), fun _ => hcommands,
        fun _ hne => absurd hnil hne⟩
    · refine ⟨h.flag, fun _ => hcommands, fun hc => ?_⟩
      simp [hio] at hc

variable [DecidableEq τ] {t : τ}

theorem setProducer_self (s : State τ α β) (t : τ) (p : ProducerPc) :
    (s.setProducer t p).producers t = p := Function.update_self ..

/-- Another producer stays where it is. -/
theorem setProducer_other {p q : ProducerPc} (hq : s.producers t ≠ q)
    (h : ∃ u, s.producers u = q) :
    ∃ u, (s.setProducer t p).producers u = q := by
  obtain ⟨u, hu⟩ := h
  have hne : u ≠ t := by
    rintro rfl
    exact hq hu
  exact ⟨u, (Function.update_of_ne hne ..).trans hu⟩

/-- A push: whatever is found in the queues, a producer is on its way. -/
theorem Awake.push (h : Awake s) (ht : s.producers t = .idle)
    {cs ps : List (IoCommand α)} {ms ns : List β} :
    Awake ({ s with
      commands := cs, posted := ps, mailboxes := ms,
      announced := ns }.setProducer t .exchange) := by
  have hself : ∃ u, ({ s with
      commands := cs, posted := ps, mailboxes := ms,
      announced := ns }.setProducer t .exchange).producers u
        = .exchange := ⟨t, setProducer_self ..⟩
  refine ⟨fun hc hn => ?_, fun _ _ => Or.inr hself,
    fun _ _ => Or.inr hself⟩
  refine (h.flag hc hn).imp_right (setProducer_other ?_)
  show s.producers t ≠ _
  rw [ht]
  nofun

/-- The exchange and the write. -/
theorem awake_producer (h : Awake s)
    (hs : execProducer t s = some s') : Awake s' := by
  unfold execProducer at hs
  split at hs
  · cases hs
  · next ht =>
    cases hs
    refine ⟨fun hc _ => ?_, fun _ _ => Or.inl rfl, fun _ _ => Or.inl rfl⟩
    cases hn : s.notified with
    | true =>
        refine (h.flag hc hn).imp_right (setProducer_other ?_)
        show s.producers t ≠ _
        rw [ht]
        nofun
    | false => exact Or.inr ⟨t, setProducer_self ..⟩
  · next ht =>
    cases hs
    have hne : s.wakeup.producers t ≠ .exchange := by
      rw [wakeup_same]
      show s.producers t ≠ _
      rw [ht]
      nofun
    rw [wakeup_same] at hne ⊢
    exact ⟨fun _ _ => Or.inl (wakeup_pos s),
      fun hio hc => (h.commands hio hc).imp_right (setProducer_other hne),
      fun hio hm => (h.mailboxes hio hm).imp_right (setProducer_other hne)⟩

theorem awake_apply {a : Action τ α β} (h : Awake s)
    (hs : apply cfg a s = some s') : Awake s' := by
  cases a with
  | post t cmd | notify t mailbox =>
      simp only [apply] at hs
      split at hs <;> cases hs
      next ht => exact h.push ht
  | producer t => exact awake_producer h hs
  | wakeup =>
      cases hs
      rw [wakeup_same]
      exact ⟨fun _ _ => Or.inl (wakeup_pos s), h.commands, h.mailboxes⟩
  | drain =>
      simp only [apply] at hs
      split at hs <;> cases hs
      exact ⟨nofun, nofun, nofun⟩
  | io => exact awake_drain h hs

theorem awake_reachable (h : (machine cfg).Reachable s) : Awake s :=
  h.invariant (I := Awake) (fun _ hs => hs ▸ ⟨nofun, nofun, nofun⟩)
    fun _ _ _ _ ha _ hs => awake_apply ha hs

theorem fifo_apply {a : Action τ α β} (h : Fifo s)
    (hs : apply cfg a s = some s') : Fifo s' := by
  obtain ⟨hc, hm⟩ := h
  cases a with
  | post t cmd =>
      simp only [apply] at hs
      split at hs <;> cases hs
      refine ⟨?_, hm⟩
      show s.posted ++ [cmd] = s.handled.map Prod.fst ++ (s.commands ++ [cmd])
      rw [hc, List.append_assoc]
  | notify t mailbox =>
      simp only [apply] at hs
      split at hs <;> cases hs
      refine ⟨hc, ?_⟩
      show s.announced ++ [mailbox] = s.drained ++ (s.mailboxes ++ [mailbox])
      rw [hm, List.append_assoc]
  | producer t =>
      simp only [apply, execProducer] at hs
      split at hs <;> cases hs
      · exact ⟨hc, hm⟩
      · rw [wakeup_same]
        exact ⟨hc, hm⟩
  | wakeup =>
      cases hs
      rw [wakeup_same]
      exact ⟨hc, hm⟩
  | drain =>
      simp only [apply] at hs
      split at hs <;> cases hs
      exact ⟨hc, hm⟩
  | io =>
      simp only [apply, execDrain] at hs
      split at hs
      · cases hs
      · split at hs <;> cases hs <;> exact ⟨hc, hm⟩
      · cases hs
        exact ⟨hc, hm⟩
      · split at hs <;> cases hs
        · exact ⟨hc, hm⟩
        · next hcs =>
          refine ⟨?_, hm⟩
          rw [hc, hcs]
          simp
      · split at hs <;> cases hs
        · exact ⟨hc, hm⟩
        · next hms =>
          refine ⟨hc, ?_⟩
          rw [hm, hms]
          simp

/-- Nothing is lost, repeated or overtaken between the push and the
drain. -/
theorem fifo_reachable (h : (machine cfg).Reachable s) : Fifo s :=
  h.invariant (I := Fifo) (fun _ hs => hs ▸ ⟨rfl, rfl⟩)
    fun _ _ _ _ hf _ hs => fifo_apply hf hs

end Steps

-- == to dispatch

/-- Steps of producers that have pushed. -/
def ofProducer (a : Action τ α β) : Prop := ∃ t, a = .producer t

/-- Steps of the IO thread. -/
def ofIo (a : Action τ α β) : Prop := a = .drain ∨ a = .io

section Dispatch

variable [DecidableEq τ] {cfg : Config} {s s' : State τ α β}

/-- Neither kind pushes. -/
theorem pushed_keeps {a : Action τ α β} (ha : ofProducer a ∨ ofIo a)
    (hs : apply cfg a s = some s') :
    s'.posted = s.posted ∧ s'.announced = s.announced := by
  rcases ha with ⟨t, rfl⟩ | rfl | rfl
  · simp only [apply, execProducer] at hs
    split at hs <;> cases hs
    · exact ⟨rfl, rfl⟩
    · rw [wakeup_same]
      exact ⟨rfl, rfl⟩
  · simp only [apply] at hs
    split at hs <;> cases hs
    exact ⟨rfl, rfl⟩
  · simp only [apply, execDrain] at hs
    split at hs
    · cases hs
    · split at hs <;> cases hs <;> exact ⟨rfl, rfl⟩
    · cases hs
      exact ⟨rfl, rfl⟩
    · split at hs <;> cases hs <;> exact ⟨rfl, rfl⟩
    · split at hs <;> cases hs <;> exact ⟨rfl, rfl⟩

theorem pushed_leads {kind : Action τ α β → Prop}
    (hkind : ∀ a, kind a → ofProducer a ∨ ofIo a)
    (h : (machine cfg).Leads kind s s') :
    s'.posted = s.posted ∧ s'.announced = s.announced := by
  refine h.keeps
    (I := fun s' => s'.posted = s.posted ∧ s'.announced = s.announced)
    (fun s₁ s₂ a ha hs hk => ?_) ⟨rfl, rfl⟩
  have hsame := pushed_keeps (hkind a ha) hs
  exact ⟨hsame.1.trans hk.1, hsame.2.trans hk.2⟩

theorem drain_commands (cfg : Config) (hio : s.io = .commands) :
    ∃ s', (machine cfg).Leads (· = .io) s s' ∧ s'.io = .mailboxes
      ∧ s'.commands = [] := by
  -- on the commands left
  generalize hcs : s.commands = cs
  induction cs generalizing s with
  | nil =>
      have hs : (machine cfg).apply .io s
          = some { s with io := .mailboxes } := by
        simp only [machine, apply, execDrain, hio, hcs]
      exact ⟨_, .head rfl hs (.refl _), rfl, hcs⟩
  | cons cmd rest ih =>
      have hs : (machine cfg).apply .io s = some { s with
          commands := rest
          handled := s.handled ++ [(cmd, cfg.dispatcher cmd)] } := by
        simp only [machine, apply, execDrain, hio, hcs]
      obtain ⟨s', hlead, hend⟩ := ih (s := { s with
        commands := rest
        handled := s.handled ++ [(cmd, cfg.dispatcher cmd)] }) hio rfl
      exact ⟨s', .head rfl hs hlead, hend⟩

theorem drain_mailboxes (cfg : Config) (hio : s.io = .mailboxes) :
    ∃ s', (machine cfg).Leads (· = .io) s s' ∧ s'.io = .outside
      ∧ s'.commands = s.commands ∧ s'.mailboxes = [] := by
  generalize hms : s.mailboxes = ms
  induction ms generalizing s with
  | nil =>
      have hs : (machine cfg).apply .io s
          = some { s with io := .outside } := by
        simp only [machine, apply, execDrain, hio, hms]
      exact ⟨_, .head rfl hs (.refl _), rfl, rfl, hms⟩
  | cons mailbox rest ih =>
      have hs : (machine cfg).apply .io s = some { s with
          mailboxes := rest
          drained := s.drained ++ [mailbox] } := by
        simp only [machine, apply, execDrain, hio, hms]
      obtain ⟨s', hlead, hend⟩ := ih (s := { s with
        mailboxes := rest
        drained := s.drained ++ [mailbox] }) hio rfl
      exact ⟨s', .head rfl hs hlead, hend⟩

/-- The eventfd reads 0 after one read at the most. -/
theorem drain_reads (cfg : Config) (hio : s.io = .readLoop) :
    (machine cfg).Leads (· = .io) s
      { s with io := .clear, wakeupFd := 0 } := by
  by_cases hfd : s.wakeupFd = 0
  · have hs : (machine cfg).apply .io s
        = some { s with io := .clear, wakeupFd := 0 } := by
      simp only [machine, apply, execDrain, hio, ← hfd, if_true]
    exact .head rfl hs (.refl _)
  · have hs : (machine cfg).apply .io s
        = some { s with wakeupFd := 0 } := by
      simp only [machine, apply, execDrain, hio, if_neg hfd]
    have hs' : (machine cfg).apply .io { s with wakeupFd := 0 }
        = some { s with io := .clear, wakeupFd := 0 } := by
      simp only [machine, apply, execDrain, hio, if_pos]
    exact .head rfl hs (.head rfl hs' (.refl _))

/-- A drain that has begun ends with no mailbox left; what it has not
passed yet of the commands it takes out as well. -/
theorem drain_ends (cfg : Config) (hio : s.io ≠ .outside) :
    ∃ s', (machine cfg).Leads (· = .io) s s' ∧ s'.io = .outside
      ∧ s'.mailboxes = [] ∧ (s.io ≠ .mailboxes → s'.commands = []) := by
  have hcommands : ∀ s₁ : State τ α β, s₁.io = .commands →
      ∃ s', (machine cfg).Leads (· = .io) s₁ s' ∧ s'.io = .outside
        ∧ s'.mailboxes = [] ∧ s'.commands = [] := by
    intro s₁ hio₁
    obtain ⟨s₂, hlead, hio₂, hcs⟩ := drain_commands cfg hio₁
    obtain ⟨s₃, hlead', hio₃, hcs₃, hms⟩ := drain_mailboxes cfg hio₂
    exact ⟨s₃, hlead.trans hlead', hio₃, hms, hcs₃.trans hcs⟩
  have hclear : ∀ s₁ : State τ α β, s₁.io = .clear →
      ∃ s', (machine cfg).Leads (· = .io) s₁ s' ∧ s'.io = .outside
        ∧ s'.mailboxes = [] ∧ s'.commands = [] := by
    intro s₁ hio₁
    have hs : (machine cfg).apply .io s₁
        = some { s₁ with notified := false, io := .commands } := by
      simp only [machine, apply, execDrain, hio₁]
    obtain ⟨s', hlead, hend⟩ :=
      hcommands { s₁ with notified := false, io := .commands } rfl
    exact ⟨s', .head rfl hs hlead, hend⟩
  cases hpc : s.io with
  | outside => exact absurd hpc hio
  | readLoop =>
      obtain ⟨s', hlead, hout, hms, hcs⟩ :=
        hclear { s with io := .clear, wakeupFd := 0 } rfl
      exact ⟨s', (drain_reads cfg hpc).trans hlead, hout, hms, fun _ => hcs⟩
  | clear =>
      obtain ⟨s', hlead, hout, hms, hcs⟩ := hclear s hpc
      exact ⟨s', hlead, hout, hms, fun _ => hcs⟩
  | commands =>
      obtain ⟨s', hlead, hout, hms, hcs⟩ := hcommands s hpc
      exact ⟨s', hlead, hout, hms, fun _ => hcs⟩
  | mailboxes =>
      obtain ⟨s', hlead, hout, -, hms⟩ := drain_mailboxes cfg hpc
      exact ⟨s', hlead, hout, hms, fun hne => absurd rfl hne⟩

/-- A drain on its own takes out everything. -/
theorem drain_empties (cfg : Config) (hio : s.io = .outside) :
    ∃ s', (machine cfg).Leads ofIo s s' ∧ s'.io = .outside
      ∧ s'.commands = [] ∧ s'.mailboxes = [] := by
  have hbegin : (machine cfg).apply .drain s
      = some { s with io := .readLoop } := by
    simp only [machine, apply, if_pos hio]
  obtain ⟨s', hlead, hout, hms, hcs⟩ := drain_ends cfg
    (s := { s with io := .readLoop }) nofun
  exact ⟨s', .head (Or.inl rfl) hbegin (hlead.weaken fun _ => Or.inr),
    hout, hcs nofun, hms⟩

omit [DecidableEq τ] in
/-- Outside a drain, whatever is queued has woken the IO thread, or
somebody on their way will. -/
theorem Awake.ready (h : Awake s) (hio : s.io = .outside)
    (hne : s.commands ≠ [] ∨ s.mailboxes ≠ []) :
    0 < s.wakeupFd ∨ ∃ t, s.producers t = .exchange
      ∨ s.producers t = .write := by
  have hqueued : s.notified = true ∨ ∃ t, s.producers t = .exchange :=
    hne.elim (h.commands (Or.inr hio)) (h.mailboxes hio)
  rcases hqueued with hn | ⟨t, ht⟩
  · rcases h.flag (by rw [hio]; rfl) hn with hfd | ⟨t, ht⟩
    · exact Or.inl hfd
    · exact Or.inr ⟨t, Or.inr ht⟩
  · exact Or.inr ⟨t, Or.inl ht⟩

/-- A producer about to write makes the eventfd readable. -/
theorem write_wakes (cfg : Config) {t : τ} (ht : s.producers t = .write) :
    ∃ s', (machine cfg).Leads ofProducer s s' ∧ 0 < s'.wakeupFd
      ∧ s'.io = s.io := by
  have hs : (machine cfg).apply (.producer t) s
      = some (s.wakeup.setProducer t .idle) := by
    simp only [machine, apply, execProducer, ht]
  refine ⟨_, .head ⟨t, rfl⟩ hs (.refl _), wakeup_pos s, ?_⟩
  rw [wakeup_same]
  rfl

/-- Those on their way make the eventfd readable without anybody's
help. -/
theorem producers_wake (h : Awake s) (hio : s.io = .outside)
    (hready : 0 < s.wakeupFd ∨ ∃ t, s.producers t = .exchange
      ∨ s.producers t = .write) :
    ∃ s', (machine cfg).Leads ofProducer s s' ∧ 0 < s'.wakeupFd
      ∧ s'.io = .outside := by
  rcases hready with hfd | ⟨t, ht | ht⟩
  · exact ⟨s, .refl s, hfd, hio⟩
  · cases hn : s.notified with
    | true =>
        rcases h.flag (by rw [hio]; rfl) hn with hfd | ⟨u, hu⟩
        · exact ⟨s, .refl s, hfd, hio⟩
        · rw [← hio]
          exact write_wakes cfg hu
    | false =>
        have hs : (machine cfg).apply (.producer t) s
            = some ({ s with notified := true }.setProducer t .write) := by
          simp only [machine, apply, execProducer, ht, hn]
          rfl
        obtain ⟨s', hlead, hfd, hio'⟩ := write_wakes cfg
          (setProducer_self { s with notified := true } t .write)
        exact ⟨s', .head ⟨t, rfl⟩ hs hlead, hfd, hio'.trans hio⟩
  · rw [← hio]
    exact write_wakes cfg ht

end Dispatch

/-- **Nothing waits for a later post.** Outside a drain, if a command or
a mailbox is queued, the eventfd is readable or a producer that has
pushed has not yet exchanged the flag and written; these producers on
their own make it readable, and the drain it then causes takes out
everything that was pushed. -/
theorem queued_awaited [DecidableEq τ] (cfg : Config) (s : State τ α β)
    (h : (machine cfg).Reachable s) (hio : s.io = .outside)
    (hne : s.commands ≠ [] ∨ s.mailboxes ≠ []) :
    (0 < s.wakeupFd ∨ ∃ t, s.producers t = .exchange
      ∨ s.producers t = .write)
      ∧ ∃ s₁, (machine cfg).Leads ofProducer s s₁ ∧ s₁.io = .outside
        ∧ 0 < s₁.wakeupFd
        ∧ ∃ s₂, (machine cfg).Leads ofIo s₁ s₂ ∧ s₂.io = .outside
          ∧ s₂.handled.map Prod.fst = s.posted
          ∧ s₂.drained = s.announced := by
  have hawake := awake_reachable h
  have hready := hawake.ready hio hne
  obtain ⟨s₁, hlead₁, hfd, hio₁⟩ := producers_wake hawake hio hready
  obtain ⟨s₂, hlead₂, hio₂, hcs, hms⟩ := drain_empties cfg hio₁
  refine ⟨hready, s₁, hlead₁, hio₁, hfd, s₂, hlead₂, hio₂, ?_⟩
  have hpushed : s₂.posted = s.posted ∧ s₂.announced = s.announced := by
    have h₁ := pushed_leads (fun _ ha => Or.inl ha) hlead₁
    have h₂ := pushed_leads (fun _ ha => Or.inr ha) hlead₂
    exact ⟨h₂.1.trans h₁.1, h₂.2.trans h₁.2⟩
  have hfifo := fifo_reachable
    (hlead₂.reachable (hlead₁.reachable h))
  have hc := hfifo.commands
  have hm := hfifo.mailboxes
  rw [hcs, List.append_nil, hpushed.1] at hc
  rw [hms, List.append_nil, hpushed.2] at hm
  exact ⟨hc.symm, hm.symm⟩

/-- Thread 0 posts while the IO thread drains: its command is pushed
after the queue was seen empty. -/
def lateRun : List (Action Nat Unit Unit) :=
  [.wakeup, .drain, .io, .io, .io, .io, .post 0 ⟨.channelClose, ()⟩, .io]

def lateState : State Nat Unit Unit :=
  (machine ⟨true, true⟩).final lateRun {}

/-- It is queued with the eventfd at 0, and its producer is on its way. -/
theorem lateState_awaited :
    lateState.wakeupFd = 0 ∧ lateState.commands.length = 1
      ∧ (0 < lateState.wakeupFd ∨ ∃ t, lateState.producers t = .exchange
        ∨ lateState.producers t = .write) :=
  ⟨by decide, by decide, (queued_awaited ⟨true, true⟩ lateState
    (Machine.reachable_final rfl (by decide)) (by decide)
    (Or.inl (by decide))).1⟩

end AntRpc.Context.Control
