/-
What is done to the socket of a server connection, and when it is
released.

# The log

Four kinds of events are logged: reads, writes, the close of the socket
and the call of `ReleaseConnection`. The close needs an open socket and
leaves it closed, so it is logged once; the exchange of `released_` does
the same for the release. Both are behind the tests of
`TryFinishCloseOnIoThread`, where the connection is quiet. A read or a
write needs a coroutine at work, which a quiet connection has not, so
none comes after the close.
-/
import AntRpc.Server.Proofs.Lifecycle

namespace AntRpc.Server

open Protocol Lib

variable {cfg : ServerConfig} {n : Nat} {ch : Choice} {rt rt' : Runtime}
  {c c' : Conn} {ops rest : List IoOp} {a : ConnAction}

def IoEvent.isIo : IoEvent → Bool
  | .read | .write => true
  | _ => false

def IoEvent.isClosed : IoEvent → Bool
  | .socketClosed _ _ => true
  | _ => false

def IoEvent.isReleased : IoEvent → Bool
  | .released _ _ _ => true
  | _ => false

/-- The log of a connection. -/
structure LogOk (c : Conn) : Prop where
  shut : c.fdOpen = false → Quiet c.flags c.running
  closes : tally IoEvent.isClosed c.log = bit !c.fdOpen
  releases : tally IoEvent.isReleased c.log = bit c.released
  closed : ∀ receiving writing, .socketClosed receiving writing ∈ c.log →
    receiving = false ∧ writing = false
  released : ∀ running startHandled inboundCalls,
    .released running startHandled inboundCalls ∈ c.log →
    running = false ∧ startHandled = true ∧ inboundCalls = 0
  order : c.log.Pairwise fun e e' => e.isClosed = true → e'.isIo = false

-- == frames

/-- The fields the log invariant reads. -/
def Conn.socket (c : Conn) : Bool × Bool × List IoEvent :=
  (c.fdOpen, c.released, c.log)

/-- What an operation other than the close and the release logs. -/
theorem IoStep.log {op : IoOp} (h : IoStep cfg c op c' ops)
    (hclose : op ≠ .close .closeFd)
    (hrelease : op ≠ .close .exchangeReleased) :
    c'.socket = c.socket
      ∨ op = .receive .read ∧ c'.socket = (c.logs .read).socket
      ∨ (∃ buffer, op = .write (.write buffer))
        ∧ c'.socket = (c.logs .write).socket := by
  cases h with
  | read | suspendRead => exact .inr (.inl ⟨rfl, rfl⟩)
  | write _ | suspendWrite => exact .inr (.inr ⟨⟨_, rfl⟩, rfl⟩)
  | requestClose he =>
      left
      rw [(execRequestClose_frame he).1]
      rfl
  | closeFd _ | closeClosed _ => exact absurd rfl hclose
  | releasedNot | exchangeReleased _ _ => exact absurd rfl hrelease
  | _ => exact .inl rfl

-- == release

/-- A quiet connection has no coroutine at work. -/
theorem Flow.none_at_work {f : Flags} {running : Bool} {io : List IoOp}
    (h : Flow f running io) (hq : Quiet f running) :
    tally IoOp.isReceive io = 0 ∧ f.reading = false
      ∧ tally IoOp.isWrite io = 0 ∧ f.suspended = false := by
  have hr := h.receiving
  have hw := h.writing
  rw [hq.exited, Bool.not_true, Bool.and_false] at hr
  rw [hq.writing] at hw
  have hr0 := tally_nonneg IoOp.isReceive io
  have hw0 := tally_nonneg IoOp.isWrite io
  cases hread : f.reading <;> cases hsusp : f.suspended <;>
    simp [hread, hsusp] at hr hw ⊢ <;> omega

/-- A released connection has no call. -/
def Emptied (c : Conn) : Prop :=
  c.released = true → c.inboundCalls = [] ∧ Quiet c.flags c.running

/-- No operation but `ReceiveLoop`'s adds a call. -/
theorem IoStep.inbound {op : IoOp} (h : IoStep cfg c op c' ops)
    (hop : op.isReceive = false) (hnil : c.inboundCalls = []) :
    c'.inboundCalls = [] := by
  cases h with
  | requestClose he =>
      rw [(execRequestClose_frame he).1]
      exact hnil
  | completeClosing | complete _ _ | completeNothing => simp [hnil]
  | _ => first | exact hnil | cases hop

/-- Nothing is logged. -/
theorem LogOk.same (h : LogOk c) (hsame : c'.socket = c.socket)
    (hquiet : Quiet c.flags c.running → Quiet c'.flags c'.running) :
    LogOk c' := by
  obtain ⟨hfd, hreleased, hlog⟩ : c'.fdOpen = c.fdOpen
      ∧ c'.released = c.released ∧ c'.log = c.log := by
    simpa [Conn.socket] using hsame
  refine ⟨fun hshut => hquiet (h.shut (hfd ▸ hshut)), ?_, ?_, ?_, ?_, ?_⟩
  · rw [hlog, hfd]
    exact h.closes
  · rw [hlog, hreleased]
    exact h.releases
  · rw [hlog]
    exact h.closed
  · rw [hlog]
    exact h.released
  · rw [hlog]
    exact h.order

/-- An event is logged. -/
theorem LogOk.logs {e : IoEvent} (h : LogOk c)
    (hlog : c'.log = c.log ++ [e])
    (hshut : c'.fdOpen = false → Quiet c'.flags c'.running)
    (hcloses : bit e.isClosed = bit (!c'.fdOpen) - bit (!c.fdOpen))
    (hreleases : bit e.isReleased = bit c'.released - bit c.released)
    (hclosed : ∀ receiving writing, e = .socketClosed receiving writing →
      receiving = false ∧ writing = false)
    (hreleased : ∀ running startHandled inboundCalls,
      e = .released running startHandled inboundCalls →
      running = false ∧ startHandled = true ∧ inboundCalls = 0)
    (horder : c.fdOpen = false → e.isIo = false) : LogOk c' := by
  have hc := h.closes
  have hr := h.releases
  refine ⟨hshut, ?_, ?_, ?_, ?_, ?_⟩
  · rw [hlog, tally_append, tally_cons, tally_nil]
    omega
  · rw [hlog, tally_append, tally_cons, tally_nil]
    omega
  · intro a b hmem
    rw [hlog] at hmem
    rcases List.mem_append.1 hmem with hmem | hmem
    · exact h.closed a b hmem
    · exact hclosed a b (List.mem_singleton.1 hmem).symm
  · intro a b k hmem
    rw [hlog] at hmem
    rcases List.mem_append.1 hmem with hmem | hmem
    · exact h.released a b k hmem
    · exact hreleased a b k (List.mem_singleton.1 hmem).symm
  · rw [hlog, List.pairwise_append]
    refine ⟨h.order, List.pairwise_singleton _ _, ?_⟩
    intro e₁ he₁ e₂ he₂ hclosed₁
    rw [List.mem_singleton.1 he₂]
    refine horder ?_
    cases hfd : c.fdOpen with
    | false => rfl
    | true =>
        -- an open socket was not closed before
        rw [hfd] at hc
        have hnone := tally_eq_zero.1 hc
        rw [List.any_eq_false] at hnone
        exact absurd hclosed₁ (hnone e₁ he₁)

/-- A coroutine at work reads or writes: the socket is open. -/
theorem LogOk.logsIo {e : IoEvent} (h : LogOk c)
    (hlog : c'.socket = (c.logs e).socket) (hio : e.isIo = true)
    (hopen : c.fdOpen = true) : LogOk c' := by
  obtain ⟨hfd, hreleased, hlog⟩ : c'.fdOpen = c.fdOpen
      ∧ c'.released = c.released ∧ c'.log = c.log ++ [e] := by
    simpa [Conn.socket, Conn.logs] using hlog
  refine h.logs hlog ?_ ?_ ?_ ?_ ?_ ?_
  · rw [hfd, hopen]
    nofun
  · rw [hfd, Int.sub_self]
    cases e with
    | read | write => rfl
    | socketClosed _ _ | released _ _ _ => cases hio
  · rw [hreleased, Int.sub_self]
    cases e with
    | read | write => rfl
    | socketClosed _ _ | released _ _ _ => cases hio
  · rintro a b rfl
    cases hio
  · rintro a b k rfl
    cases hio
  · rw [hopen]
    nofun

theorem LogOk.io {op : IoOp} (h : LogOk c)
    (hflow : Flow c.flags c.running (op :: rest)) (hio : c.io = rest)
    (hop : c.running = true → op.stopped = false)
    (hs : IoStep cfg c op c' ops) : LogOk c' := by
  by_cases hclose : op = .close .closeFd
  · subst hclose
    have hq := hflow.quiet rfl
    obtain ⟨hr, hread, hw, hsusp⟩ := hflow.none_at_work hq
    cases hs with
    | closeClosed hfd =>
        refine h.same ?_ fun hq => ⟨hq.running, hq.exited, hq.writing,
          hq.startHandled⟩
        simp [Conn.socket, hfd]
    | closeFd hfd =>
        -- neither coroutine is at work, on the list or suspended
        have hreceiving : c.receiving = false := by
          rw [tally_cons] at hr
          have hrest : tally IoOp.isReceive rest = 0 := by
            simpa [IoOp.isReceive] using hr
          rw [Conn.receiving, hio, tally_eq_zero.1 hrest, Bool.or_false]
          exact hread
        have hwriting : c.writingFrame = false := by
          rw [tally_cons] at hw
          have hrest : tally IoOp.isWrite rest = 0 := by
            simpa [IoOp.isWrite] using hw
          rw [Conn.writingFrame, hio, tally_eq_zero.1 hrest, Bool.or_false]
          exact hsusp
        refine h.logs (e := .socketClosed c.receiving c.writingFrame) rfl
          (fun _ => ⟨hq.running, hq.exited, hq.writing, hq.startHandled⟩)
          ?_ ?_ ?_ (by rintro _ _ _ ⟨⟩) ?_
        · simp [IoEvent.isClosed, hfd]
        · simp [IoEvent.isReleased]
        · intro a b heq
          cases heq
          exact ⟨hreceiving, hwriting⟩
        · rw [hfd]
          rintro ⟨⟩
  · by_cases hrelease : op = .close .exchangeReleased
    · subst hrelease
      have hq := hflow.quiet rfl
      cases hs with
      | releasedNot => exact h.same rfl id
      | exchangeReleased hcalls hfirst =>
          refine h.logs rfl (fun _ => ⟨hq.running, hq.exited, hq.writing,
            hq.startHandled⟩) ?_ ?_ (by rintro _ _ ⟨⟩) ?_ fun _ => rfl
          · simp [IoEvent.isClosed]
          · simp [IoEvent.isReleased, hfirst]
          · intro a b k heq
            cases heq
            exact ⟨hq.running, hq.startHandled, by rw [hcalls]; rfl⟩
    · -- a closed socket has no coroutine at work
      have hopen : op.isReceive = true ∨ op.isWrite = true →
          c.fdOpen = true := by
        intro hwork
        cases hfd : c.fdOpen with
        | true => rfl
        | false =>
            obtain ⟨hr, -, hw, -⟩ := hflow.none_at_work (h.shut hfd)
            have hr' := tally_eq_zero.1 hr
            have hw' := tally_eq_zero.1 hw
            rw [List.any_cons, Bool.or_eq_false_iff] at hr' hw'
            rw [hr'.1, hw'.1] at hwork
            rcases hwork with ⟨⟨⟩⟩ | ⟨⟨⟩⟩
      rcases hs.log hclose hrelease with hsame | ⟨rfl, hlog⟩
        | ⟨⟨buffer, rfl⟩, hlog⟩
      · exact h.same hsame fun hq => hflow.stays_quiet hop hq hs
      · exact h.logsIo hlog rfl (hopen (.inl rfl))
      · exact h.logsIo hlog rfl (hopen (.inr rfl))

-- == runs

theorem quiet_step (hflow : Flow c.flags c.running c.io)
    (hstopped : Stopped c) (hs : ConnStep cfg n rt c a rt' c')
    (hq : Quiet c.flags c.running) : Quiet c'.flags c'.running := by
  cases hs with
  | io hio he =>
      next rest c₁ _ =>
      rw [hio] at hflow
      show Quiet c₁.flags c₁.running
      exact Flow.stays_quiet (c := { c with io := rest }) hflow
        (hstopped.head hio) hq (execIo_step he)
  | dispatch _ _ | readDone _ _ _ | writeDone _ _ _ | task _ _ _ | run _ _
  | requestClose _ =>
      exact ⟨hq.running, hq.exited, hq.writing, hq.startHandled⟩
  | finalize _ _ he =>
      rw [(execFinalize_frame he).1]
      exact ⟨hq.running, hq.exited, hq.writing, hq.startHandled⟩
  | closer _ he =>
      obtain ⟨hframe, hrun, -⟩ := execRequestClose_frame he
      have hq := hq.stays hrun
      rw [hframe]
      exact ⟨hq.running, hq.exited, hq.writing, hq.startHandled⟩

/-- A coroutine suspended on the socket has it open. -/
theorem LogOk.open_of (h : LogOk c) (hflow : Flow c.flags c.running c.io)
    (hwork : c.activeRead = true ∨ c.activeWrite.isSome = true) :
    c.fdOpen = true := by
  cases hfd : c.fdOpen with
  | true => rfl
  | false =>
      obtain ⟨-, hr, -, hw⟩ := hflow.none_at_work (h.shut hfd)
      rcases hwork with hwork | hwork
      · exact absurd hwork (by rw [show c.activeRead = false from hr]; decide)
      · exact absurd hwork
          (by rw [show c.activeWrite.isSome = false from hw]; decide)

theorem logOk_step (h : LogOk c) (hflow : Flow c.flags c.running c.io)
    (hstopped : Stopped c) (hs : ConnStep cfg n rt c a rt' c') : LogOk c' := by
  have hquiet := quiet_step hflow hstopped hs
  cases hs with
  | io hio he =>
      next rest c₁ ops =>
      rw [hio] at hflow
      have hrest : LogOk { c with io := rest } := h.same rfl
        fun hq => ⟨hq.running, hq.exited, hq.writing, hq.startHandled⟩
      exact (hrest.io hflow rfl (hstopped.head hio) (execIo_step he)).same rfl
        fun hq => ⟨hq.running, hq.exited, hq.writing, hq.startHandled⟩
  | dispatch _ _ | task _ _ _ | run _ _ | requestClose _ =>
      exact h.same rfl hquiet
  | readDone _ hactive _ =>
      exact h.logsIo rfl rfl (h.open_of hflow (.inl hactive))
  | writeDone _ hactive _ =>
      exact h.logsIo rfl rfl
        (h.open_of hflow (.inr (by rw [hactive]; rfl)))
  | finalize _ _ he =>
      refine h.same ?_ hquiet
      rw [(execFinalize_frame he).1]
      rfl
  | closer _ he =>
      refine h.same ?_ hquiet
      rw [(execRequestClose_frame he).1]
      rfl

theorem reach_logOk (h : (connMachine cfg n).Reachable c) : LogOk c :=
  reach_invariant
    ⟨nofun, rfl, rfl, nofun, nofun, List.Pairwise.nil⟩
    (fun _ _ _ _ _ hr h _ hs => logOk_step h (reach_flow hr) (reach_stopped hr) hs)
    h

/-- **The socket is closed once, by nobody who still uses it.** It is
closed at most once, while neither coroutine is at work, and no read or
write comes after that; the connection is released at most once, when it
has stopped, was started and has no call. -/
theorem socket_closed_once (h : (connMachine cfg n).Reachable c) :
    c.log.countP IoEvent.isClosed ≤ 1
      ∧ c.log.countP IoEvent.isReleased ≤ 1
      ∧ (∀ receiving writing, .socketClosed receiving writing ∈ c.log →
        receiving = false ∧ writing = false)
      ∧ (∀ running startHandled inboundCalls,
        .released running startHandled inboundCalls ∈ c.log →
        running = false ∧ startHandled = true ∧ inboundCalls = 0)
      ∧ c.log.Pairwise fun e e' => e.isClosed = true → e'.isIo = false := by
  have hlog := reach_logOk h
  have hcloses := hlog.closes
  have hreleases := hlog.releases
  rw [tally_eq_countP] at hcloses hreleases
  have hclosed := bit_le_one !c.fdOpen
  have hreleased := bit_le_one c.released
  exact ⟨by omega, by omega, hlog.closed, hlog.released, hlog.order⟩

/-- A server that takes one connection and knows no service. -/
def idleServer : ServerConfig where
  maxConnections := 1
  maxInFlight := 1
  maxInFlightPerConnection := 1
  maxPendingWorkerTasks := 1
  maxFrameBytes := 64
  maxOutboundBytesPerConnection := 64
  gracefulStopTimeout := 0
  codec := ⟨fun _ => none, fun _ => none⟩
  registry := ⟨fun _ => none, fun _ _ => false⟩

/-- A connection is accepted and asked to close before it is started. -/
def closedActions : List ConnAction :=
  List.replicate 9 (.io .go) ++ [.requestClose .localRequest]
    ++ List.replicate 4 (.closer 0) ++ [.dispatch]
    ++ List.replicate 3 (.io .go) ++ [.dispatch]
    ++ List.replicate 7 (.io .go)

def closedConn : Conn :=
  (connMachine idleServer 0).final (closedActions.map fun a => ({}, a))
    { io := [.accept .loadAccepting] }

theorem closedConn_closed :
    closedConn.log = [.socketClosed false false, .released false true 0]
      ∧ closedConn.log.countP IoEvent.isClosed ≤ 1 :=
  ⟨by decide +kernel, (socket_closed_once
    (Machine.reachable_final rfl (by decide +kernel))).1⟩

/-- Only the exchange of `released_` releases, and only a connection
without calls. -/
theorem IoStep.releases {op : IoOp} (h : IoStep cfg c op c' ops) :
    c'.released = c.released
      ∨ op = .close .exchangeReleased ∧ c'.inboundCalls = c.inboundCalls
        ∧ c.inboundCalls = [] := by
  cases h with
  | exchangeReleased hcalls _ => exact .inr ⟨rfl, rfl, hcalls⟩
  | requestClose he =>
      left
      rw [(execRequestClose_frame he).1]
  | _ => exact .inl rfl

theorem emptied_step (h : Emptied c) (hflow : Flow c.flags c.running c.io)
    (hstopped : Stopped c) (hs : ConnStep cfg n rt c a rt' c') :
    Emptied c' := by
  have hquiet := quiet_step hflow hstopped hs
  cases hs with
  | io hio he =>
      next op rest c₁ ops =>
      rw [hio] at hflow
      intro hreleased
      change c₁.released = true at hreleased
      show c₁.inboundCalls = [] ∧ _
      by_cases hold : c.released = true
      · obtain ⟨hnil, hq⟩ := h hold
        refine ⟨(execIo_step he).inbound ?_ hnil, hquiet hq⟩
        have hnone := (hflow.none_at_work hq).1
        have hrest := tally_nonneg IoOp.isReceive rest
        rw [tally_cons] at hnone
        cases hb : op.isReceive with
        | false => rfl
        | true => simp [hb] at hnone; omega
      · rcases (execIo_step he).releases with hsame | ⟨rfl, hinbound, hnil⟩
        · exact absurd (hsame ▸ hreleased) hold
        · rw [hinbound]
          exact ⟨hnil, hquiet (hflow.quiet rfl)⟩
  | dispatch _ _ | task _ _ _ | run _ _ | requestClose _ | readDone _ _ _
  | writeDone _ _ _ =>
      exact fun hreleased => ⟨(h hreleased).1, hquiet (h hreleased).2⟩
  | finalize _ _ he =>
      rw [(execFinalize_frame he).1] at hquiet ⊢
      exact fun hreleased => ⟨(h hreleased).1, hquiet (h hreleased).2⟩
  | closer _ he =>
      rw [(execRequestClose_frame he).1] at hquiet ⊢
      exact fun hreleased => ⟨(h hreleased).1, hquiet (h hreleased).2⟩

theorem reach_emptied (h : (connMachine cfg n).Reachable c) : Emptied c :=
  reach_invariant nofun
    (fun _ _ _ _ _ hr h _ hs =>
      emptied_step h (reach_flow hr) (reach_stopped hr) hs) h

end AntRpc.Server
