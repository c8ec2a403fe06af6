/-
The life of a server connection: who reads, who writes, and when the
socket is closed.

# The flow invariant

The flags of a connection are redundant with its program: exactly while
`receiver_started_` and not `receiver_exited_` one receive operation is
on the list or suspended in a read, exactly while `writing_` one write
operation is, and a start command is somewhere until it is handled. All
three are balances: the weight of the list plus what is suspended or
posted equals the flag. An operation keeps a balance if it puts as much
in front as it weighs itself, which most of them do by form
(`Flow.plain`); the few that set a flag are the cases of interest.

# Quiet connections

Behind `TryFinishCloseOnIoThread`'s tests the connection is `Quiet`, and
stays so: `running_` is not set again, so nothing starts a read or a
write.
-/
import AntRpc.Lib.Ledger
import AntRpc.Server.Proofs.Running

namespace AntRpc.Server

open Protocol Lib

variable {cfg : ServerConfig} {n : Nat} {ch : Choice} {rt rt' : Runtime}
  {c c' : Conn} {ops rest : List IoOp} {a : ConnAction}

-- == weights

/-- The start command before it is posted and once it is dispatched. -/
def IoOp.isStart : IoOp → Bool
  | .accept .start | .close .start => true
  | _ => false

def Command.isStart : Command → Bool
  | .start => true
  | _ => false

def Command.isComplete : Command → Bool
  | .completeInbound _ _ _ => true
  | _ => false

/-- Operations before the connection exists. -/
def IoOp.acquires : IoOp → Bool
  | .accept .loadAccepting | .accept .loadActive
  | .accept (.casActive _) => true
  | _ => false

/-- Operations that answer a request. -/
def IoOp.answers : IoOp → Bool
  | .receive (.respond _ _) | .close (.complete _ _ _) => true
  | _ => false

/-- Operations behind the tests of `TryFinishCloseOnIoThread`. -/
def IoOp.finishing : IoOp → Bool
  | .close .checkPosted | .close .closeFd | .close .exchangeReleased
  | .close .eraseConnection | .close .subActive | .close .subActiveGauge
  | .close .recordClose | .close .addClosed | .close .checkTimer
  | .close .cancelTimer => true
  | _ => false

/-- Operations that neither answer nor finish. -/
def IoOp.inert (op : IoOp) : Bool := !op.answers && !op.finishing

/-- The part of a connection the flow invariant reads, but for `running`
and the program. -/
structure Flags where
  receiverStarted : Bool
  receiverExited : Bool
  writing : Bool
  startHandled : Bool
  acquired : Bool
  reading : Bool
  suspended : Bool
  requests : Nat
  outbound : List Bytes
  starts : Int
  completes : Bool

def Conn.flags (c : Conn) : Flags where
  receiverStarted := c.receiverStarted
  receiverExited := c.receiverExited
  writing := c.writing
  startHandled := c.startCommandHandled
  acquired := c.acquired
  reading := c.activeRead
  suspended := c.activeWrite.isSome
  requests := c.requests
  outbound := c.outbound
  starts := tally Command.isStart c.mailbox
  completes := c.mailbox.any Command.isComplete

/-- The connection is past the tests of `TryFinishCloseOnIoThread`. -/
structure Quiet (f : Flags) (running : Bool) : Prop where
  running : running = false
  exited : f.receiverExited = true
  writing : f.writing = false
  startHandled : f.startHandled = true

-- == invariant

variable {f : Flags} {running running' : Bool} {op : IoOp} {io : List IoOp}

/-- The receiver has been at work; `answers` is whether the program has
a request to answer. -/
def Flags.used (f : Flags) (answers : Bool) : Prop :=
  f.requests ≠ 0 ∨ f.outbound ≠ [] ∨ f.completes = true ∨ answers = true

structure Flow (f : Flags) (running : Bool) (io : List IoOp) : Prop where
  receiving : tally IoOp.isReceive io + bit f.reading
    = bit (f.receiverStarted && !f.receiverExited)
  writing : tally IoOp.isWrite io + bit f.suspended = bit f.writing
  starts : tally IoOp.isStart io + f.starts + bit f.startHandled
    = bit f.acquired
  acquires : tally IoOp.acquires io + bit f.acquired ≤ 1
  exited : f.receiverExited = true → running = false
  handled : f.receiverStarted = true → f.startHandled = true
  started : f.used (io.any IoOp.answers) → f.receiverStarted = true
  drained : f.receiverExited = true → f.outbound = []
    ∨ io.head? = some (.close .discard)
  quiet : io.any IoOp.finishing = true → Quiet f running

/-- The three balances and the accept path, after an operation that puts
`ops` in front and changes the flags to `f'`. -/
structure Balanced (f f' : Flags) (op : IoOp) (ops : List IoOp) : Prop where
  receiving : tally IoOp.isReceive ops + bit f'.reading
      - bit (f'.receiverStarted && !f'.receiverExited)
    = bit op.isReceive + bit f.reading
      - bit (f.receiverStarted && !f.receiverExited)
  writing : tally IoOp.isWrite ops + bit f'.suspended - bit f'.writing
    = bit op.isWrite + bit f.suspended - bit f.writing
  starts : tally IoOp.isStart ops + f'.starts + bit f'.startHandled
      - bit f'.acquired
    = bit op.isStart + f.starts + bit f.startHandled - bit f.acquired
  acquires : tally IoOp.acquires ops + bit f'.acquired
    ≤ bit op.acquires + bit f.acquired

theorem Quiet.stays (h : Quiet f running)
    (hrun : running' = true → running = true) : Quiet f running' := by
  refine ⟨?_, h.exited, h.writing, h.startHandled⟩
  cases running' with
  | false => rfl
  | true => rw [h.running] at hrun; exact (hrun rfl).symm

/-- Any operation. -/
theorem Flow.step {f' : Flags} (h : Flow f running (op :: rest))
    (hrun : running' = true → running = true)
    (hbalanced : Balanced f f' op ops)
    (hexit : f'.receiverExited = true →
      f.receiverExited = true ∨ running' = false)
    (hhandled : f'.receiverStarted = true → f'.startHandled = true)
    (hmono : f.receiverStarted = true → f'.receiverStarted = true)
    (hstarted : f'.used (ops.any IoOp.answers) → f'.receiverStarted = true)
    (hdrained : f'.receiverExited = true → f'.outbound = []
      ∨ (ops ++ rest).head? = some (.close .discard))
    (hquiet : ops.any IoOp.finishing = true → Quiet f' running')
    (hstays : Quiet f running → Quiet f' running') :
    Flow f' running' (ops ++ rest) := by
  have hrecv := h.receiving
  have hwrite := h.writing
  have hstart := h.starts
  have hacquire := h.acquires
  obtain ⟨brecv, bwrite, bstart, bacquire⟩ := hbalanced
  rw [tally_cons] at hrecv hwrite hstart hacquire
  refine
    { receiving := ?_, writing := ?_, starts := ?_, acquires := ?_,
      exited := ?_, handled := hhandled, started := ?_,
      drained := hdrained, quiet := ?_ }
  · rw [tally_append]
    omega
  · rw [tally_append]
    omega
  · rw [tally_append]
    omega
  · rw [tally_append]
    omega
  · intro he
    rcases hexit he with he | he
    · cases hb : running' with
      | false => rfl
      | true => exact absurd (hrun hb) (by rw [h.exited he]; decide)
    · exact he
  · rintro (hu | hu | hu | hu)
    · exact hstarted (.inl hu)
    · exact hstarted (.inr (.inl hu))
    · exact hstarted (.inr (.inr (.inl hu)))
    · rw [List.any_append, Bool.or_eq_true] at hu
      rcases hu with hu | hu
      · exact hstarted (.inr (.inr (.inr hu)))
      · refine hmono (h.started (.inr (.inr (.inr ?_))))
        rw [List.any_cons, hu, Bool.or_true]
  · intro hfin
    rw [List.any_append, Bool.or_eq_true] at hfin
    rcases hfin with hfin | hfin
    · exact hquiet hfin
    · refine hstays (h.quiet ?_)
      rw [List.any_cons, hfin, Bool.or_true]

/-- What was used is used without the first operation's answers. -/
theorem Flow.of_used (h : Flow f running (op :: rest))
    (hu : f.used false) : f.receiverStarted = true := by
  rcases hu with hu | hu | hu | hu
  · exact h.started (.inl hu)
  · exact h.started (.inr (.inl hu))
  · exact h.started (.inr (.inr (.inl hu)))
  · cases hu

/-- Behind an operation other than `discard` the queue of an exited
receiver is empty. -/
theorem Flow.queue_empty (h : Flow f running (op :: rest))
    (hdiscard : op ≠ .close .discard) (hexit : f.receiverExited = true) :
    f.outbound = [] := by
  rcases h.drained hexit with hnil | hhead
  · exact hnil
  · exact absurd (Option.some.inj hhead) hdiscard

/-- The operations weigh what `op` weighs. -/
def SameWeight (op : IoOp) (ops : List IoOp) : Prop :=
  tally IoOp.isReceive ops = bit op.isReceive
    ∧ tally IoOp.isWrite ops = bit op.isWrite
    ∧ tally IoOp.isStart ops = bit op.isStart
    ∧ tally IoOp.acquires ops ≤ bit op.acquires

/-- An operation other than `discard` that leaves the flags alone and
puts its own weight in front. -/
theorem Flow.plain (h : Flow f running (op :: rest))
    (hrun : running' = true → running = true)
    (hdiscard : op ≠ .close .discard) (hweight : SameWeight op ops)
    (hanswers : ops.any IoOp.answers = true → f.receiverStarted = true)
    (hquiet : ops.any IoOp.finishing = true → Quiet f running') :
    Flow f running' (ops ++ rest) := by
  obtain ⟨hrecv, hwrite, hstart, hacquire⟩ := hweight
  refine h.step hrun ⟨by omega, by omega, by omega, by omega⟩ .inl h.handled
    id ?_ (fun hexit => .inl (h.queue_empty hdiscard hexit)) hquiet
    (·.stays hrun)
  rintro (hu | hu | hu | hu)
  · exact h.started (.inl hu)
  · exact h.started (.inr (.inl hu))
  · exact h.started (.inr (.inr (.inl hu)))
  · exact hanswers hu

/-- Such an operation that puts nothing in front that answers or
finishes. -/
theorem Flow.keep (h : Flow f running (op :: rest))
    (hrun : running' = true → running = true)
    (hdiscard : op ≠ .close .discard) (hweight : SameWeight op ops)
    (hinert : ops.all IoOp.inert = true) :
    Flow f running' (ops ++ rest) := by
  have hnone : ∀ o ∈ ops, o.answers = false ∧ o.finishing = false := by
    intro o ho
    simpa [IoOp.inert] using List.all_eq_true.1 hinert o ho
  refine h.plain hrun hdiscard hweight ?_ ?_
  · intro hany
    obtain ⟨o, ho, ha⟩ := List.any_eq_true.1 hany
    rw [(hnone o ho).1] at ha
    cases ha
  · intro hany
    obtain ⟨o, ho, ha⟩ := List.any_eq_true.1 hany
    rw [(hnone o ho).2] at ha
    cases ha

/-- A receive operation is at work: the receiver is started and has not
exited, and no other one is on the list. -/
theorem Flow.of_receive {r : ReceiveOp}
    (h : Flow f running (.receive r :: rest)) :
    f.receiverStarted = true ∧ f.receiverExited = false
      ∧ f.reading = false ∧ tally IoOp.isReceive rest = 0 := by
  have hr := h.receiving
  rw [tally_cons] at hr
  have hrest := tally_nonneg IoOp.isReceive rest
  change 1 + tally IoOp.isReceive rest + bit f.reading = _ at hr
  cases hs : f.receiverStarted <;> cases he : f.receiverExited <;>
    cases hb : f.reading <;> simp [hs, he, hb] at hr ⊢ <;> omega

/-- A write operation is at work. -/
theorem Flow.of_write {w : WriteOp} (h : Flow f running (.write w :: rest))
    (hw : w ≠ .startNextWrite) :
    f.writing = true ∧ f.suspended = false
      ∧ tally IoOp.isWrite rest = 0 := by
  have hr := h.writing
  have hone : bit (IoOp.write w).isWrite = 1 := by
    cases w <;> first | rfl | exact absurd rfl hw
  rw [tally_cons, hone] at hr
  have hrest := tally_nonneg IoOp.isWrite rest
  cases hb : f.writing <;> cases hs : f.suspended <;>
    simp [hb, hs] at hr ⊢ <;> omega

-- == accept

/-- `TryAcquireConnection` succeeds: the connection exists from now on,
and its start is to come. -/
theorem Flow.acquire {current : Int}
    (h : Flow f running (.accept (.casActive current) :: rest)) :
    Flow { f with acquired := true } running
      ([.accept .addAccepted, .accept .addActiveGauge, .accept .start,
        .accept .trackLoad] ++ rest) := by
  have hnew : f.acquired = false := by
    have hacquires := h.acquires
    have hrest := tally_nonneg IoOp.acquires rest
    rw [tally_cons] at hacquires
    change 1 + tally IoOp.acquires rest + bit f.acquired ≤ 1 at hacquires
    cases hb : f.acquired with
    | false => rfl
    | true => simp [hb] at hacquires; omega
  refine h.step id ⟨rfl, rfl, ?_, ?_⟩ .inl h.handled id h.of_used
    (fun hexit => .inl (h.queue_empty nofun hexit)) nofun
    (fun hq => ⟨hq.running, hq.exited, hq.writing, hq.startHandled⟩)
  · simp [hnew, IoOp.isStart]
    omega
  · simp [hnew, IoOp.acquires]

/-- `Start` posts its command. -/
theorem Flow.postStart (h : Flow f running (.accept .start :: rest)) :
    Flow { f with starts := f.starts + 1 } running ([] ++ rest) := by
  refine h.step id ⟨rfl, rfl, ?_, le_refl _⟩ .inl h.handled id h.of_used
    (fun hexit => .inl (h.queue_empty nofun hexit)) nofun
    (fun hq => ⟨hq.running, hq.exited, hq.writing, hq.startHandled⟩)
  simp [IoOp.isStart]
  omega

-- == requests

/-- A read suspends the receiver. -/
theorem Flow.suspendRead (h : Flow f running (.receive .read :: rest)) :
    Flow { f with reading := true } running ([] ++ rest) := by
  obtain ⟨hs, he, hr, -⟩ := h.of_receive
  refine h.step id ⟨?_, rfl, rfl, le_refl _⟩ .inl h.handled id h.of_used
    (fun hexit => .inl (h.queue_empty nofun hexit)) nofun
    (fun hq => ⟨hq.running, hq.exited, hq.writing, hq.startHandled⟩)
  simp [hr, IoOp.isReceive]

/-- A request is numbered. -/
theorem Flow.newRequest {k : Nat}
    (h : Flow f running (.receive .parse :: rest)) :
    Flow { f with requests := k } running
      ([.receive (.handle (k - 1) .received)] ++ rest) :=
  h.step id ⟨rfl, rfl, rfl, le_refl _⟩ .inl h.handled id
    (fun _ => h.of_receive.1)
    (fun hexit => .inl (h.queue_empty nofun hexit)) nofun
    (fun hq => ⟨hq.running, hq.exited, hq.writing, hq.startHandled⟩)

/-- The receiver exits: its queue is discarded next. -/
theorem Flow.exitReceiver
    (h : Flow f running (.receive .receiveExit :: rest)) :
    Flow { f with receiverExited := true } false
      ([.close .discard, .close .tryFinish] ++ rest) := by
  obtain ⟨hs, he, hr, -⟩ := h.of_receive
  refine h.step nofun ⟨?_, rfl, rfl, le_refl _⟩ (fun _ => .inr rfl) h.handled
    id h.of_used (fun _ => .inr rfl) nofun
    (fun hq => ⟨rfl, rfl, hq.writing, hq.startHandled⟩)
  simp [hs, he, hr, IoOp.isReceive]

-- == replies

theorem Flow.of_answers (h : Flow f running (op :: rest))
    (ha : op.answers = true) : f.receiverStarted = true :=
  h.started (.inr (.inr (.inr (by rw [List.any_cons, ha, Bool.true_or]))))

/-- A running connection queues a frame. -/
theorem Flow.enqueue {outbound : List Bytes}
    (h : Flow f running (op :: rest)) (hrunning : running = true)
    (ha : op.answers = true) (hweight : SameWeight op ops)
    (hquiet : ops.any IoOp.finishing = false) :
    Flow { f with outbound := outbound } running (ops ++ rest) := by
  obtain ⟨hrecv, hwrite, hstart, hacquire⟩ := hweight
  refine h.step id ⟨?_, ?_, ?_, ?_⟩ .inl h.handled id
    (fun _ => h.of_answers ha) (fun hexit => ?_)
    (fun hq => by rw [hquiet] at hq; cases hq)
    (fun hq => ⟨hq.running, hq.exited, hq.writing, hq.startHandled⟩)
  · show _ + bit f.reading
      - bit (f.receiverStarted && !f.receiverExited) = _
    omega
  · show _ + bit f.suspended - bit f.writing = _
    omega
  · show _ + f.starts + bit f.startHandled - bit f.acquired = _
    omega
  · show _ + bit f.acquired ≤ _
    omega
  · exact absurd (h.exited hexit) (by rw [hrunning]; decide)

-- == writes

/-- A `WriteFrame` begins. -/
theorem Flow.startWrite {buffer : Bytes} {outbound : List Bytes}
    (h : Flow f running (.write .startNextWrite :: rest))
    (hrunning : running = true) (hidle : f.writing = false)
    (hqueued : f.outbound ≠ []) :
    Flow { f with writing := true, outbound := outbound } running
      ([.write (.writeLoop buffer)] ++ rest) := by
  have hstarted := h.started (.inr (.inl hqueued))
  refine h.step id ⟨rfl, ?_, rfl, le_refl _⟩ .inl h.handled id
    (fun _ => hstarted) (fun hexit => ?_) nofun (fun hq => ?_)
  · simp [hidle, IoOp.isWrite]
  · exact absurd (h.exited hexit) (by rw [hrunning]; decide)
  · exact absurd hq.running (by rw [hrunning]; decide)

theorem Flow.suspendWrite {buffer : Bytes}
    (h : Flow f running (.write (.write buffer) :: rest)) :
    Flow { f with suspended := true } running ([] ++ rest) := by
  obtain ⟨-, hs, -⟩ := h.of_write nofun
  refine h.step id ⟨rfl, ?_, rfl, le_refl _⟩ .inl h.handled id h.of_used
    (fun hexit => .inl (h.queue_empty nofun hexit)) nofun
    (fun hq => ⟨hq.running, hq.exited, hq.writing, hq.startHandled⟩)
  simp [hs, IoOp.isWrite]

/-- A `WriteFrame` ends. -/
theorem Flow.endWrite {buffer : Bytes}
    (h : Flow f running (.write (.writeExit buffer) :: rest)) :
    Flow { f with writing := false } running
      ([.write .startNextWrite, .close .tryFinish] ++ rest) := by
  obtain ⟨hw, hs, -⟩ := h.of_write nofun
  refine h.step id ⟨rfl, ?_, rfl, le_refl _⟩ .inl h.handled id h.of_used
    (fun hexit => .inl (h.queue_empty nofun hexit)) nofun
    (fun hq => ⟨hq.running, hq.exited, rfl, hq.startHandled⟩)
  simp [hs, hw, IoOp.isWrite]

-- == close

theorem execRequestClose_flags {pc pc' : ClosePc}
    (he : execRequestClose rt c pc = some (rt', c', pc')) :
    c'.flags = c.flags := by
  obtain ⟨hframe, -, hmail⟩ := execRequestClose_frame he
  rw [hframe]
  rcases hmail with hmail | hmail
  · simp only [Conn.flags, hmail]
  · simp [Conn.flags, hmail, Command.isStart, Command.isComplete]

/-- Nothing was received before the start command is handled. -/
theorem Flow.before_start (h : Flow f running (.close .start :: rest))
    (hpos : 0 ≤ f.starts) :
    f.startHandled = false ∧ f.receiverStarted = false
      ∧ f.outbound = [] := by
  have hfirst : f.startHandled = false := by
    have hstarts := h.starts
    have hrest := tally_nonneg IoOp.isStart rest
    have hone := bit_le_one f.acquired
    rw [tally_cons] at hstarts
    change 1 + tally IoOp.isStart rest + f.starts + bit f.startHandled = _
      at hstarts
    cases hb : f.startHandled with
    | false => rfl
    | true => simp [hb] at hstarts; omega
  have hstarted : f.receiverStarted = false := by
    cases hb : f.receiverStarted with
    | false => rfl
    | true => rw [h.handled hb] at hfirst; cases hfirst
  refine ⟨hfirst, hstarted, ?_⟩
  by_contra hout
  rw [h.started (.inr (.inl hout))] at hstarted
  cases hstarted

/-- A running connection starts to receive. -/
theorem Flow.startReceiver (h : Flow f running (.close .start :: rest))
    (hpos : 0 ≤ f.starts) (hrunning : running = true) :
    Flow { f with startHandled := true, receiverStarted := true } running
      ([.receive .receiveLoop] ++ rest) := by
  obtain ⟨hfirst, hstarted, -⟩ := h.before_start hpos
  have hexited : f.receiverExited = false := by
    cases hb : f.receiverExited with
    | false => rfl
    | true => exact absurd (h.exited hb) (by rw [hrunning]; decide)
  refine h.step id ⟨?_, rfl, ?_, le_refl _⟩ .inl (fun _ => rfl)
    (fun _ => rfl) (fun _ => rfl)
    (fun hexit => .inl (h.queue_empty nofun hexit)) nofun
    (fun hq => ⟨hq.running, hq.exited, hq.writing, rfl⟩)
  · simp [hstarted, hexited, IoOp.isReceive]
  · simp [hfirst, IoOp.isStart]
    omega

/-- One that was closed meanwhile never does. -/
theorem Flow.refuseStart (h : Flow f running (.close .start :: rest))
    (hpos : 0 ≤ f.starts) (hstopped : running = false) :
    Flow { f with startHandled := true, receiverExited := true } running
      ([.close .tryFinish] ++ rest) := by
  obtain ⟨hfirst, hstarted, hout⟩ := h.before_start hpos
  refine h.step id ⟨?_, rfl, ?_, le_refl _⟩ (fun _ => .inr hstopped)
    (fun _ => rfl) id h.of_used (fun _ => .inl hout) nofun
    (fun hq => ⟨hq.running, rfl, hq.writing, rfl⟩)
  · simp [hstarted, IoOp.isReceive]
  · simp [hfirst, IoOp.isStart]
    omega

/-- `BeginCloseOnIoThread` of a connection that never received. -/
theorem Flow.exitUnstarted
    (h : Flow f running (.close .exitUnstarted :: rest))
    (hstopped : running = false) (hstarted : f.receiverStarted = false) :
    Flow { f with receiverExited := true } running
      ([.close .tryFinish] ++ rest) := by
  have hout : f.outbound = [] := by
    by_contra hout
    rw [h.started (.inr (.inl hout))] at hstarted
    cases hstarted
  refine h.step id ⟨?_, rfl, rfl, le_refl _⟩ (fun _ => .inr hstopped)
    h.handled id h.of_used (fun _ => .inl hout) nofun
    (fun hq => ⟨hq.running, rfl, hq.writing, hq.startHandled⟩)
  simp [hstarted, IoOp.isReceive]

/-- One frame of the queue, or nothing, is discarded. -/
theorem Flow.discard (h : Flow f running (.close .discard :: rest)) :
    (f.outbound = [] → Flow f running ([] ++ rest))
      ∧ ∀ front outbound, f.outbound = front :: outbound →
        Flow { f with outbound := outbound } running
          ([.close .discard] ++ rest) := by
  constructor
  · intro hnil
    exact h.step id ⟨rfl, rfl, rfl, le_refl _⟩ .inl h.handled id h.of_used
      (fun _ => .inl hnil) nofun id
  · intro front outbound hout
    have hstarted := h.started (.inr (.inl (by rw [hout]; nofun)))
    exact h.step id ⟨rfl, rfl, rfl, le_refl _⟩ .inl h.handled id
      (fun _ => hstarted) (fun _ => .inr rfl) nofun
      (fun hq => ⟨hq.running, hq.exited, hq.writing, hq.startHandled⟩)

theorem IoStep.flow {op : IoOp} (hs : IoStep cfg c op c' ops)
    (h : Flow c.flags c.running (op :: rest))
    (hop : c.running = true → op.stopped = false) :
    Flow c'.flags c'.running (ops ++ rest) := by
  have hpos : 0 ≤ c.flags.starts := tally_nonneg _ _
  cases hs with
  | refuse | refuseActive =>
      exact h.keep id nofun ⟨rfl, rfl, rfl, Int.zero_le_ofNat 1⟩ rfl
  | acquire => exact h.acquire
  | postStart =>
      have hmail : ({ c with mailbox := c.mailbox ++ [.start] } : Conn).flags
          = { c.flags with starts := c.flags.starts + 1 } := by
        simp [Conn.flags, Command.isStart, Command.isComplete]
      rw [hmail]
      exact h.postStart
  | reject =>
      exact h.plain id nofun ⟨rfl, rfl, rfl, le_refl _⟩
        (fun _ => h.of_receive.1) nofun
  | sendError _ | reserving _ | reserve _ =>
      exact h.plain id nofun ⟨rfl, rfl, rfl, le_refl _⟩
        (fun _ => h.of_answers rfl) nofun
  | enqueue hrunning | complete hrunning _ =>
      exact h.enqueue hrunning rfl ⟨rfl, rfl, rfl, le_refl _⟩ rfl
  | frame _ => exact h.newRequest
  | suspendRead => exact h.suspendRead
  | receiveExit => exact h.exitReceiver
  | startNextWrite hidle hrunning hout =>
      refine h.startWrite hrunning hidle ?_
      show c.outbound ≠ []
      rw [hout]
      nofun
  | suspendWrite => exact h.suspendWrite
  | writeExit => exact h.endWrite
  | requestClose he =>
      rw [execRequestClose_flags he]
      have hrun := (execRequestClose_frame he).2.1
      split <;> exact h.keep hrun nofun ⟨rfl, rfl, rfl, le_refl _⟩ rfl
  | stopRunning | stopForCompletion =>
      exact h.keep nofun nofun ⟨rfl, rfl, rfl, le_refl _⟩ rfl
  | start hrunning => exact h.startReceiver hpos hrunning
  | startStopped hstopped => exact h.refuseStart hpos hstopped
  | discardNone hout => exact h.discard.1 hout
  | discard hout => exact h.discard.2 _ _ hout
  | exitUnstarted hstarted =>
      refine h.exitUnstarted ?_ hstarted
      cases hrun : c.running with
      | false => rfl
      | true => cases hop hrun
  | tryFinish hstopped hexited hidle hstart =>
      -- the tests are what makes a connection quiet
      exact h.plain id nofun ⟨rfl, rfl, rfl, le_refl _⟩ nofun
        fun _ => ⟨hstopped, hexited, hidle, hstart⟩
  | checkPosted | closeFd _ | closeClosed _ | exchangeReleased _ _
  | lastTimer =>
      exact h.plain id nofun ⟨rfl, rfl, rfl, le_refl _⟩ nofun
        fun _ => h.quiet rfl
  | _ => exact h.keep id nofun ⟨rfl, rfl, rfl, le_refl _⟩ rfl

/-- A quiet connection stays quiet. -/
theorem Flow.stays_quiet {op : IoOp} (h : Flow c.flags c.running (op :: rest))
    (hop : c.running = true → op.stopped = false)
    (hquiet : Quiet c.flags c.running) (hs : IoStep cfg c op c' ops) :
    Quiet c'.flags c'.running := by
  -- the invariant with one more finishing operation at the end says so
  have hsame : ∀ p : IoOp → Bool, p (.close .cancelTimer) = false →
      tally p (op :: (rest ++ [.close .cancelTimer]))
        = tally p (op :: rest) := by
    intro p hp
    simp [hp]
  have hlonger : Flow c.flags c.running
      (op :: (rest ++ [.close .cancelTimer])) :=
    { receiving := by rw [hsame IoOp.isReceive rfl]; exact h.receiving
      writing := by rw [hsame IoOp.isWrite rfl]; exact h.writing
      starts := by rw [hsame IoOp.isStart rfl]; exact h.starts
      acquires := by rw [hsame IoOp.acquires rfl]; exact h.acquires
      exited := h.exited
      handled := h.handled
      started := fun hu => h.started (by simpa [IoOp.answers] using hu)
      drained := h.drained
      quiet := fun _ => hquiet }
  refine (hs.flow hlonger hop).quiet ?_
  simp [IoOp.finishing]

-- == runs

/-- The IO thread takes a command. -/
theorem Flow.dispatch {command : Command} {completes : Bool}
    (h : Flow f running [])
    (hcompletes : (completes || command.isComplete) = f.completes) :
    Flow { f with
        starts := f.starts - bit command.isStart
        completes := completes }
      running [dispatchCommand command] := by
  have hstarts := h.starts
  have hdrained := fun hexit => (h.drained hexit).resolve_right nofun
  have hused : f.completes = true → f.receiverStarted = true :=
    fun hc => h.started (.inr (.inr (.inl hc)))
  have hstarted : ∀ a, (a = true → command.isComplete = true) →
      ({ f with
        starts := f.starts - bit command.isStart
        completes := completes } : Flags).used a →
      f.receiverStarted = true := by
    rintro a ha (hu | hu | hu | hu)
    · exact h.started (.inl hu)
    · exact h.started (.inr (.inl hu))
    · exact hused (by rw [← hcompletes, show completes = true from hu]; rfl)
    · exact hused (by rw [← hcompletes, ha hu, Bool.or_true])
  cases command with
  | start =>
      exact
        { receiving := h.receiving, writing := h.writing
          starts := by
            simp only [tally_nil, tally_cons] at hstarts ⊢
            change 1 + 0 + (f.starts - 1) + bit f.startHandled = _
            omega
          acquires := h.acquires, exited := h.exited, handled := h.handled
          started := hstarted _ nofun
          drained := fun hexit => .inl (hdrained hexit), quiet := nofun }
  | completeInbound r response closeAfter =>
      exact
        { receiving := h.receiving, writing := h.writing
          starts := by
            simp only [tally_nil, tally_cons] at hstarts ⊢
            change 0 + 0 + (f.starts - 0) + bit f.startHandled = _
            omega
          acquires := h.acquires, exited := h.exited, handled := h.handled
          started := hstarted _ fun _ => rfl
          drained := fun hexit => .inl (hdrained hexit), quiet := nofun }
  | close =>
      exact
        { receiving := h.receiving, writing := h.writing
          starts := by
            simp only [tally_nil, tally_cons] at hstarts ⊢
            change 0 + 0 + (f.starts - 0) + bit f.startHandled = _
            omega
          acquires := h.acquires, exited := h.exited, handled := h.handled
          started := hstarted _ nofun
          drained := fun hexit => .inl (hdrained hexit), quiet := nofun }

/-- A suspended read is done. -/
theorem Flow.resumeRead {result : ReadResult} (h : Flow f running [])
    (hreading : f.reading = true) :
    Flow { f with reading := false } running
      [.receive (.readResumed result)] where
  receiving := by
    have hr := h.receiving
    simp [hreading] at hr
    simp [IoOp.isReceive, hr]
  writing := h.writing
  starts := h.starts
  acquires := h.acquires
  exited := h.exited
  handled := h.handled
  started := h.started
  drained := fun hexit => .inl ((h.drained hexit).resolve_right nofun)
  quiet := nofun

/-- A suspended write is done. -/
theorem Flow.resumeWrite {buffer : Bytes} {written : Int}
    (h : Flow f running []) (hsuspended : f.suspended = true) :
    Flow { f with suspended := false } running
      [.write (.writeResumed buffer written)] where
  receiving := h.receiving
  writing := by
    have hw := h.writing
    simp [hsuspended] at hw
    simp [IoOp.isWrite, hw]
  starts := h.starts
  acquires := h.acquires
  exited := h.exited
  handled := h.handled
  started := h.started
  drained := fun hexit => .inl ((h.drained hexit).resolve_right nofun)
  quiet := nofun

/-- Another thread stops the connection. -/
theorem Flow.stop (h : Flow f running io)
    (hrun : running' = true → running = true) : Flow f running' io where
  receiving := h.receiving
  writing := h.writing
  starts := h.starts
  acquires := h.acquires
  exited := fun hexit => by
    cases hb : running' with
    | false => rfl
    | true => exact absurd (hrun hb) (by rw [h.exited hexit]; decide)
  handled := h.handled
  started := h.started
  drained := h.drained
  quiet := fun hfin => (h.quiet hfin).stays hrun

/-- A worker posts a completion. -/
theorem Flow.complete (h : Flow f running io)
    (hstarted : f.receiverStarted = true) :
    Flow { f with completes := true } running io :=
  { h with
    started := fun _ => hstarted
    quiet := fun hfin =>
      ⟨(h.quiet hfin).running, (h.quiet hfin).exited, (h.quiet hfin).writing,
        (h.quiet hfin).startHandled⟩ }

theorem flow_step (h : Flow c.flags c.running c.io) (hstopped : Stopped c)
    (hs : ConnStep cfg n rt c a rt' c') : Flow c'.flags c'.running c'.io := by
  cases hs with
  | io hio he =>
      next op rest c₁ ops =>
      rw [hio] at h
      show Flow c₁.flags c₁.running (ops ++ rest)
      exact (execIo_step he).flow h (hstopped.head hio)
  | dispatch hio hmail =>
      next command rest =>
      rw [hio] at h
      have hcompletes : (rest.any Command.isComplete || command.isComplete)
          = c.flags.completes := by
        simp [Conn.flags, hmail, Bool.or_comm]
      have hflags : ({ c with
            mailbox := rest, io := [dispatchCommand command] } : Conn).flags
          = { c.flags with
              starts := c.flags.starts - bit command.isStart
              completes := rest.any Command.isComplete } := by
        simp [Conn.flags, hmail]
      rw [hflags]
      exact h.dispatch hcompletes
  | readDone hio hactive _ =>
      rw [hio] at h
      exact h.resumeRead hactive
  | writeDone hio hactive _ =>
      rw [hio] at h
      exact h.resumeWrite (by simp [Conn.flags, hactive])
  | task _ _ _ | run _ _ | requestClose _ => exact h
  | finalize hr hj he =>
      next c₁ _ _ =>
      obtain ⟨hframe, hmail⟩ := execFinalize_frame he
      have hstarted : c.receiverStarted = true :=
        h.started (.inl (Nat.ne_of_gt (Nat.lt_of_le_of_lt (Nat.zero_le _) hr)))
      rw [hframe]
      rcases hmail with hmail | ⟨response, closeAfter, hmail⟩
      · show Flow ({ c with mailbox := c₁.mailbox } : Conn).flags _ _
        rw [hmail]
        exact h
      · show Flow ({ c with mailbox := c₁.mailbox } : Conn).flags _ _
        have hflags : ({ c with mailbox := c₁.mailbox } : Conn).flags
            = { c.flags with completes := true } := by
          simp [Conn.flags, hmail, Command.isStart, Command.isComplete]
        rw [hflags]
        exact h.complete hstarted
  | closer hk he =>
      next c₁ _ =>
      have hflags := execRequestClose_flags he
      obtain ⟨hframe, hrun, -⟩ := execRequestClose_frame he
      have hio : c₁.io = c.io := by rw [hframe]
      show Flow c₁.flags c₁.running c₁.io
      rw [hflags, hio]
      exact h.stop hrun

theorem reach_flow (h : (connMachine cfg n).Reachable c) :
    Flow c.flags c.running c.io :=
  reach_invariant
    (I := fun c => Flow c.flags c.running c.io)
    { receiving := rfl, writing := rfl, starts := rfl
      acquires := le_refl _, exited := nofun, handled := nofun
      started := by
        rintro (hu | hu | hu | hu) <;> simp [Conn.flags, IoOp.answers] at hu
      drained := nofun, quiet := nofun }
    (fun _ _ _ _ _ hr h _ hs => flow_step h (reach_stopped hr) hs) h

end AntRpc.Server
