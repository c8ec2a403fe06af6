/-
The requests of a server connection and their answers.

# One token per request

From the moment it is numbered a request is in one place: with
`HandleRequest` or the reply to a rejection, with its call, in a
completion on its way through the mailbox, or among the frames pushed.
`Book.answers` counts the places; a step moves the request or drops it,
so the count stays at most one (`Requests.once`).

# `inbound_calls_`

A request is in `inbound_calls_` from admission until its completion is
handled: as long as it is with its call or in a completion
(`Requests.inbound`). A connection that is released has no such request,
so every finalization finds the connection it posts to.

# `outbound_`

Frames enter the queue at its end and leave it at its front, for a
`WriteFrame` or when the queue is discarded; so it is the end of the list
of frames pushed (`Queued`).
-/
import AntRpc.Server.Proofs.Calls
import AntRpc.Server.Proofs.Socket

namespace AntRpc.Server

open Protocol Lib

variable {cfg : ServerConfig} {n : Nat} {ch : Choice} {rt rt' : Runtime}
  {c c' : Conn} {op : IoOp} {ops rest io : List IoOp} {r : Nat}
  {a : ConnAction}

-- == tokens

/-- The part of a connection that requests are booked in. -/
structure Book where
  requests : Nat
  calls : Nat → Call
  pushed : List (Nat × Bytes)
  inbound : List Nat
  inFlight : Int
  completions : List Command

def Conn.book (c : Conn) : Book where
  requests := c.requests
  calls := c.calls
  pushed := c.pushed
  inbound := c.inboundCalls
  inFlight := c.inFlightCalls
  completions := c.mailbox.filter Command.isComplete

/-- `HandleRequest` has the request, or the reply to its rejection. -/
def IoOp.handles (r : Nat) : IoOp → Bool
  | .receive (.handle r' pc) => r' = r ∧ pc ≠ .schedule
  | .receive (.respond r' _) => r' = r
  | _ => false

def IoOp.completes (r : Nat) : IoOp → Bool
  | .close (.complete r' _ _) => r' = r
  | _ => false

def Command.completes (r : Nat) : Command → Bool
  | .completeInbound r' _ _ => r' = r
  | _ => false

/-- The completion has been posted. -/
def FinalizePc.posted : FinalizePc → Bool
  | .releaseInFlight | .subInFlightGauge | .finished => true
  | _ => false

/-- Whether the call still has to post its completion. -/
def Call.owed (call : Call) : Int :=
  if call.admission = .admitted then
    1 - tally FinalizePc.posted call.finalizers
  else 0

/-- The answers that are with a call or in a completion. -/
def Book.owed (b : Book) (r : Nat) (io : List IoOp) : Int :=
  (b.calls r).owed + tally (IoOp.completes r) io
    + tally (Command.completes r) b.completions

/-- The places request `r` is in. -/
def Book.answers (b : Book) (r : Nat) (io : List IoOp) : Int :=
  tally (fun p => p.1 = r) b.pushed + tally (IoOp.handles r) io
    + b.owed r io

-- == invariant

variable {b b' : Book}

/-- A reply holds an answer. -/
def RespondOp.Carries (cfg : ServerConfig) (request : RpcMeta) :
    RespondOp → Prop
  | .sendError _ => True
  | .reserve response _ | .enqueue response =>
      IsAnswer cfg request response

/-- What is known of the request an operation is about. -/
def IoOp.Ok (cfg : ServerConfig) (b : Book) : IoOp → Prop
  | .receive (.handle r pc) =>
      r < b.requests ∧ (b.calls r).dispatch = .unscheduled
        ∧ (b.calls r).admission
          = if pc = .schedule then .admitted else .handling
  | .receive (.respond r op) =>
      r < b.requests ∧ (b.calls r).admission = .rejected
        ∧ op.Carries cfg (b.calls r).frame.rpcMeta
  | .close (.complete r response _) =>
      r < b.requests ∧ (response ≠ [] →
        IsAnswer cfg (b.calls r).frame.rpcMeta response)
  | _ => True

def Command.Ok (cfg : ServerConfig) (b : Book) : Command → Prop
  | .completeInbound r response _ =>
      r < b.requests ∧ (response ≠ [] →
        IsAnswer cfg (b.calls r).frame.rpcMeta response)
  | _ => True

/-- The finalization found its connection. -/
def FinalizePc.attached : FinalizePc → Bool
  | .account payload | .accountMethod payload | .subMethodGauge payload
  | .storeFinalized payload | .post payload => payload.connection
  | _ => true

structure Requests (cfg : ServerConfig) (b : Book) (io : List IoOp) :
    Prop where
  calls : ∀ r, CallOk cfg (b.calls r)
  unborn : ∀ r, b.requests ≤ r → b.calls r = {}
  attached : ∀ r, ∀ pc ∈ (b.calls r).finalizers, pc.attached = true
  ops : ∀ op ∈ io, op.Ok cfg b
  completions : ∀ command ∈ b.completions, command.Ok cfg b
  pushed : ∀ p ∈ b.pushed, p.1 < b.requests
    ∧ IsAnswer cfg (b.calls p.1).frame.rpcMeta p.2
  once : ∀ r, b.answers r io ≤ 1
  inbound : ∀ r, tally (fun x => x = r) b.inbound = b.owed r io
  inFlight : b.inFlight = b.inbound.length

theorem Call.owed_nonneg {call : Call} (h : CallOk cfg call) :
    0 ≤ call.owed := by
  unfold Call.owed
  split
  · have hone := h.one
    match hf : call.finalizers with
    | [] => simp
    | [pc] =>
        have := bit_le_one pc.posted
        simp
        omega
    | _ :: _ :: _ =>
        rw [hf, List.length_cons, List.length_cons] at hone
        omega
  · exact le_refl 0

/-- A call that is not admitted, or is new, owes nothing. -/
theorem Call.owed_idle {call : Call} (h : call.admission ≠ .admitted) :
    call.owed = 0 := if_neg h

theorem Requests.owed_nonneg (h : Requests cfg b io) (r : Nat) :
    0 ≤ b.owed r io := by
  have h1 := Call.owed_nonneg (h.calls r)
  have h2 := tally_nonneg (IoOp.completes r) io
  have h3 := tally_nonneg (Command.completes r) b.completions
  unfold Book.owed
  omega

-- == operations

/-- An operation that leaves the book alone and passes on what it has. -/
theorem Requests.step (h : Requests cfg b (op :: rest))
    (hops : ∀ o ∈ ops, o.Ok cfg b)
    (hcompletes : ∀ r, tally (IoOp.completes r) ops = bit (op.completes r))
    (hhandles : ∀ r, tally (IoOp.handles r) ops ≤ bit (op.handles r)) :
    Requests cfg b (ops ++ rest) := by
  have howed : ∀ r, b.owed r (ops ++ rest) = b.owed r (op :: rest) := by
    intro r
    unfold Book.owed
    rw [tally_append, tally_cons, hcompletes]
  refine { h with ops := ?_, once := ?_, inbound := ?_ }
  · intro o ho
    rcases List.mem_append.1 ho with ho | ho
    · exact hops o ho
    · exact h.ops o (List.mem_cons_of_mem _ ho)
  · intro r
    have honce := h.once r
    have hle := hhandles r
    unfold Book.answers at honce ⊢
    rw [tally_append, howed]
    rw [tally_cons] at honce
    omega
  · intro r
    rw [howed]
    exact h.inbound r

/-- Operations that have no request. -/
def IoOp.tokenless : IoOp → Bool
  | .receive (.handle _ _) | .receive (.respond _ _)
  | .close (.complete _ _ _) => false
  | _ => true

theorem IoOp.tokenless_ok (h : op.tokenless = true) : op.Ok cfg b := by
  unfold IoOp.Ok
  split <;> trivial

theorem IoOp.tokenless_handles (h : op.tokenless = true) :
    op.handles r = false := by
  unfold IoOp.handles
  split <;> first | rfl | cases h

theorem IoOp.tokenless_completes (h : op.tokenless = true) :
    op.completes r = false := by
  unfold IoOp.completes
  split <;> first | rfl | cases h

theorem tally_tokenless {p : IoOp → Bool}
    (hp : ∀ op : IoOp, op.tokenless = true → p op = false)
    (h : ops.all IoOp.tokenless = true) : tally p ops = 0 := by
  rw [tally_eq_zero, List.any_eq_false]
  intro o ho
  rw [hp o (List.all_eq_true.1 h o ho)]
  decide

/-- An operation that leaves the book alone and drops what it has, if it
is not a completion. -/
theorem Requests.drop (h : Requests cfg b (op :: rest))
    (hop : ∀ r, op.completes r = false)
    (hops : ops.all IoOp.tokenless = true) : Requests cfg b (ops ++ rest) := by
  refine h.step (fun o ho => ?_) (fun r => ?_) (fun r => ?_)
  · exact IoOp.tokenless_ok (List.all_eq_true.1 hops o ho)
  · rw [hop, tally_tokenless (fun _ => IoOp.tokenless_completes) hops]
    rfl
  · rw [tally_tokenless (fun _ => IoOp.tokenless_handles) hops]
    exact bit_nonneg _

/-- What an operation needs is still there when calls past their
admission change. -/
theorem IoOp.Ok.mono (h : op.Ok cfg b) (hcalls : ∀ r, CallOk cfg (b.calls r))
    (hle : b.requests ≤ b'.requests)
    (hframe : ∀ r < b.requests, (b'.calls r).frame = (b.calls r).frame)
    (hstage : op.isReceive = true → ∀ r < b.requests,
      (b.calls r).dispatch = .unscheduled → b'.calls r = b.calls r) :
    op.Ok cfg b' := by
  cases op with
  | accept _ | write _ => trivial
  | receive op =>
      cases op with
      | handle r pc =>
          obtain ⟨hr, hdispatch, hadmission⟩ := h
          refine ⟨hr.trans_le hle, ?_, ?_⟩
          · rw [hstage rfl r hr hdispatch]
            exact hdispatch
          · rw [hstage rfl r hr hdispatch]
            exact hadmission
      | respond r op =>
          obtain ⟨hr, hrejected, hcarries⟩ := h
          have hsame := hstage rfl r hr
            ((hcalls r).idle (by rw [hrejected]; nofun))
          refine ⟨hr.trans_le hle, ?_, ?_⟩
          · rw [hsame]
            exact hrejected
          · rw [hsame]
            exact hcarries
      | _ => trivial
  | close op =>
      cases op with
      | complete r response closeAfter =>
          refine ⟨h.1.trans_le hle, ?_⟩
          rw [hframe r h.1]
          exact h.2
      | _ => trivial

theorem Command.Ok.mono {command : Command} (h : command.Ok cfg b)
    (hle : b.requests ≤ b'.requests)
    (hframe : ∀ r < b.requests, (b'.calls r).frame = (b.calls r).frame) :
    command.Ok cfg b' := by
  cases command with
  | completeInbound r response closeAfter =>
      refine ⟨h.1.trans_le hle, ?_⟩
      rw [hframe r h.1]
      exact h.2
  | start | close => trivial

/-- A request that has not arrived is nowhere. -/
theorem Requests.unanswered (h : Requests cfg b io) (hr : b.requests ≤ r) :
    tally (fun p => p.1 = r) b.pushed = 0 ∧ tally (IoOp.handles r) io = 0
      ∧ tally (IoOp.completes r) io = 0
      ∧ tally (Command.completes r) b.completions = 0 := by
  refine ⟨?_, ?_, ?_, ?_⟩ <;> rw [tally_eq_zero, List.any_eq_false]
  · intro p hp
    have := (h.pushed p hp).1
    simp
    omega
  · intro op hop hhas
    have hok := h.ops op hop
    unfold IoOp.handles at hhas
    split at hhas
    · simp only [Bool.decide_and, Bool.and_eq_true, decide_eq_true_eq] at hhas
      have := hok.1
      omega
    · have := hok.1
      rw [decide_eq_true_eq] at hhas
      omega
    · cases hhas
  · intro op hop hhas
    have hok := h.ops op hop
    unfold IoOp.completes at hhas
    split at hhas
    · have := hok.1
      rw [decide_eq_true_eq] at hhas
      omega
    · cases hhas
  · intro command hcommand hhas
    have hok := h.completions command hcommand
    unfold Command.completes at hhas
    split at hhas
    · have := hok.1
      rw [decide_eq_true_eq] at hhas
      omega
    · cases hhas

/-- A request arrives. -/
theorem Requests.arrive {f : FrameParseResult}
    (h : Requests cfg b (.receive .parse :: rest))
    (halone : tally IoOp.isReceive rest = 0) :
    Requests cfg
      { b with
        requests := b.requests + 1
        calls := Function.update b.calls b.requests { frame := f } }
      ([.receive (.handle b.requests .received)] ++ rest) := by
  have hold : ∀ r < b.requests,
      Function.update b.calls b.requests { frame := f } r = b.calls r :=
    fun r hr => Function.update_of_ne hr.ne _ _
  have hcall : ∀ r, Function.update b.calls b.requests { frame := f } r
      = if r = b.requests then { frame := f } else b.calls r := fun r => by
    rw [Function.update_apply]
  have howed : ∀ r,
      (Function.update b.calls b.requests { frame := f } r).owed
        = (b.calls r).owed := fun r => by
    rw [hcall]
    split
    · next heq => rw [h.unborn r heq.ge]; rfl
    · rfl
  refine
    { calls := fun r => ?_, unborn := fun r hr => ?_,
      attached := fun r => ?_, ops := fun o ho => ?_,
      completions := fun command hc => ?_, pushed := fun p hp => ?_,
      once := fun r => ?_, inbound := fun r => ?_, inFlight := h.inFlight }
  · show CallOk cfg (Function.update b.calls b.requests _ r)
    rw [hcall]
    split
    · exact callOk_new f
    · exact h.calls r
  · change b.requests + 1 ≤ r at hr
    show Function.update b.calls b.requests _ r = _
    rw [Function.update_of_ne (by omega)]
    exact h.unborn r (by omega)
  · show ∀ pc ∈ (Function.update b.calls b.requests _ r).finalizers, _
    rw [hcall]
    split
    · nofun
    · exact h.attached r
  · rcases List.mem_append.1 ho with ho | ho
    · rw [List.mem_singleton.1 ho]
      refine ⟨Nat.lt_succ_self _, ?_, ?_⟩
      · show (Function.update b.calls b.requests _ b.requests).dispatch = _
        rw [Function.update_self]
      · show (Function.update b.calls b.requests _ b.requests).admission = _
        rw [Function.update_self]
        rfl
    · refine (h.ops o (List.mem_cons_of_mem _ ho)).mono h.calls
        (Nat.le_succ _) (fun r hr => congrArg Call.frame (hold r hr)) (fun hrec => ?_)
      exact absurd hrec (List.any_eq_false.1 (tally_eq_zero.1 halone) o ho)
  · exact (h.completions command hc).mono (Nat.le_succ _)
      fun r hr => congrArg Call.frame (hold r hr)
  · obtain ⟨hr, hanswer⟩ := h.pushed p hp
    refine ⟨Nat.lt_succ_of_lt hr, ?_⟩
    show IsAnswer cfg (Function.update b.calls _ _ p.1).frame.rpcMeta p.2
    rw [hold p.1 hr]
    exact hanswer
  · have honce := h.once r
    unfold Book.answers Book.owed at honce ⊢
    simp only [howed, List.cons_append, List.nil_append, tally_cons] at honce ⊢
    by_cases hr : b.requests ≤ r
    · obtain ⟨h1, h2, h3, h4⟩ := h.unanswered hr
      rw [tally_cons] at h2 h3
      have h5 : (b.calls r).owed = 0 := by rw [h.unborn r hr]; rfl
      have h6 := bit_le_one
        ((IoOp.receive (.handle b.requests .received)).handles r)
      have h7 := bit_nonneg ((IoOp.receive .parse).handles r)
      have h8 := bit_nonneg ((IoOp.receive .parse).completes r)
      change _ + (bit ((IoOp.receive (.handle b.requests .received)).handles r)
        + _) + (_ + (0 + _) + _) ≤ 1
      omega
    · have hne : ¬ b.requests = r := by omega
      simpa [IoOp.handles, IoOp.completes, hne] using honce
  · have hin := h.inbound r
    unfold Book.owed at hin ⊢
    simpa [howed, IoOp.completes] using hin

/-- A call changes, and with it where its request is. -/
theorem Requests.change {io' : List IoOp} {call : Call}
    {completions : List Command} {inbound : List Nat} {inFlight : Int}
    (h : Requests cfg b io) (hr : r < b.requests) (hcall : CallOk cfg call)
    (hframe : call.frame = (b.calls r).frame)
    (hattached : ∀ pc ∈ call.finalizers, pc.attached = true)
    (hops : ∀ op ∈ io', op.Ok cfg
      { b with calls := Function.update b.calls r call })
    (hcompletions : ∀ command ∈ completions, command.Ok cfg b)
    (hothers : ∀ r', r' ≠ r →
      tally (IoOp.handles r') io' = tally (IoOp.handles r') io
        ∧ tally (IoOp.completes r') io' = tally (IoOp.completes r') io
        ∧ tally (Command.completes r') completions
          = tally (Command.completes r') b.completions
        ∧ tally (fun x => x = r') inbound
          = tally (fun x => x = r') b.inbound)
    (honce : tally (IoOp.handles r) io' + call.owed
        + tally (IoOp.completes r) io'
        + tally (Command.completes r) completions
      ≤ tally (IoOp.handles r) io + b.owed r io)
    (hinbound : tally (fun x => x = r) inbound
      = call.owed + tally (IoOp.completes r) io'
        + tally (Command.completes r) completions)
    (hinFlight : inFlight = inbound.length) :
    Requests cfg
      { b with
        calls := Function.update b.calls r call
        completions := completions
        inbound := inbound
        inFlight := inFlight } io' := by
  have hframes : ∀ r', (Function.update b.calls r call r').frame
      = (b.calls r').frame := fun r' => by
    rw [Function.update_apply]
    split
    · next heq => rw [hframe, heq]
    · rfl
  refine
    { calls := fun r' => ?_, unborn := fun r' hr' => ?_,
      attached := fun r' => ?_, ops := fun o ho => ?_,
      completions := fun command hc => ?_, pushed := fun p hp => ?_,
      once := fun r' => ?_, inbound := fun r' => ?_, inFlight := hinFlight }
  · show CallOk cfg (Function.update b.calls r call r')
    rw [Function.update_apply]
    split
    · exact hcall
    · exact h.calls r'
  · show Function.update b.calls r call r' = _
    rw [Function.update_of_ne (hr.trans_le hr').ne']
    exact h.unborn r' hr'
  · show ∀ pc ∈ (Function.update b.calls r call r').finalizers, _
    rw [Function.update_apply]
    split
    · exact hattached
    · exact h.attached r'
  · exact (hops o ho : _)
  · exact (hcompletions command hc).mono (le_refl _) fun r' _ => hframes r'
  · obtain ⟨hr', hanswer⟩ := h.pushed p hp
    refine ⟨hr', ?_⟩
    show IsAnswer cfg (Function.update b.calls r call p.1).frame.rpcMeta p.2
    rw [hframes]
    exact hanswer
  · have hold := h.once r'
    unfold Book.answers Book.owed at hold ⊢
    by_cases heq : r' = r
    · subst heq
      unfold Book.owed at honce
      simp only [Function.update_self]
      omega
    · obtain ⟨h1, h2, h3, -⟩ := hothers r' heq
      simp only [Function.update_of_ne heq]
      omega
  · have hold := h.inbound r'
    unfold Book.owed at hold ⊢
    by_cases heq : r' = r
    · subst heq
      simp only [Function.update_self]
      exact hinbound
    · obtain ⟨-, h2, h3, h4⟩ := hothers r' heq
      simp only [Function.update_of_ne heq]
      rw [h4, hold, h2, h3]

-- == HandleRequest

/-- Nothing else on the list looks at a call's stage while a receive
operation does. -/
theorem Requests.rest_ok {call : Call} (h : Requests cfg b (op :: rest))
    (halone : tally IoOp.isReceive rest = 0)
    (hframe : call.frame = (b.calls r).frame) :
    ∀ o ∈ rest, o.Ok cfg
      { b with calls := Function.update b.calls r call } := by
  intro o ho
  refine (h.ops o (List.mem_cons_of_mem _ ho)).mono h.calls (le_refl _)
    (fun r' _ => ?_) (fun hrec => ?_)
  · show (Function.update b.calls r call r').frame = _
    rw [Function.update_apply]
    split
    · next heq => rw [hframe, heq]
    · rfl
  · exact absurd hrec (List.any_eq_false.1 (tally_eq_zero.1 halone) o ho)

/-- A step of `HandleRequest` that leaves the call alone. -/
theorem Requests.handling {pc pc' : HandlePc}
    (h : Requests cfg b (.receive (.handle r pc) :: rest))
    (hpc : pc ≠ .schedule) (hpc' : pc' ≠ .schedule) :
    Requests cfg b ([.receive (.handle r pc')] ++ rest) := by
  obtain ⟨hr, hdispatch, hadmission⟩ := h.ops _ List.mem_cons_self
  rw [if_neg hpc] at hadmission
  refine h.step (fun o ho => ?_) (fun r' => rfl) (fun r' => ?_)
  · rw [List.mem_singleton.1 ho]
    exact ⟨hr, hdispatch, by rw [if_neg hpc']; exact hadmission⟩
  · simp [IoOp.handles, hpc, hpc']

/-- The call is admitted. -/
theorem Requests.addCall
    (h : Requests cfg b (.receive (.handle r .addCall) :: rest))
    (halone : tally IoOp.isReceive rest = 0) :
    Requests cfg
      { b with
        calls := Function.update b.calls r
          { b.calls r with admission := .admitted }
        inbound := b.inbound ++ [r]
        inFlight := b.inFlight + 1 }
      ([.receive (.handle r .schedule)] ++ rest) := by
  obtain ⟨hr, hdispatch, hadmission⟩ := h.ops _ List.mem_cons_self
  have hold := h.calls r
  have hnil : (b.calls r).finalizers = [] := by
    by_contra hne
    rw [hold.returned hne] at hdispatch
    cases hdispatch
  have howed : (b.calls r).owed = 0 :=
    Call.owed_idle (by rw [hadmission]; nofun)
  have howes : ({ b.calls r with admission := .admitted } : Call).owed = 1 := by
    simp [Call.owed, hnil]
  have hin := h.inbound r
  have honce := h.once r
  unfold Book.owed at hin
  rw [howed, tally_cons] at hin
  refine h.change hr ⟨fun hne => absurd rfl hne, hold.dispatch, hold.pending,
    hold.done, hold.one, hold.executions, hold.answers, hold.method⟩ rfl
    (h.attached r) (fun o ho => ?_) h.completions (fun r' hne => ?_) ?_ ?_ ?_
  · rcases List.mem_append.1 ho with ho | ho
    · rw [List.mem_singleton.1 ho]
      refine ⟨hr, ?_, ?_⟩
      · show (Function.update b.calls r _ r).dispatch = _
        rw [Function.update_self]
        exact hdispatch
      · show (Function.update b.calls r _ r).admission = _
        rw [Function.update_self]
        rfl
    · refine h.rest_ok halone ?_ o ho
      rfl
  · simp [IoOp.handles, IoOp.completes, hne.symm]
  · rw [howes]
    simp only [Book.owed, howed]
    simp [IoOp.handles, IoOp.completes]
    omega
  · rw [howes, tally_append, hin]
    simp [IoOp.completes]
    omega
  · rw [h.inFlight]
    simp

/-- Its dispatch task is scheduled. -/
theorem Requests.schedule
    (h : Requests cfg b (.receive (.handle r .schedule) :: rest))
    (halone : tally IoOp.isReceive rest = 0) :
    Requests cfg
      { b with
        calls := Function.update b.calls r
          { b.calls r with dispatch := .queued } }
      ([.receive .parse] ++ rest) := by
  obtain ⟨hr, hdispatch, hadmission⟩ := h.ops _ List.mem_cons_self
  rw [if_pos rfl] at hadmission
  have hold := h.calls r
  have hholds := hold.dispatch
  rw [hdispatch] at hholds
  have hidle := hold.early hholds.1 (by rw [hdispatch]; nofun)
  have hin := h.inbound r
  unfold Book.owed at hin
  rw [tally_cons] at hin
  refine h.change hr ⟨fun hne => absurd hadmission hne, hholds, hold.pending,
    fun hd => ?_, hold.one, hold.executions, hold.answers, hold.method⟩ rfl
    (h.attached r) (fun o ho => ?_) h.completions (fun r' hne => ?_) ?_ ?_
    h.inFlight
  · exact absurd hd (by rw [hidle.2.1]; decide)
  · rcases List.mem_append.1 ho with ho | ho
    · rw [List.mem_singleton.1 ho]
      trivial
    · refine h.rest_ok halone ?_ o ho
      rfl
  · simp [IoOp.handles, IoOp.completes]
  · simp [IoOp.handles, IoOp.completes, Book.owed, Call.owed]
    omega
  · simpa [IoOp.completes, Call.owed] using hin

/-- The request is rejected. -/
theorem Requests.reject {text : String}
    (h : Requests cfg b (.receive (.handle r (.reject text)) :: rest))
    (halone : tally IoOp.isReceive rest = 0) :
    Requests cfg
      { b with
        calls := Function.update b.calls r
          { b.calls r with admission := .rejected } }
      ([.receive (.respond r (.sendError text))] ++ rest) := by
  obtain ⟨hr, hdispatch, hadmission⟩ := h.ops _ List.mem_cons_self
  rw [if_neg nofun] at hadmission
  have hold := h.calls r
  have howed : (b.calls r).owed = 0 :=
    Call.owed_idle (by rw [hadmission]; nofun)
  have howes : ({ b.calls r with admission := .rejected } : Call).owed = 0 :=
    Call.owed_idle nofun
  have hin := h.inbound r
  unfold Book.owed at hin
  rw [tally_cons] at hin
  refine h.change hr ⟨fun _ => hdispatch, hold.dispatch, hold.pending,
    hold.done, hold.one, hold.executions, hold.answers, hold.method⟩ rfl
    (h.attached r) (fun o ho => ?_) h.completions (fun r' hne => ?_) ?_ ?_
    h.inFlight
  · rcases List.mem_append.1 ho with ho | ho
    · rw [List.mem_singleton.1 ho]
      refine ⟨hr, ?_, trivial⟩
      show (Function.update b.calls r _ r).admission = _
      rw [Function.update_self]
    · refine h.rest_ok halone ?_ o ho
      rfl
  · simp [IoOp.handles, IoOp.completes, hne.symm]
  · rw [howes]
    simp [IoOp.handles, IoOp.completes, Book.owed, howed]
    omega
  · rw [howes, hin, howed]
    simp [IoOp.completes]

-- == replies

/-- The reply to a rejection is queued. -/
theorem Requests.reply {response : Bytes}
    (h : Requests cfg b (.receive (.respond r (.enqueue response)) :: rest))
    (hops : ops.all IoOp.tokenless = true) :
    Requests cfg { b with pushed := b.pushed ++ [(r, response)] }
      (ops ++ rest) := by
  obtain ⟨hr, -, hanswer⟩ := h.ops _ List.mem_cons_self
  have hdrop := h.drop (fun _ => rfl) hops
  refine { hdrop with pushed := fun p hp => ?_, once := fun r' => ?_ }
  · rcases List.mem_append.1 hp with hp | hp
    · exact h.pushed p hp
    · rw [List.mem_singleton.1 hp]
      exact ⟨hr, hanswer⟩
  · have honce := h.once r'
    simp only [Book.answers, Book.owed, tally_append, tally_cons, tally_nil,
      tally_tokenless (fun _ => IoOp.tokenless_handles) hops,
      tally_tokenless (fun _ => IoOp.tokenless_completes) hops] at honce ⊢
    change _ + (bit (decide (r = r')) + _) + (_ + (0 + _) + _) ≤ 1 at honce
    omega

theorem packServerErrorResponse_isAnswer {request : FrameParseResult}
    {errorCode : Int32} {errorText : String}
    (hok : (packServerErrorResponse cfg request errorCode errorText).ok
      = true) :
    IsAnswer cfg request.rpcMeta
      (packServerErrorResponse cfg request errorCode errorText).out :=
  ⟨{ msgType := .response
     correlationId := request.rpcMeta.correlationId
     serviceName := request.rpcMeta.serviceName
     methodName := request.rpcMeta.methodName
     errorCode := errorCode
     errorText := errorText },
    [], none, ⟨rfl, rfl, rfl, rfl⟩, hok, rfl⟩

/-- The reply goes on with an answer in hand. -/
theorem Requests.replies {op op' : RespondOp}
    (h : Requests cfg b (.receive (.respond r op) :: rest))
    (hop : op'.Carries cfg (b.calls r).frame.rpcMeta) :
    Requests cfg b ([.receive (.respond r op')] ++ rest) := by
  obtain ⟨hr, hrejected, -⟩ := h.ops _ List.mem_cons_self
  refine h.step (fun o ho => ?_) (fun r' => rfl) (fun r' => ?_)
  · rw [List.mem_singleton.1 ho]
    exact ⟨hr, hrejected, hop⟩
  · simp [IoOp.handles]

-- == completion

theorem tally_filter_ne (l : List Nat) (r r' : Nat) :
    tally (fun x => x = r') (l.filter (· ≠ r))
      = if r' = r then 0 else tally (fun x => x = r') l := by
  induction l with
  | nil => simp
  | cons x l ih =>
      by_cases hx : x = r
      · subst hx
        simp only [List.filter_cons, ne_eq, not_true, decide_false,
          Bool.false_eq_true, if_false, ih, tally_cons]
        split
        · rfl
        · next hne => simp [Ne.symm hne]
      · simp only [List.filter_cons, ne_eq, hx, not_false_eq_true,
          decide_true, if_true, tally_cons, ih]
        split
        · next heq => simp [heq, hx]
        · rfl

theorem length_filter_ne (l : List Nat) (r : Nat) :
    ((l.filter (· ≠ r)).length : Int)
      = l.length - tally (fun x => x = r) l := by
  induction l with
  | nil => rfl
  | cons x l ih =>
      by_cases hx : x = r
      · simp [hx] at ih ⊢
        omega
      · simp [hx] at ih ⊢
        omega

/-- A completion is handled: its request leaves `inbound_calls_`, and its
response may be queued. -/
theorem Requests.complete {response : Bytes} {closeAfter : Bool}
    {pushed : List (Nat × Bytes)}
    (h : Requests cfg b (.close (.complete r response closeAfter) :: rest))
    (hops : ops.all IoOp.tokenless = true)
    (hpushed : pushed = b.pushed
      ∨ pushed = b.pushed ++ [(r, response)] ∧ response ≠ []) :
    Requests cfg
      { b with
        inbound := b.inbound.filter (· ≠ r)
        inFlight := b.inFlight - 1
        pushed := pushed }
      (ops ++ rest) := by
  obtain ⟨hr, hanswer⟩ := h.ops _ List.mem_cons_self
  have hin := h.inbound
  -- the request is in this completion only
  have honly : (b.calls r).owed = 0 ∧ tally (IoOp.completes r) rest = 0
      ∧ tally (Command.completes r) b.completions = 0
      ∧ tally (fun x => x = r) b.inbound = 1 := by
    have honce := h.once r
    have hinr := hin r
    have n1 := tally_nonneg (fun p : Nat × Bytes => decide (p.1 = r)) b.pushed
    have n2 := tally_nonneg (IoOp.handles r) rest
    have n3 := tally_nonneg (IoOp.completes r) rest
    have n4 := tally_nonneg (Command.completes r) b.completions
    have n5 := Call.owed_nonneg (h.calls r)
    simp only [Book.answers, Book.owed, tally_cons] at honce hinr
    simp [IoOp.handles, IoOp.completes] at honce hinr
    omega
  obtain ⟨howed, hrest, hmail, hone⟩ := honly
  refine
    { calls := h.calls, unborn := h.unborn, attached := h.attached,
      ops := fun o ho => ?_, completions := h.completions,
      pushed := fun p hp => ?_, once := fun r' => ?_, inbound := fun r' => ?_,
      inFlight := ?_ }
  · rcases List.mem_append.1 ho with ho | ho
    · exact IoOp.tokenless_ok (List.all_eq_true.1 hops o ho)
    · exact (h.ops o (List.mem_cons_of_mem _ ho)).mono h.calls (le_refl _)
        (fun _ _ => rfl) (fun _ _ _ _ => rfl)
  · rcases hpushed with rfl | ⟨rfl, hne⟩
    · exact h.pushed p hp
    · rcases List.mem_append.1 hp with hp | hp
      · exact h.pushed p hp
      · rw [List.mem_singleton.1 hp]
        exact ⟨hr, hanswer hne⟩
  · have honce := h.once r'
    have hle : tally (fun p => p.1 = r') pushed
        ≤ tally (fun p => p.1 = r') b.pushed + bit (decide (r = r')) := by
      rcases hpushed with rfl | ⟨rfl, -⟩
      · exact le_add_of_nonneg_right (bit_nonneg _)
      · simp
    simp only [Book.answers, Book.owed, tally_append, tally_cons,
      tally_tokenless (fun _ => IoOp.tokenless_handles) hops,
      tally_tokenless (fun _ => IoOp.tokenless_completes) hops] at honce ⊢
    change _ + (0 + _) + (_ + (bit (decide (r = r')) + _) + _) ≤ 1 at honce
    omega
  · have hinr := hin r'
    simp only [Book.owed, tally_append, tally_cons, tally_filter_ne,
      tally_tokenless (fun _ => IoOp.tokenless_completes) hops] at hinr ⊢
    split
    · next heq =>
      subst heq
      omega
    · next hne =>
      rw [hinr]
      simp [IoOp.completes, Ne.symm hne]
  · show b.inFlight - 1 = ((b.inbound.filter (· ≠ r)).length : Int)
    rw [length_filter_ne, hone, h.inFlight]

-- == other operations

theorem execRequestClose_book {pc pc' : ClosePc}
    (he : execRequestClose rt c pc = some (rt', c', pc')) :
    c'.book = c.book := by
  obtain ⟨hframe, -, hmail⟩ := execRequestClose_frame he
  rw [hframe]
  rcases hmail with hmail | hmail
  · simp only [Conn.book, hmail]
  · simp [Conn.book, hmail, Command.isComplete]

theorem IoStep.requests (hs : IoStep cfg c op c' ops)
    (h : Requests cfg c.book (op :: rest))
    (hflow : Flow c.flags c.running (op :: rest)) :
    Requests cfg c'.book (ops ++ rest) := by
  cases hs with
  | postStart =>
      have hbook : ({ c with mailbox := c.mailbox ++ [.start] } : Conn).book
          = c.book := by
        simp [Conn.book, Command.isComplete]
      rw [hbook]
      exact h.drop (fun _ => rfl) rfl
  | handling hpc hpc' => exact h.handling hpc hpc'
  | addCall => exact h.addCall hflow.of_receive.2.2.2
  | schedule => exact h.schedule hflow.of_receive.2.2.2
  | reject => exact h.reject hflow.of_receive.2.2.2
  | sendError hok => exact h.replies (packServerErrorResponse_isAnswer hok)
  | reserving _ | reserve _ =>
      exact h.replies (h.ops _ List.mem_cons_self).2.2
  | enqueue _ => exact h.reply rfl
  | frame _ => exact h.arrive hflow.of_receive.2.2.2
  | requestClose he =>
      rw [execRequestClose_book he]
      refine h.drop (fun _ => rfl) ?_
      split <;> rfl
  | completeClosing | completeNothing => exact h.complete rfl (.inl rfl)
  | complete _ hresponse => exact h.complete rfl (.inr ⟨rfl, hresponse⟩)
  | _ => exact h.drop (fun _ => rfl) rfl

-- == workers

/-- A finalization that has not posted keeps its call in
`inbound_calls_`. -/
theorem Requests.inbound_of_unposted {pc : FinalizePc}
    (h : Requests cfg b io) (hpc : pc ∈ (b.calls r).finalizers)
    (hposted : pc.posted = false) : b.inbound ≠ [] := by
  have hcall := h.calls r
  have hreturned := hcall.returned (List.ne_nil_of_mem hpc)
  have hadmitted : (b.calls r).admission = .admitted := by
    by_contra hne
    rw [hcall.idle hne] at hreturned
    cases hreturned
  have honly : (b.calls r).finalizers = [pc] := by
    have hone := hcall.one
    match hf : (b.calls r).finalizers with
    | [] => rw [hf] at hpc; cases hpc
    | [pc₁] =>
        rw [hf] at hpc
        rw [List.mem_singleton.1 hpc]
    | _ :: _ :: _ =>
        rw [hf, List.length_cons, List.length_cons] at hone
        omega
  have howed : (b.calls r).owed = 1 := by
    simp [Call.owed, hadmitted, honly, hposted]
  intro hnil
  have hin := h.inbound r
  have h1 := tally_nonneg (IoOp.completes r) io
  have h2 := tally_nonneg (Command.completes r) b.completions
  rw [hnil, tally_nil, Book.owed, howed] at hin
  omega

/-- A worker or a closure changes a call that has been dispatched. -/
theorem Requests.work {call : Call} {completions : List Command}
    (h : Requests cfg b io) (hr : r < b.requests) (hcall : CallOk cfg call)
    (hframe : call.frame = (b.calls r).frame)
    (hattached : ∀ pc ∈ call.finalizers, pc.attached = true)
    (hdispatched : (b.calls r).dispatch ≠ .unscheduled)
    (hcompletions : ∀ command ∈ completions, command.Ok cfg b)
    (hothers : ∀ r', r' ≠ r → tally (Command.completes r') completions
      = tally (Command.completes r') b.completions)
    (howed : call.owed + tally (Command.completes r) completions
      = (b.calls r).owed + tally (Command.completes r) b.completions) :
    Requests cfg
      { b with
        calls := Function.update b.calls r call
        completions := completions } io := by
  refine h.change hr hcall hframe hattached (fun o ho => ?_) hcompletions
    (fun r' hne => ⟨rfl, rfl, hothers r' hne, rfl⟩) ?_ ?_ h.inFlight
  · refine (h.ops o ho).mono h.calls (le_refl _) (fun r' _ => ?_)
      (fun _ r' _ hidle => ?_)
    · show (Function.update b.calls r call r').frame = _
      rw [Function.update_apply]
      split
      · next heq => rw [hframe, heq]
      · rfl
    · show Function.update b.calls r call r' = _
      refine Function.update_of_ne ?_ _ _
      rintro rfl
      exact hdispatched hidle
  · unfold Book.owed
    omega
  · have hin := h.inbound r
    unfold Book.owed at hin
    omega

/-- The call is as it was, or has a finalization that has not begun. -/
structure Begins (call call' : Call) : Prop where
  frame : call'.frame = call.frame
  admission : call'.admission = call.admission
  finalizers : call'.finalizers = call.finalizers
    ∨ ∃ pc, call'.finalizers = call.finalizers ++ [pc]
      ∧ (pc = .queued ∨ pc = .scheduling)

theorem Requests.begins {call : Call} (h : Requests cfg b io)
    (hr : r < b.requests) (hcall : CallOk cfg call)
    (hdispatched : (b.calls r).dispatch ≠ .unscheduled)
    (hbegins : Begins (b.calls r) call) :
    Requests cfg { b with calls := Function.update b.calls r call } io := by
  obtain ⟨hframe, hadmission, hfin⟩ := hbegins
  refine h.work hr hcall hframe ?_ hdispatched h.completions
    (fun _ _ => rfl) ?_
  · rcases hfin with hfin | ⟨pc, hfin, hpc⟩
    · rw [hfin]
      exact h.attached r
    · rw [hfin]
      intro pc' hpc'
      rcases List.mem_append.1 hpc' with hpc' | hpc'
      · exact h.attached r pc' hpc'
      · rw [List.mem_singleton.1 hpc']
        rcases hpc with rfl | rfl <;> rfl
  · unfold Call.owed
    rw [hadmission]
    rcases hfin with hfin | ⟨pc, hfin, rfl | rfl⟩ <;> rw [hfin]
    · simp [FinalizePc.posted]
    · simp [FinalizePc.posted]

theorem execDispatch_begins {call call' : Call}
    (he : execDispatch cfg rt call call.dispatch = some (rt', call')) :
    call.dispatch ≠ .unscheduled ∧ Begins call call' := by
  cases hpc : call.dispatch with
  | unscheduled | returned => rw [hpc] at he; cases he
  | lookup | parseRequest _ =>
      rw [hpc] at he
      simp only [execDispatch] at he
      split at he <;> cases he <;> exact ⟨by rintro ⟨⟩, rfl, rfl, .inl rfl⟩
  | schedule =>
      rw [hpc] at he
      cases he
      exact ⟨by rintro ⟨⟩, rfl, rfl, .inr ⟨_, rfl, .inl rfl⟩⟩
  | _ =>
      rw [hpc] at he
      cases he
      exact ⟨by rintro ⟨⟩, rfl, rfl, .inl rfl⟩

theorem run_begins (call : Call) : Begins call call.run := by
  unfold Call.run
  split
  · exact ⟨rfl, rfl, .inr ⟨_, rfl, .inr rfl⟩⟩
  · exact ⟨rfl, rfl, .inl rfl⟩

/-- What a finalization does to the mailbox. -/
theorem execFinalize_posts {outcome : ServiceOutcome} {alive : Bool}
    {call call' : Call} {pc pc' : FinalizePc}
    (he : execFinalize cfg ch outcome alive rt c r call pc
      = some (rt', c', call', pc')) (hattached : pc.attached = true) :
    c'.mailbox = c.mailbox ∧ pc'.posted = pc.posted
      ∨ ∃ payload, pc = .post payload ∧ pc' = .releaseInFlight
        ∧ c'.mailbox = c.mailbox
          ++ [.completeInbound r payload.response payload.closeAfter] := by
  cases pc with
  | lock packed =>
      left
      simp only [execFinalize] at he
      split at he
      · cases he
        exact ⟨rfl, rfl⟩
      · split at he <;> cases he <;> exact ⟨rfl, rfl⟩
  | loadRunning _ | reserve _ _ =>
      left
      simp only [execFinalize] at he
      split at he <;> cases he <;> exact ⟨rfl, rfl⟩
  | account payload =>
      left
      cases he
      split <;> exact ⟨rfl, rfl⟩
  | post payload =>
      right
      simp only [execFinalize] at he
      rw [if_pos (show payload.connection = true from hattached)] at he
      cases he
      exact ⟨payload, rfl, rfl, rfl⟩
  | scheduling | queued | accountMethod _ | subMethodGauge _
  | storeFinalized _ | releaseInFlight | subInFlightGauge =>
      left
      cases he
      exact ⟨rfl, rfl⟩
  | finished => cases he

/-- A finalization finds a connection that is not released. -/
theorem execFinalize_attached {outcome : ServiceOutcome} {alive : Bool}
    {call call' : Call} {pc pc' : FinalizePc}
    (he : execFinalize cfg ch outcome alive rt c r call pc
      = some (rt', c', call', pc')) (hattached : pc.attached = true)
    (hopen : pc.posted = false → c.released = false) :
    pc'.attached = true := by
  cases pc with
  | lock packed =>
      simp only [execFinalize, hopen rfl] at he
      rw [if_neg (by simp)] at he
      split at he <;> cases he <;> rfl
  | loadRunning _ | reserve _ _ =>
      simp only [execFinalize] at he
      split at he <;> cases he <;> rfl
  | account payload =>
      cases he
      split <;> exact hattached
  | post payload =>
      simp only [execFinalize] at he
      split at he <;> cases he <;> rfl
  | accountMethod _ | subMethodGauge _ | storeFinalized _ =>
      cases he
      exact hattached
  | scheduling | queued | releaseInFlight | subInFlightGauge =>
      cases he
      rfl
  | finished => cases he

theorem Requests.finalize {outcome : ServiceOutcome} {alive : Bool}
    {j : Nat} {call : Call} {pc pc' : FinalizePc}
    (h : Requests cfg c.book io) (hr : r < c.requests)
    (hj : (c.calls r).finalizers[j]? = some pc)
    (he : execFinalize cfg ch outcome alive rt c r (c.calls r) pc
      = some (rt', c', call, pc'))
    (hreleased : c.released = true → c.inboundCalls = []) :
    Requests cfg
      { c.book with
        calls := Function.update c.calls r
          { call with finalizers := call.finalizers.set j pc' }
        completions := c'.mailbox.filter Command.isComplete } io := by
  have hmem := List.mem_of_getElem? hj
  have hstep := execFinalize_call he
  have hattached := h.attached r pc hmem
  have hopen : pc.posted = false → c.released = false := by
    intro hposted
    cases hb : c.released with
    | false => rfl
    | true =>
        exact absurd (hreleased hb) (h.inbound_of_unposted hmem hposted)
  have hreturned : (c.calls r).dispatch = .returned :=
    (h.calls r).returned (List.ne_nil_of_mem hmem)
  obtain ⟨hframe, hadmission, hfin⟩ : call.frame = (c.calls r).frame
      ∧ call.admission = (c.calls r).admission
      ∧ call.finalizers = (c.calls r).finalizers := by
    rw [hstep.frame]
    exact ⟨rfl, rfl, rfl⟩
  have hset : tally FinalizePc.posted ((c.calls r).finalizers.set j pc')
      = tally FinalizePc.posted (c.calls r).finalizers - bit pc.posted
        + bit pc'.posted := weigh_set hj
  have hadmitted : (c.calls r).admission = .admitted := by
    by_contra hne
    rw [show (c.calls r).dispatch = _ from (h.calls r).idle hne] at hreturned
    cases hreturned
  have hposts := execFinalize_posts he hattached
  refine h.work hr (callOk_finalize (h.calls r) hj hstep) hframe ?_
    (fun hidle => (nomatch hreturned.symm.trans hidle)) ?_ ?_ ?_
  · intro pc₁ hpc₁
    change pc₁ ∈ call.finalizers.set j pc' at hpc₁
    rw [hfin] at hpc₁
    rcases List.mem_or_eq_of_mem_set hpc₁ with hold | rfl
    · exact h.attached r pc₁ hold
    · exact execFinalize_attached he hattached hopen
  · rcases hposts with ⟨hmail, -⟩ | ⟨payload, rfl, -, hmail⟩ <;> rw [hmail]
    · exact h.completions
    · intro command hcommand
      rw [List.filter_append] at hcommand
      rcases List.mem_append.1 hcommand with hcommand | hcommand
      · exact h.completions command hcommand
      · rw [List.mem_singleton.1 hcommand]
        exact ⟨hr, (h.calls r).answers _ hmem⟩
  · intro r' hne
    rcases hposts with ⟨hmail, -⟩ | ⟨payload, -, -, hmail⟩ <;> rw [hmail]
    · rfl
    · simp [Conn.book, List.filter_cons, Command.isComplete,
        Command.completes, hne.symm]
  · simp only [Call.owed, hadmission, hadmitted, if_true, hfin, hset]
    rcases hposts with ⟨hmail, hsame⟩ | ⟨payload, rfl, rfl, hmail⟩
    · rw [hmail, hsame]
      show _ + tally _ (c.mailbox.filter _) = _
        + tally _ (c.mailbox.filter _)
      simp only [Conn.book, hadmitted, if_true]
      omega
    · rw [hmail]
      simp [Conn.book, List.filter_cons, Command.isComplete,
        Command.completes, FinalizePc.posted, hadmitted]
      omega

-- == runs

/-- The IO thread takes a command. -/
theorem Requests.dispatch {command : Command} {mailbox : List Command}
    (h : Requests cfg b [])
    (hmail : b.completions
      = (command :: mailbox).filter Command.isComplete) :
    Requests cfg
      { b with completions := mailbox.filter Command.isComplete }
      [dispatchCommand command] := by
  have hcompletions := h.completions
  rw [hmail] at hcompletions
  have hops : (dispatchCommand command).Ok cfg b := by
    cases command with
    | start | close => trivial
    | completeInbound r response closeAfter =>
        exact hcompletions _ List.mem_cons_self
  have hmoves : ∀ r, tally (IoOp.completes r) [dispatchCommand command]
      + tally (Command.completes r) (mailbox.filter Command.isComplete)
      = tally (Command.completes r) b.completions := by
    intro r
    rw [hmail]
    cases command <;> simp [dispatchCommand, List.filter_cons,
      IoOp.completes, Command.completes, Command.isComplete]
  have hnone : ∀ r, (dispatchCommand command).handles r = false := by
    intro r
    cases command <;> rfl
  refine
    { calls := h.calls, unborn := h.unborn, attached := h.attached,
      ops := fun o ho => ?_, completions := fun o ho => ?_,
      pushed := h.pushed, once := fun r => ?_, inbound := fun r => ?_,
      inFlight := h.inFlight }
  · rw [List.mem_singleton.1 ho]
    exact hops.mono h.calls (le_refl _) (fun _ _ => rfl) (fun _ _ _ _ => rfl)
  · have hmem : o ∈ (command :: mailbox).filter Command.isComplete := by
      rw [List.mem_filter] at ho ⊢
      exact ⟨List.mem_cons_of_mem _ ho.1, ho.2⟩
    exact (hcompletions o hmem).mono (le_refl _) fun _ _ => rfl
  · have honce := h.once r
    have hmove := hmoves r
    simp only [Book.answers, Book.owed, tally_nil, tally_cons, hnone,
      bit_false] at honce hmove ⊢
    omega
  · have hin := h.inbound r
    have hmove := hmoves r
    simp only [Book.owed, tally_nil, tally_cons] at hin hmove ⊢
    omega

/-- The program has no request, so only the list of completions and the
calls matter. -/
theorem Requests.resume (h : Requests cfg b [])
    (hop : op.tokenless = true) : Requests cfg b [op] where
  calls := h.calls
  unborn := h.unborn
  attached := h.attached
  ops := fun o ho => by
    rw [List.mem_singleton.1 ho]
    exact IoOp.tokenless_ok hop
  completions := h.completions
  pushed := h.pushed
  once := fun r => by
    have honce := h.once r
    simpa [Book.answers, Book.owed, IoOp.tokenless_handles hop,
      IoOp.tokenless_completes hop] using honce
  inbound := fun r => by
    have hin := h.inbound r
    simpa [Book.owed, IoOp.tokenless_completes hop] using hin
  inFlight := h.inFlight

theorem requests_step (h : Requests cfg c.book c.io)
    (hflow : Flow c.flags c.running c.io) (hemptied : Emptied c)
    (hs : ConnStep cfg n rt c a rt' c') : Requests cfg c'.book c'.io := by
  cases hs with
  | io hio he =>
      next op rest c₁ ops =>
      rw [hio] at h hflow
      show Requests cfg c₁.book (ops ++ rest)
      exact (execIo_step he).requests h hflow
  | dispatch hio hmail =>
      rw [hio] at h
      exact h.dispatch (by simp only [Conn.book, hmail])
  | readDone hio _ _ | writeDone hio _ _ =>
      rw [hio] at h
      exact h.resume rfl
  | task hr hadmitted he =>
      obtain ⟨hdispatched, hbegins⟩ := execDispatch_begins he
      exact h.begins hr (callOk_dispatch (h.calls _) hadmitted he)
        hdispatched hbegins
  | run hr hdone =>
      refine h.begins hr (callOk_run (h.calls _) hdone) (fun hidle => ?_)
        (run_begins _)
      exact nomatch ((h.calls _).done hdone).symm.trans hidle
  | finalize hr hj he =>
      have hnext := h.finalize hr hj he fun hb => (hemptied hb).1
      obtain ⟨hframe, -⟩ := execFinalize_frame he
      rw [hframe]
      exact hnext
  | requestClose _ => exact h
  | closer hk he =>
      next c₁ _ =>
      have hio : c₁.io = c.io := by rw [(execRequestClose_frame he).1]
      show Requests cfg c₁.book c₁.io
      rw [execRequestClose_book he, hio]
      exact h

theorem reach_requests (h : (connMachine cfg n).Reachable c) :
    Requests cfg c.book c.io := by
  refine reach_invariant (I := fun c => Requests cfg c.book c.io) ?_ ?_ h
  · refine
      { calls := fun _ => callOk_new {}, unborn := fun _ _ => rfl,
        attached := nofun, ops := fun o ho => ?_, completions := nofun,
        pushed := nofun, once := fun _ => ?_, inbound := fun _ => rfl,
        inFlight := rfl }
    · rw [List.mem_singleton.1 ho]
      trivial
    · exact Int.zero_le_ofNat 1
  · intro rt c a rt' c' hr h _ hs
    exact requests_step h (reach_flow hr) (reach_emptied hr) hs

-- == the queue

/-- What an operation of a `WriteFrame` has to write. -/
def IoOp.buffer : IoOp → Option Bytes
  | .write (.writeLoop buffer) | .write (.write buffer)
  | .write (.writeResumed buffer _) | .write (.writeRelease buffer _)
  | .write (.writeExit buffer) => some buffer
  | _ => none

/-- What `WriteFrame` has in hand, suspended or at work. -/
def Conn.buffers (c : Conn) : List Bytes :=
  c.activeWrite.toList ++ c.io.filterMap IoOp.buffer

/-- The frames pushed are those that have left `outbound_` and those in
it; what `WriteFrame` has in hand is of the former. -/
def Queued (c : Conn) : Prop :=
  ∃ gone queued : List (Nat × Bytes), c.pushed = gone ++ queued
    ∧ c.outbound = queued.map Prod.snd
    ∧ ∀ buffer ∈ c.buffers, buffer <:+: (gone.map Prod.snd).flatten

/-- Entries are pushed at the end of the queue, frames leave it at the
front, and `WriteFrame` takes hold of these alone. -/
theorem Queued.step (frames : List Bytes) (entries : List (Nat × Bytes))
    (h : Queued c) (hpushed : c'.pushed = c.pushed ++ entries)
    (hout : c.outbound ++ entries.map Prod.snd = frames ++ c'.outbound)
    (hbuffers : ∀ buffer ∈ c'.buffers,
      (∃ b ∈ c.buffers, buffer <:+: b) ∨ buffer <:+: frames.flatten) :
    Queued c' := by
  obtain ⟨gone, queued, hgone, hqueued, hhand⟩ := h
  rw [hqueued, ← List.map_append] at hout
  obtain ⟨left, kept, hsplit, rfl, hkept⟩ := List.map_eq_append_iff.1 hout
  refine ⟨gone ++ left, kept, ?_, hkept.symm, fun buffer hb => ?_⟩
  · rw [hpushed, hgone, List.append_assoc, hsplit, List.append_assoc]
  · rw [List.map_append, List.flatten_append]
    rcases hbuffers buffer hb with ⟨b, hmem, hpart⟩ | hpart
    · exact hpart.trans
        ((hhand b hmem).trans (List.prefix_append _ _).isInfix)
    · exact hpart.trans (List.suffix_append _ _).isInfix

/-- The queue is as it was. -/
theorem Queued.keep (h : Queued c)
    (hsame : (c'.pushed, c'.outbound) = (c.pushed, c.outbound))
    (hbuffers : ∀ buffer ∈ c'.buffers, ∃ b ∈ c.buffers, buffer <:+: b) :
    Queued c' := by
  simp only [Prod.mk.injEq] at hsame
  exact h.step [] [] (by simp [hsame.1]) (by simp [hsame.2])
    fun buffer hb => .inl (hbuffers buffer hb)

/-- So is what `WriteFrame` has in hand, or it is let go. -/
theorem Queued.plain (h : Queued { c with io := op :: rest })
    (hsame : (c'.pushed, c'.outbound, c'.activeWrite)
      = (c.pushed, c.outbound, c.activeWrite))
    (hops : ops.filterMap IoOp.buffer = []) :
    Queued { c' with io := ops ++ rest } := by
  simp only [Prod.mk.injEq] at hsame
  obtain ⟨hpushed, hout, hactive⟩ := hsame
  refine h.keep (by simp [hpushed, hout]) fun buffer hb => ?_
  refine ⟨buffer, ?_, List.infix_rfl⟩
  simp only [Conn.buffers, hactive, List.filterMap_append, hops,
    List.nil_append, List.filterMap_cons] at hb ⊢
  split <;> grind

/-- One frame is pushed. -/
theorem Queued.push {response : Bytes} (h : Queued { c with io := op :: rest })
    (hpushed : c'.pushed = c.pushed ++ [(r, response)])
    (hout : c'.outbound = c.outbound ++ [response])
    (hactive : c'.activeWrite = c.activeWrite)
    (hops : ops.filterMap IoOp.buffer = []) :
    Queued { c' with io := ops ++ rest } := by
  have hplain : Queued { c with io := ops ++ rest } := h.plain rfl hops
  refine hplain.step [] [(r, response)] hpushed (by simp [hout]) ?_
  intro buffer hb
  refine .inl ⟨buffer, ?_, List.infix_rfl⟩
  simpa only [Conn.buffers, hactive] using hb

/-- `WriteFrame` goes on with a part of what it has in hand. -/
theorem Queued.writes {buffer : Bytes}
    (h : Queued { c with io := op :: rest }) (hop : op.buffer = some buffer)
    (hsame : (c'.pushed, c'.outbound, c'.activeWrite)
      = (c.pushed, c.outbound, c.activeWrite))
    (hops : ∀ b ∈ ops.filterMap IoOp.buffer, b <:+: buffer) :
    Queued { c' with io := ops ++ rest } := by
  simp only [Prod.mk.injEq] at hsame
  obtain ⟨hpushed, hout, hactive⟩ := hsame
  refine h.keep (by simp [hpushed, hout]) fun b hb => ?_
  simp only [Conn.buffers, hactive, List.filterMap_append,
    List.filterMap_cons, hop, List.mem_append, List.mem_cons] at hb ⊢
  rcases hb with hb | hb | hb
  · exact ⟨b, .inl hb, List.infix_rfl⟩
  · exact ⟨buffer, .inr (.inl rfl), hops b hb⟩
  · exact ⟨b, .inr (.inr hb), List.infix_rfl⟩

theorem mergeBatch_frames (buffer : Bytes) (outbound : List Bytes) :
    ∃ frames, outbound = frames ++ (mergeBatch buffer outbound).2
      ∧ (mergeBatch buffer outbound).1 = buffer ++ frames.flatten := by
  induction outbound generalizing buffer with
  | nil => exact ⟨[], rfl, by simp [mergeBatch]⟩
  | cons next outbound ih =>
      unfold mergeBatch
      split
      · obtain ⟨frames, hrest, hmerged⟩ := ih (buffer ++ next)
        refine ⟨next :: frames, ?_, ?_⟩
        · rw [List.cons_append, ← hrest]
        · rw [hmerged, List.flatten_cons, List.append_assoc]
      · exact ⟨[], rfl, by simp⟩

theorem IoStep.queued (hs : IoStep cfg c op c' ops)
    (h : Queued { c with io := op :: rest }) :
    Queued { c' with io := ops ++ rest } := by
  cases hs with
  | enqueue _ | complete _ _ => exact h.push rfl rfl rfl rfl
  | @startNextWrite front queue _ _ hout =>
      obtain ⟨frames, hrest, hmerged⟩ := mergeBatch_frames front queue
      refine h.step (front :: frames) [] (by simp) ?_ fun buffer hb => ?_
      · simp only [hout, List.map_nil, List.append_nil, List.cons_append]
        rw [← hrest]
      · simp only [Conn.buffers, List.cons_append, List.nil_append,
          List.filterMap_cons, IoOp.buffer, List.mem_append,
          List.mem_cons] at hb ⊢
        rcases hb with hb | rfl | hb
        · exact .inl ⟨buffer, .inl hb, List.infix_rfl⟩
        · rw [hmerged, List.flatten_cons]
          exact .inr List.infix_rfl
        · exact .inl ⟨buffer, .inr hb, List.infix_rfl⟩
  | writeLoop | leaveWrite | write _ | writeError | writeResumed =>
      exact h.writes rfl rfl (by simp [IoOp.buffer])
  | @writeRelease buffer written =>
      exact h.writes rfl rfl
        (by simp [IoOp.buffer, (List.drop_suffix written buffer).isInfix])
  | @suspendWrite buffer =>
      refine h.keep rfl fun b hb => ⟨b, ?_, List.infix_rfl⟩
      simp [Conn.buffers, IoOp.buffer] at hb ⊢
      tauto
  | @discard front queue hout =>
      refine h.step [front] [] (by simp [Conn.release]) (by simp [hout]) ?_
      intro buffer hb
      exact .inl ⟨buffer, hb, List.infix_rfl⟩
  | requestClose he =>
      refine h.plain ?_ (by split <;> rfl)
      rw [(execRequestClose_frame he).1]
  | _ => exact h.plain rfl rfl

theorem queued_step (h : Queued c) (hs : ConnStep cfg n rt c a rt' c') :
    Queued c' := by
  cases hs with
  | io hio he =>
      next op rest _ _ =>
      refine (execIo_step he).queued ?_
      rw [← hio]
      exact h
  | @dispatch command rest hio hmail =>
      refine h.keep rfl fun b hb => ⟨b, ?_, List.infix_rfl⟩
      have hnone : (dispatchCommand command).buffer = none := by
        cases command <;> rfl
      simpa [Conn.buffers, hio, hnone] using hb
  | readDone hio _ _ =>
      refine h.keep rfl fun b hb => ⟨b, ?_, List.infix_rfl⟩
      simpa [Conn.buffers, hio, IoOp.buffer] using hb
  | writeDone hio hactive _ =>
      refine h.keep rfl fun b hb => ⟨b, ?_, List.infix_rfl⟩
      simpa [Conn.buffers, hio, hactive, IoOp.buffer] using hb
  | task _ _ _ | run _ _ | requestClose _ => exact h
  | finalize _ _ he =>
      rw [(execFinalize_frame he).1]
      exact h
  | closer _ he =>
      rw [(execRequestClose_frame he).1]
      exact h

theorem reach_queued (h : (connMachine cfg n).Reachable c) : Queued c :=
  reach_invariant ⟨[], [], rfl, rfl, nofun⟩
    (fun _ _ _ _ _ _ h _ hs => queued_step h hs) h

-- == answers

/-- **Every request is answered at most once, by its own answer.** A call
has at most one finalization, whoever runs its closure and how often; at
most one frame is queued for a request, and it carries the request's
correlation id and names; `outbound_` is the frames queued that have not
left it, in order, and `WriteFrame` has in hand a piece of those that
have; and a rejected request is not executed. -/
theorem request_answered_once (h : (connMachine cfg n).Reachable c)
    (r : Nat) :
    (c.calls r).finalizers.length ≤ 1
      ∧ c.pushed.countP (fun p => p.1 = r) ≤ 1
      ∧ (∀ response, (r, response) ∈ c.pushed →
        IsAnswer cfg (c.calls r).frame.rpcMeta response)
      ∧ (∃ gone queued : List (Nat × Bytes), c.pushed = gone ++ queued
        ∧ c.outbound = queued.map Prod.snd
        ∧ ∀ buffer ∈ c.buffers, buffer <:+: (gone.map Prod.snd).flatten)
      ∧ ((c.calls r).admission = .rejected →
        (c.calls r).executions = 0) := by
  have hreq := reach_requests h
  have hcall : CallOk cfg (c.calls r) := hreq.calls r
  refine ⟨hcall.one, ?_, fun response hmem => (hreq.pushed _ hmem).2,
    reach_queued h, ?_⟩
  · have honce := hreq.once r
    have h1 := hreq.owed_nonneg r
    have h2 := tally_nonneg (IoOp.handles r) c.io
    rw [Book.answers, tally_eq_countP] at honce
    change ((c.pushed.countP fun p => decide (p.1 = r) : Nat) : Int) + _ + _
      ≤ 1 at honce
    omega
  · intro hrejected
    have hidle := hcall.idle (by rw [hrejected]; nofun)
    have hholds := hcall.dispatch
    rw [hidle] at hholds
    exact (hcall.early hholds.1 (by rw [hidle]; nofun)).2.2

/-- A codec that keeps the type and the lowest byte of the id. -/
def byteCodec : MetaCodec where
  serialize m :=
    some [if m.msgType = .response then 1 else 0, m.correlationId.toUInt8]
  parse
    | [t, id] =>
        some
          { correlationId := id.toUInt64
            msgType := if t = 1 then .response else .request }
    | _ => none

/-- A server with one method under every name. -/
def echoServer : ServerConfig where
  maxConnections := 4
  maxInFlight := 4
  maxInFlightPerConnection := 4
  maxPendingWorkerTasks := 4
  maxFrameBytes := 64
  maxOutboundBytesPerConnection := 64
  gracefulStopTimeout := 0
  codec := byteCodec
  registry := ⟨fun _ => some fun _ => some 0, fun _ _ => true⟩

def requestSeven : Bytes :=
  (packRpcFrame byteCodec { correlationId := 7 } [] none [] 64).out

/-- A connection is accepted and started, reads one request and admits
it; its service runs the closure twice; the response is queued. -/
def echoActions : List ConnAction :=
  List.replicate 9 (.io .go) ++ [.dispatch] ++ List.replicate 4 (.io .go)
    ++ [.io (.readNow (.data requestSeven))] ++ List.replicate 15 (.io .go)
    ++ List.replicate 7 (.task 0) ++ [.run 0, .run 0]
    ++ List.replicate 14 (.finalize 0 0 .go {} true)
    ++ List.replicate 3 (.io .go) ++ [.dispatch]
    ++ List.replicate 3 (.io .go)

def echoConn : Conn :=
  (connMachine echoServer 0).final (echoActions.map fun a => ({}, a))
    { io := [.accept .loadAccepting] }

theorem echoConn_reachable :
    (connMachine echoServer 0).Reachable echoConn :=
  Machine.reachable_final rfl (by decide +kernel)

theorem echoConn_answered :
    echoConn.pushed.length = 1 ∧ (echoConn.calls 0).executions = 1
      ∧ (echoConn.calls 0).finalizers.length ≤ 1
      ∧ echoConn.pushed.countP (fun p => p.1 = 0) ≤ 1
      ∧ (∀ response, (0, response) ∈ echoConn.pushed →
        IsAnswer echoServer (echoConn.calls 0).frame.rpcMeta response)
      ∧ (∃ gone queued : List (Nat × Bytes),
        echoConn.pushed = gone ++ queued
          ∧ echoConn.outbound = queued.map Prod.snd
          ∧ ∀ buffer ∈ echoConn.buffers,
            buffer <:+: (gone.map Prod.snd).flatten)
      ∧ ((echoConn.calls 0).admission = .rejected →
        (echoConn.calls 0).executions = 0) :=
  ⟨by decide +kernel, by decide +kernel,
    request_answered_once echoConn_reachable 0⟩

end AntRpc.Server
