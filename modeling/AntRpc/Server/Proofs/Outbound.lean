/-
`reserved_outbound_bytes_` of a server connection.

# The ledger

Response bytes are reserved by a worker or by the reply to a rejection
and go through the completion, the queue and a `WriteFrame` until they
are released. `Conn.unclaimed` is what is reserved and not in one of the
holders; the operations on the IO thread's list hold that
(`Outbound.balance`), and each operation is priced by what it changes:
`Moves`.

# The bound

`TryReserveOutboundBytes` compares with the limit minus the bytes, which
does not wrap because it has refused bytes beyond the limit before.

# After the release

The program's operations behind the first one hold no bytes unless they
write, and a connection at its release has no write, no queue and no
call; so nothing is reserved, and nothing ever is again
(`released_settled`).
-/
import AntRpc.Server.Proofs.Answers

namespace AntRpc.Server

open Protocol Lib

variable {cfg : ServerConfig} {n : Nat} {ch : Choice} {rt rt' : Runtime}
  {c c' : Conn} {op : IoOp} {ops rest : List IoOp} {r limit : Nat}
  {a : ConnAction}

-- == holders

/-- The bytes an operation of the IO thread has to release or to hand
on. -/
def IoOp.bytes : IoOp → Int
  | .receive (.respond _ (.enqueue response)) => response.length
  | .write (.writeLoop buffer) | .write (.write buffer)
  | .write (.writeResumed buffer _) | .write (.writeRelease buffer _)
  | .write (.writeExit buffer) => buffer.length
  | .close (.release bytes) => bytes
  | .close (.complete _ response _) => response.length
  | _ => 0

/-- The bytes of a completion in the mailbox. -/
def Command.bytes : Command → Int
  | .completeInbound _ response _ => response.length
  | .start | .close => 0

/-- The bytes a worker reserved. -/
def Payload.bytes (payload : Payload) : Int :=
  if payload.connection then payload.response.length else 0

/-- The bytes a worker has reserved and not posted. -/
def FinalizePc.bytes : FinalizePc → Int
  | .account payload | .accountMethod payload | .subMethodGauge payload
  | .storeFinalized payload | .post payload => payload.bytes
  | _ => 0

def Call.bytes (call : Call) : Int :=
  weigh FinalizePc.bytes call.finalizers

/-- The bytes reserved by workers, in the mailbox, in the queue and in a
suspended `WriteFrame`. -/
def Conn.held (c : Conn) : Int :=
  total Call.bytes c.requests c.calls + weigh Command.bytes c.mailbox
    + weigh (fun response => (response.length : Int)) c.outbound
    + (c.activeWrite.getD []).length

/-- What is reserved for the operations of the IO thread. -/
def Conn.unclaimed (c : Conn) : Int := c.reservedOutboundBytes - c.held

theorem IoOp.bytes_nonneg (op : IoOp) : 0 ≤ op.bytes := by
  unfold IoOp.bytes
  split <;> omega

theorem Command.bytes_nonneg (command : Command) : 0 ≤ command.bytes := by
  cases command <;> simp [Command.bytes]

theorem FinalizePc.bytes_nonneg (pc : FinalizePc) : 0 ≤ pc.bytes := by
  unfold FinalizePc.bytes Payload.bytes
  split <;> omega

theorem Call.bytes_nonneg (call : Call) : 0 ≤ call.bytes :=
  weigh_nonneg fun pc _ => pc.bytes_nonneg

-- == the bound

/-- A reservation under way fits the limit. -/
def ReservePc.Fits (limit bytes : Nat) : ReservePc → Prop
  | .checkRunning => True
  | .load | .cas _ => bytes ≤ limit

def IoOp.Fits (limit : Nat) : IoOp → Prop
  | .receive (.respond _ (.reserve response pc)) =>
      pc.Fits limit response.length
  | .write (.writeResumed buffer written) => written ≤ buffer.length
  | .write (.writeRelease buffer written) => written ≤ buffer.length
  | _ => True

def FinalizePc.Fits (limit : Nat) : FinalizePc → Prop
  | .reserve response pc => pc.Fits limit response.length
  | _ => True

/-- A step of `TryReserveOutboundBytes`: what it goes on with fits, and
what it reserves does. -/
theorem execReserve_fits {bytes : Nat} {spurious : Bool} {pc : ReservePc}
    (hpc : pc.Fits limit bytes) (hbound : c.reservedOutboundBytes ≤ limit) :
    (∀ pc', execReserve limit bytes spurious c pc = .goto pc' →
        pc'.Fits limit bytes)
      ∧ (execReserve limit bytes spurious c pc = .returned true →
        c.reservedOutboundBytes + bytes ≤ limit) := by
  cases pc with
  | checkRunning =>
      simp only [execReserve]
      split
      · refine ⟨nofun, fun hret => ?_⟩
        simp only [Reserve.returned.injEq, decide_eq_true_eq] at hret
        omega
      · split
        · exact ⟨nofun, nofun⟩
        · next hfits =>
          refine ⟨fun pc' hgo => ?_, nofun⟩
          cases hgo
          exact Nat.le_of_not_lt hfits
  | load =>
      refine ⟨fun pc' hgo => ?_, nofun⟩
      cases hgo
      exact hpc
  | cas current =>
      change bytes ≤ limit at hpc
      simp only [execReserve, tryCas]
      split
      · next hcas => exact ⟨nofun, nofun⟩
      · next hcas =>
        refine ⟨nofun, fun _ => ?_⟩
        split at hcas
        · cases hcas
        · next hfit =>
          split at hcas
          · next hwon =>
            simp only [Bool.not_eq_true', decide_eq_false_iff_not,
              not_not] at hfit hwon
            have := hwon.1
            omega
          · cases hcas
      · next hcas =>
        refine ⟨fun pc' hgo => ?_, nofun⟩
        cases hgo
        exact hpc

-- == operations

/-- What an operation does to the ledger. -/
structure Moves (limit : Nat) (c c' : Conn) (op : IoOp) (ops : List IoOp) :
    Prop where
  balance : c'.unclaimed - weigh IoOp.bytes ops = c.unclaimed - op.bytes
  bound : c'.reservedOutboundBytes ≤ limit
  fits : ∀ o ∈ ops, o.Fits limit
  tail : ∀ o ∈ ops.tail, o.bytes = 0 ∨ o.isWrite = true
  finalizers : ∀ r, (c'.calls r).finalizers = (c.calls r).finalizers
    ∨ (c'.calls r).finalizers = []

/-- Operations that hold no bytes and reserve none. -/
def IoOp.light : IoOp → Bool
  | .receive (.respond _ (.reserve _ _))
  | .receive (.respond _ (.enqueue _)) => false
  | .write .startNextWrite => true
  | .write _ | .close (.release _) | .close (.complete _ _ _) => false
  | _ => true

theorem IoOp.light_bytes (h : op.light = true) : op.bytes = 0 := by
  unfold IoOp.bytes
  split <;> first | rfl | cases h

theorem IoOp.light_fits (h : op.light = true) : op.Fits limit := by
  unfold IoOp.Fits
  split <;> trivial

theorem weigh_light (h : ops.all IoOp.light = true) :
    weigh IoOp.bytes ops = 0 :=
  weigh_eq_zero fun o ho => IoOp.light_bytes (List.all_eq_true.1 h o ho)

/-- An operation that leaves the ledger alone. -/
theorem Moves.plain (hbound : c.reservedOutboundBytes ≤ limit)
    (hop : op.bytes = 0) (hops : ops.all IoOp.light = true)
    (hsame : (c'.reservedOutboundBytes, c'.outbound, c'.activeWrite)
      = (c.reservedOutboundBytes, c.outbound, c.activeWrite))
    (hmail : weigh Command.bytes c'.mailbox = weigh Command.bytes c.mailbox)
    (hcalls : c'.requests = c.requests ∧ c'.calls = c.calls) :
    Moves limit c c' op ops := by
  simp only [Prod.mk.injEq] at hsame
  obtain ⟨hreserved, hout, hactive⟩ := hsame
  obtain ⟨hrequests, hcalls⟩ := hcalls
  refine ⟨?_, hreserved ▸ hbound, fun o ho => ?_, fun o ho => ?_,
    fun r => .inl (by rw [hcalls])⟩
  · rw [weigh_light hops, hop]
    simp only [Conn.unclaimed, Conn.held, hreserved, hout, hactive, hmail,
      hrequests, hcalls]
  · exact IoOp.light_fits (List.all_eq_true.1 hops o ho)
  · exact .inl (IoOp.light_bytes
      (List.all_eq_true.1 hops o (List.mem_of_mem_tail ho)))

/-- One that changes a call and none of its finalizations. -/
theorem Moves.setCall {call : Call}
    (hbound : c.reservedOutboundBytes ≤ limit) (hop : op.bytes = 0)
    (hops : ops.all IoOp.light = true)
    (hsame : (c'.reservedOutboundBytes, c'.outbound, c'.activeWrite,
        c'.mailbox, c'.requests)
      = (c.reservedOutboundBytes, c.outbound, c.activeWrite, c.mailbox,
        c.requests))
    (hcalls : c'.calls = Function.update c.calls r call)
    (hcall : call.finalizers = (c.calls r).finalizers) :
    Moves limit c c' op ops := by
  simp only [Prod.mk.injEq] at hsame
  obtain ⟨hreserved, hout, hactive, hmail, hrequests⟩ := hsame
  refine ⟨?_, hreserved ▸ hbound, fun o ho => ?_, fun o ho => ?_,
    fun r' => .inl ?_⟩
  · have htotal : total Call.bytes c.requests
        (Function.update c.calls r call)
        = total Call.bytes c.requests c.calls :=
      total_update_same (by unfold Call.bytes; rw [hcall])
    rw [weigh_light hops, hop]
    simp only [Conn.unclaimed, Conn.held, hreserved, hout, hactive, hmail,
      hrequests, hcalls, htotal]
  · exact IoOp.light_fits (List.all_eq_true.1 hops o ho)
  · exact .inl (IoOp.light_bytes
      (List.all_eq_true.1 hops o (List.mem_of_mem_tail ho)))
  · rw [hcalls, Function.update_apply]
    split
    · next heq => rw [hcall, heq]
    · rfl

/-- An operation that goes on with another one. -/
theorem Moves.goes {op' : IoOp} (hbound : c'.reservedOutboundBytes ≤ limit)
    (hbalance : c'.unclaimed - op'.bytes = c.unclaimed - op.bytes)
    (hfits : op'.Fits limit) (hcalls : c'.calls = c.calls) :
    Moves limit c c' op [op'] where
  balance := by simpa using hbalance
  bound := hbound
  fits := fun o ho => by
    rw [List.mem_singleton.1 ho]
    exact hfits
  tail := nofun
  finalizers := fun r => .inl (by rw [hcalls])

/-- Merging frames moves their bytes. -/
theorem mergeBatch_bytes (buffer : Bytes) (outbound : List Bytes) :
    ((mergeBatch buffer outbound).1.length : Int)
        + weigh (fun response => (response.length : Int))
          (mergeBatch buffer outbound).2
      = buffer.length
        + weigh (fun response => (response.length : Int)) outbound := by
  induction outbound generalizing buffer with
  | nil => rfl
  | cons next outbound ih =>
      unfold mergeBatch
      split
      · rw [ih, List.length_append, weigh_cons]
        omega
      · rfl

theorem execRequestClose_bytes {pc pc' : ClosePc}
    (he : execRequestClose rt c pc = some (rt', c', pc')) :
    weigh Command.bytes c'.mailbox = weigh Command.bytes c.mailbox := by
  rcases (execRequestClose_frame he).2.2 with hmail | hmail
  · rw [hmail]
  · rw [hmail]
    simp [Command.bytes]

theorem IoStep.moves (h : IoStep cfg c op c' ops)
    (hbound : c.reservedOutboundBytes ≤ cfg.maxOutboundBytesPerConnection)
    (hfits : op.Fits cfg.maxOutboundBytesPerConnection)
    (hflow : Flow c.flags c.running (op :: rest)) :
    Moves cfg.maxOutboundBytesPerConnection c c' op ops := by
  cases h with
  | postStart =>
      refine .plain hbound rfl rfl rfl ?_ ⟨rfl, rfl⟩
      simp [Command.bytes]
  | addCall | schedule | reject =>
      exact .setCall hbound rfl rfl rfl rfl rfl
  | giveUp hop =>
      next r op =>
      refine .plain hbound ?_ rfl rfl rfl ⟨rfl, rfl⟩
      cases op with
      | enqueue response => exact absurd rfl (hop response)
      | sendError _ | reserve _ _ => rfl
  | sendError _ => exact .goes hbound rfl trivial rfl
  | reserving hgo =>
      exact .goes hbound rfl ((execReserve_fits hfits hbound).1 _ hgo) rfl
  | reserve hret =>
      refine .goes ((execReserve_fits hfits hbound).2 hret) ?_ trivial rfl
      simp [Conn.unclaimed, Conn.held, Conn.reserve, IoOp.bytes]
      omega
  | enqueue _ | complete _ _ =>
      refine ⟨?_, hbound, ?_, ?_, fun r => .inl rfl⟩
      · simp [Conn.unclaimed, Conn.held, IoOp.bytes]
        omega
      · simp [IoOp.Fits]
      · simp [IoOp.bytes]
  | dropReply | completeClosing | completeNothing =>
      refine ⟨?_, hbound, ?_, ?_, fun r => .inl rfl⟩
      · simp [Conn.unclaimed, Conn.held, IoOp.bytes]
      · simp [IoOp.Fits]
      · simp [IoOp.bytes]
  | @frame f _ _ =>
      -- the new call has no finalization
      have htotal : total Call.bytes (c.requests + 1)
          (Function.update c.calls c.requests { frame := f })
          = total Call.bytes c.requests c.calls := by
        rw [total_extend]
        simp [Call.bytes]
      refine ⟨?_, hbound, ?_, nofun, fun r => ?_⟩
      · simp only [Conn.unclaimed, Conn.held, htotal]
        simp [IoOp.bytes]
      · simp [IoOp.Fits]
      · simp only [Function.update_apply]
        split
        · exact .inr rfl
        · exact .inl rfl
  | @startNextWrite front outbound _ _ hout =>
      refine .goes hbound ?_ trivial rfl
      have hmerge := mergeBatch_bytes front outbound
      simp only [Conn.unclaimed, Conn.held, hout, weigh_cons, IoOp.bytes]
      omega
  | writeLoop | leaveWrite => exact .goes hbound rfl trivial rfl
  | write hpossible => exact .goes hbound rfl hpossible rfl
  | suspendWrite =>
      have hidle : c.activeWrite = none :=
        Option.not_isSome_iff_eq_none.1
          (Bool.eq_false_iff.1 (hflow.of_write nofun).2.1)
      refine ⟨?_, hbound, nofun, nofun, fun r => .inl rfl⟩
      simp [Conn.unclaimed, Conn.held, Conn.logs, IoOp.bytes, hidle]
      omega
  | writeError =>
      refine ⟨?_, hbound, ?_, ?_, fun r => .inl rfl⟩
      · simp [IoOp.bytes]
      · simp [IoOp.Fits]
      · simp [IoOp.bytes, IoOp.isWrite]
  | writeResumed =>
      next buffer written =>
      change written ≤ buffer.length at hfits
      refine .goes hbound rfl ?_ rfl
      change written.toNat ≤ buffer.length
      omega
  | writeRelease =>
      next buffer written =>
      change written ≤ buffer.length at hfits
      refine .goes ?_ ?_ trivial rfl
      · show c.reservedOutboundBytes - (written : Int) ≤ _
        omega
      · simp [Conn.unclaimed, Conn.held, Conn.release, IoOp.bytes]
        omega
  | writeExit =>
      next buffer =>
      refine ⟨?_, ?_, ?_, ?_, fun r => .inl rfl⟩
      · simp [Conn.unclaimed, Conn.held, Conn.release, IoOp.bytes]
        omega
      · show c.reservedOutboundBytes - (buffer.length : Int) ≤ _
        omega
      · simp [IoOp.Fits]
      · simp [IoOp.bytes]
  | requestClose he =>
      have hframe := (execRequestClose_frame he).1
      refine .plain hbound rfl ?_ ?_ (execRequestClose_bytes he) ?_
      · split <;> rfl
      · rw [hframe]
      · rw [hframe]
        exact ⟨rfl, rfl⟩
  | release =>
      next bytes =>
      refine ⟨?_, ?_, nofun, nofun, fun r => .inl rfl⟩
      · simp [Conn.unclaimed, Conn.held, Conn.release, IoOp.bytes]
        omega
      · show c.reservedOutboundBytes - (bytes : Int) ≤ _
        omega
  | @discard front _ hout =>
      refine .goes ?_ ?_ trivial rfl
      · show c.reservedOutboundBytes - (front.length : Int) ≤ _
        omega
      · simp [Conn.unclaimed, Conn.held, Conn.release, IoOp.bytes, hout]
        omega
  | _ => exact .plain hbound rfl rfl rfl rfl ⟨rfl, rfl⟩

-- == runs

/-- The ledger of a connection. -/
structure Outbound (limit : Nat) (c : Conn) : Prop where
  balance : c.unclaimed = weigh IoOp.bytes c.io
  bound : c.reservedOutboundBytes ≤ limit
  fits : ∀ op ∈ c.io, op.Fits limit
  tail : ∀ op ∈ c.io.tail, op.bytes = 0 ∨ op.isWrite = true
  finalizers : ∀ r, ∀ pc ∈ (c.calls r).finalizers, pc.Fits limit

/-- An operation keeps the ledger. -/
theorem Outbound.io {c₁ : Conn} (h : Outbound limit c)
    (hio : c.io = op :: rest)
    (hmoves : Moves limit { c with io := rest } c₁ op ops) :
    Outbound limit { c₁ with io := ops ++ rest } := by
  have hbalance := h.balance
  have hmove := hmoves.balance
  rw [hio, weigh_cons] at hbalance
  refine ⟨?_, hmoves.bound, fun o ho => ?_, fun o ho => ?_, fun r pc hpc => ?_⟩
  · change c₁.unclaimed = weigh IoOp.bytes (ops ++ rest)
    change c₁.unclaimed - _ = c.unclaimed - _ at hmove
    rw [weigh_append]
    omega
  · rcases List.mem_append.1 ho with ho | ho
    · exact hmoves.fits o ho
    · exact h.fits o (by rw [hio]; exact List.mem_cons_of_mem _ ho)
  · have hrest : ∀ o ∈ rest, o.bytes = 0 ∨ o.isWrite = true := by
      have htail := h.tail
      rw [hio] at htail
      exact htail
    change o ∈ (ops ++ rest).tail at ho
    cases ops with
    | nil => exact hrest o (List.mem_of_mem_tail ho)
    | cons o₁ os =>
        rcases List.mem_append.1 ho with ho | ho
        · exact hmoves.tail o ho
        · exact hrest o ho
  · change pc ∈ (c₁.calls r).finalizers at hpc
    rcases hmoves.finalizers r with hsame | hnil
    · rw [hsame] at hpc
      exact h.finalizers r pc hpc
    · rw [hnil] at hpc
      cases hpc

/-- A call that at most begins a finalization holds what it held. -/
theorem Outbound.begins {call : Call} (h : Outbound limit c)
    (hbegins : Begins (c.calls r) call) : Outbound limit (c.setCall r call) := by
  have hbytes : call.bytes = (c.calls r).bytes := by
    unfold Call.bytes
    rcases hbegins.finalizers with hfin | ⟨pc, hfin, rfl | rfl⟩ <;> rw [hfin]
    · simp [FinalizePc.bytes]
    · simp [FinalizePc.bytes]
  have hheld : (c.setCall r call).unclaimed = c.unclaimed := by
    simp only [Conn.unclaimed, Conn.held, Conn.setCall,
      total_update_same hbytes]
  refine ⟨hheld.trans h.balance, h.bound, h.fits, h.tail, fun r' pc hpc => ?_⟩
  simp only [Conn.setCall, Function.update_apply] at hpc
  split at hpc
  · rcases hbegins.finalizers with hfin | ⟨pc', hfin, hpc'⟩
    · rw [hfin] at hpc
      exact h.finalizers r pc hpc
    · rw [hfin] at hpc
      rcases List.mem_append.1 hpc with hpc | hpc
      · exact h.finalizers r pc hpc
      · rw [List.mem_singleton.1 hpc]
        rcases hpc' with rfl | rfl <;> trivial
  · exact h.finalizers r' pc hpc

theorem execFinalize_bytes {outcome : ServiceOutcome} {alive : Bool}
    {call call' : Call} {pc pc' : FinalizePc}
    (hbound : c.reservedOutboundBytes ≤ cfg.maxOutboundBytesPerConnection)
    (hfits : pc.Fits cfg.maxOutboundBytesPerConnection)
    (he : execFinalize cfg ch outcome alive rt c r call pc
      = some (rt', c', call', pc')) :
    c'.reservedOutboundBytes - weigh Command.bytes c'.mailbox - pc'.bytes
        = c.reservedOutboundBytes - weigh Command.bytes c.mailbox - pc.bytes
      ∧ c'.reservedOutboundBytes ≤ cfg.maxOutboundBytesPerConnection
      ∧ pc'.Fits cfg.maxOutboundBytesPerConnection := by
  cases pc with
  | lock packed =>
      simp only [execFinalize] at he
      split at he
      · cases he
        exact ⟨rfl, hbound, trivial⟩
      · split at he <;> cases he <;> exact ⟨rfl, hbound, trivial⟩
  | loadRunning _ =>
      simp only [execFinalize] at he
      split at he <;> cases he <;> exact ⟨rfl, hbound, trivial⟩
  | reserve response pc =>
      change pc.Fits _ response.length at hfits
      simp only [execFinalize] at he
      split at he <;> cases he
      · next hgo =>
        exact ⟨rfl, hbound, (execReserve_fits hfits hbound).1 _ hgo⟩
      · next hret =>
        refine ⟨?_, (execReserve_fits hfits hbound).2 hret, trivial⟩
        simp [Conn.reserve, FinalizePc.bytes, Payload.bytes]
        omega
      · exact ⟨rfl, hbound, trivial⟩
  | account payload =>
      cases he
      split <;> exact ⟨rfl, hbound, trivial⟩
  | post payload =>
      simp only [execFinalize] at he
      split at he <;> cases he
      · next hconnection =>
        refine ⟨?_, hbound, trivial⟩
        simp [FinalizePc.bytes, Payload.bytes, Command.bytes, hconnection]
        omega
      · next hconnection =>
        refine ⟨?_, hbound, trivial⟩
        simp [FinalizePc.bytes, Payload.bytes, hconnection]
  | scheduling | queued | accountMethod _ | subMethodGauge _
  | storeFinalized _ | releaseInFlight | subInFlightGauge =>
      cases he
      exact ⟨rfl, hbound, trivial⟩
  | finished => cases he

theorem outbound_step
    (h : Outbound cfg.maxOutboundBytesPerConnection c)
    (hflow : Flow c.flags c.running c.io)
    (hs : ConnStep cfg n rt c a rt' c') :
    Outbound cfg.maxOutboundBytesPerConnection c' := by
  cases hs with
  | io hio he =>
      next op rest c₁ ops =>
      rw [hio] at hflow
      refine h.io hio ((execIo_step he).moves h.bound (h.fits op ?_) hflow)
      rw [hio]
      exact List.mem_cons_self
  | dispatch hio hmail =>
      next command mailbox =>
      have hbalance := h.balance
      rw [hio] at hbalance
      refine ⟨?_, h.bound, fun o ho => ?_, nofun, h.finalizers⟩
      · have hbytes : (dispatchCommand command).bytes = command.bytes := by
          cases command <;> rfl
        simp only [Conn.unclaimed, Conn.held, hmail, weigh_cons, weigh_nil,
          hbytes] at hbalance ⊢
        omega
      · rw [List.mem_singleton.1 ho]
        cases command <;> trivial
  | readDone hio _ _ =>
      have hbalance := h.balance
      rw [hio] at hbalance
      refine ⟨hbalance, h.bound, fun o ho => ?_, nofun, h.finalizers⟩
      rw [List.mem_singleton.1 ho]
      trivial
  | writeDone hio hactive hpossible =>
      have hbalance := h.balance
      rw [hio] at hbalance
      refine ⟨?_, h.bound, fun o ho => ?_, nofun, h.finalizers⟩
      · simp [Conn.unclaimed, Conn.held, hactive, IoOp.bytes]
          at hbalance ⊢
        omega
      · rw [List.mem_singleton.1 ho]
        exact hpossible
  | task _ _ he => exact h.begins (execDispatch_begins he).2
  | run _ _ => exact h.begins (run_begins _)
  | finalize hr hj he =>
      next r j _ _ _ pc c₁ call pc' =>
      have hmem := List.mem_of_getElem? hj
      obtain ⟨hbytes, hbound, hfits⟩ :=
        execFinalize_bytes h.bound (h.finalizers r pc hmem) he
      have hframe := (execFinalize_frame he).1
      have hfin : call.finalizers = (c.calls r).finalizers := by
        rw [(execFinalize_call he).frame]
      refine ⟨?_, hbound, ?_, ?_, fun r' pc₁ hpc₁ => ?_⟩
      · have hbalance := h.balance
        have hset : weigh FinalizePc.bytes
            ((c.calls r).finalizers.set j pc')
            = (c.calls r).bytes - pc.bytes + pc'.bytes := weigh_set hj
        rw [hframe] at hbytes ⊢
        simp only [Conn.unclaimed, Conn.held, Conn.setCall,
          total_update hr, Call.bytes, hfin, hset] at hbalance hbytes ⊢
        omega
      · rw [hframe]
        exact h.fits
      · rw [hframe]
        exact h.tail
      · rw [hframe] at hpc₁
        simp only [Conn.setCall, Function.update_apply, hfin] at hpc₁
        split at hpc₁
        · rcases List.mem_or_eq_of_mem_set hpc₁ with hold | rfl
          · exact h.finalizers r pc₁ hold
          · exact hfits
        · exact h.finalizers r' pc₁ hpc₁
  | requestClose _ => exact ⟨h.balance, h.bound, h.fits, h.tail, h.finalizers⟩
  | closer hk he =>
      have hmail := execRequestClose_bytes he
      rw [(execRequestClose_frame he).1] at hmail ⊢
      refine ⟨?_, h.bound, h.fits, h.tail, h.finalizers⟩
      have hbalance := h.balance
      simp only [Conn.unclaimed, Conn.held] at hbalance hmail ⊢
      rw [hmail]
      exact hbalance

theorem reach_outbound (h : (connMachine cfg n).Reachable c) :
    Outbound cfg.maxOutboundBytesPerConnection c := by
  refine reach_invariant ?_ (fun _ _ _ _ _ hr h _ hs =>
    outbound_step h (reach_flow hr) hs) h
  refine ⟨rfl, Int.natCast_nonneg _, fun o ho => ?_, nofun, nofun⟩
  rw [List.mem_singleton.1 ho]
  trivial

-- == release

/-- A released connection has nothing queued and nothing in hand. -/
def Settled (c : Conn) : Prop :=
  c.released = true → c.outbound = [] ∧ weigh IoOp.bytes c.io = 0

/-- Without a queue, only coroutines and completions do anything that has
bytes. -/
theorem IoStep.settled (h : IoStep cfg c op c' ops)
    (hreceive : op.isReceive = false) (hwrite : op.isWrite = false)
    (htoken : op.tokenless = true) (hout : c.outbound = []) :
    c'.outbound = [] ∧ ops.all IoOp.light = true := by
  cases h with
  | startNextWrite _ _ hfront | discard hfront =>
      rw [hout] at hfront
      cases hfront
  | requestClose he =>
      refine ⟨by rw [(execRequestClose_frame he).1]; exact hout, ?_⟩
      split <;> rfl
  | writeLoop | leaveWrite | write _ | suspendWrite | writeError
  | writeResumed | writeRelease | writeExit => cases hwrite
  | completeClosing | complete _ _ | completeNothing => cases htoken
  | _ => first | exact ⟨hout, rfl⟩ | cases hreceive

/-- Without a call there is no completion under way. -/
theorem Requests.nothing_owed {b : Book} {io : List IoOp}
    (h : Requests cfg b io) (hnil : b.inbound = []) (r : Nat) :
    (b.calls r).owed = 0 ∧ tally (IoOp.completes r) io = 0
      ∧ tally (Command.completes r) b.completions = 0 := by
  have hin := h.inbound r
  have h1 := Call.owed_nonneg (h.calls r)
  have h2 := tally_nonneg (IoOp.completes r) io
  have h3 := tally_nonneg (Command.completes r) b.completions
  rw [hnil, tally_nil, Book.owed] at hin
  omega

/-- The operations of a connection without calls are not completions. -/
theorem Requests.tokenless_close {b : Book} {op : CloseOp}
    (h : Requests cfg b (.close op :: rest)) (hnil : b.inbound = []) :
    (IoOp.close op).tokenless = true := by
  cases op with
  | complete r response closeAfter =>
      have hnone := (h.nothing_owed hnil r).2.1
      have hrest := tally_nonneg (IoOp.completes r) rest
      rw [tally_cons] at hnone
      simp [IoOp.completes] at hnone
      omega
  | _ => rfl

theorem settled_step (h : Settled c)
    (hledger : Outbound cfg.maxOutboundBytesPerConnection c)
    (hrequests : Requests cfg c.book c.io) (hemptied : Emptied c)
    (hflow : Flow c.flags c.running c.io)
    (hs : ConnStep cfg n rt c a rt' c') : Settled c' := by
  cases hs with
  | io hio he =>
      next op rest c₁ ops =>
      intro hreleased
      change c₁.released = true at hreleased
      rw [hio] at hrequests hflow
      show c₁.outbound = [] ∧ weigh IoOp.bytes (ops ++ rest) = 0
      have hnone : Quiet c.flags c.running →
          op.isReceive = false ∧ op.isWrite = false
            ∧ ∀ o ∈ rest, o.isWrite = false := by
        intro hq
        obtain ⟨hr, -, hw, -⟩ := hflow.none_at_work hq
        have hr' := tally_eq_zero.1 hr
        have hw' := tally_eq_zero.1 hw
        rw [List.any_cons, Bool.or_eq_false_iff] at hr' hw'
        exact ⟨hr'.1, hw'.1, fun o ho =>
          Bool.eq_false_iff.2 (List.any_eq_false.1 hw'.2 o ho)⟩
      by_cases hold : c.released = true
      · -- nothing with bytes is left, and nothing new comes
        obtain ⟨hnil, hq⟩ := hemptied hold
        obtain ⟨hout, hbytes⟩ := h hold
        obtain ⟨hreceive, hwrite, -⟩ := hnone hq
        have htoken : op.tokenless = true := by
          cases op with
          | receive _ => cases hreceive
          | accept _ | write _ => rfl
          | close op => exact hrequests.tokenless_close hnil
        obtain ⟨hout', hlight⟩ :=
          (execIo_step he).settled hreceive hwrite htoken hout
        refine ⟨hout', ?_⟩
        rw [hio, weigh_cons] at hbytes
        have h1 := op.bytes_nonneg
        have h2 : 0 ≤ weigh IoOp.bytes rest :=
          weigh_nonneg fun o _ => o.bytes_nonneg
        rw [weigh_append, weigh_light hlight]
        omega
      · rcases (execIo_step he).releases with hsame | ⟨rfl, hinbound, hnil⟩
        · exact absurd (hsame ▸ hreleased) hold
        · have hq := hflow.quiet rfl
          have hout : c.outbound = [] :=
            hflow.queue_empty (by rintro ⟨⟩) hq.exited
          obtain ⟨hout', hlight⟩ :=
            (execIo_step he).settled rfl rfl rfl hout
          refine ⟨hout', ?_⟩
          rw [weigh_append, weigh_light hlight, weigh_eq_zero]
          · rfl
          · intro o ho
            have htail := hledger.tail o (by rw [hio]; exact ho)
            exact htail.resolve_right
              (by rw [(hnone hq).2.2 o ho]; decide)
  | dispatch hio hmail =>
      next command mailbox =>
      intro hreleased
      refine ⟨(h hreleased).1, ?_⟩
      have hnil := (hemptied hreleased).1
      cases command with
      | start | close => rfl
      | completeInbound r response closeAfter =>
          have hnone := (hrequests.nothing_owed hnil r).2.2
          have hrest := tally_nonneg (Command.completes r)
            (mailbox.filter Command.isComplete)
          simp [Conn.book, hmail, List.filter_cons, Command.isComplete,
            Command.completes] at hnone
          omega
  | readDone hio hactive _ =>
      intro hreleased
      have hq := (hemptied hreleased).2
      have hread := (hflow.none_at_work hq).2.1
      cases hread.symm.trans hactive
  | writeDone hio hactive _ =>
      intro hreleased
      have hq := (hemptied hreleased).2
      have hsuspended : c.activeWrite.isSome = false :=
        (hflow.none_at_work hq).2.2.2
      rw [hactive] at hsuspended
      cases hsuspended
  | task _ _ _ | run _ _ | requestClose _ => exact h
  | finalize _ _ he =>
      rw [(execFinalize_frame he).1]
      exact h
  | closer _ he =>
      rw [(execRequestClose_frame he).1]
      exact h

theorem reach_settled (h : (connMachine cfg n).Reachable c) : Settled c :=
  reach_invariant nofun
    (fun _ _ _ _ _ hr h _ hs => settled_step h (reach_outbound hr)
      (reach_requests hr) (reach_emptied hr) (reach_flow hr) hs) h

/-- A call that owes nothing has reserved nothing. -/
theorem Call.bytes_of_owed {call : Call} (h : CallOk cfg call)
    (howed : call.owed = 0) : call.bytes = 0 := by
  unfold Call.bytes
  have hone := h.one
  match hf : call.finalizers with
  | [] => rfl
  | [pc] =>
      have hadmitted : call.admission = .admitted := by
        by_contra hne
        have hreturned := h.returned (by rw [hf]; nofun)
        rw [h.idle hne] at hreturned
        cases hreturned
      have hposted : pc.posted = true := by
        cases hp : pc.posted with
        | true => rfl
        | false => simp [Call.owed, hadmitted, hf, hp] at howed
      cases pc with
      | releaseInFlight | subInFlightGauge | finished => rfl
      | _ => cases hposted
  | _ :: _ :: _ =>
      rw [hf, List.length_cons, List.length_cons] at hone
      omega

/-- A released connection has nothing reserved. -/
theorem released_settled (h : (connMachine cfg n).Reachable c)
    (hreleased : c.released = true) : c.reservedOutboundBytes = 0 := by
  have hrequests := reach_requests h
  obtain ⟨hnil, hq⟩ := reach_emptied h hreleased
  obtain ⟨hout, hbytes⟩ := reach_settled h hreleased
  have hledger := (reach_outbound h).balance
  have hactive : c.activeWrite = none := by
    have hsuspended : c.activeWrite.isSome = false :=
      ((reach_flow h).none_at_work hq).2.2.2
    exact Option.not_isSome_iff_eq_none.1 (Bool.eq_false_iff.1 hsuspended)
  have hcalls : total Call.bytes c.requests c.calls = 0 := by
    refine Finset.sum_eq_zero fun r _ => ?_
    exact Call.bytes_of_owed (hrequests.calls r)
      (hrequests.nothing_owed hnil r).1
  have hmail : weigh Command.bytes c.mailbox = 0 := by
    refine weigh_eq_zero fun command hcommand => ?_
    cases command with
    | start | close => rfl
    | completeInbound r response closeAfter =>
        have hnone := tally_eq_zero.1 (hrequests.nothing_owed hnil r).2.2
        have hmem : Command.completeInbound r response closeAfter
            ∈ c.mailbox.filter Command.isComplete :=
          List.mem_filter.2 ⟨hcommand, rfl⟩
        have := List.any_eq_false.1 hnone _ hmem
        simp [Command.completes] at this
  rw [hbytes, Conn.unclaimed, Conn.held, hcalls, hmail, hout, hactive]
    at hledger
  simpa using hledger

/-- **Reserved bytes are held.** The counter is what workers reserved and
did not post, what is in completions in the mailbox, in the queue and in
the active `WriteFrame`, suspended or among the operations the IO thread
is at; between two steps of the IO thread it has nothing in hand. The
counter is within the limit, not negative, and zero once the connection
is released. -/
theorem reserved_eq_held (h : (connMachine cfg n).Reachable c) :
    c.reservedOutboundBytes = c.held + weigh IoOp.bytes c.io
      ∧ (c.io = [] → c.reservedOutboundBytes = c.held)
      ∧ c.reservedOutboundBytes ≤ cfg.maxOutboundBytesPerConnection
      ∧ 0 ≤ c.reservedOutboundBytes
      ∧ (c.released = true → c.reservedOutboundBytes = 0) := by
  have hledger := reach_outbound h
  have hbalance : c.reservedOutboundBytes
      = c.held + weigh IoOp.bytes c.io := by
    have := hledger.balance
    unfold Conn.unclaimed at this
    omega
  refine ⟨hbalance, fun hio => ?_, hledger.bound, ?_, released_settled h⟩
  · rw [hbalance, hio, weigh_nil, Int.add_zero]
  · have h1 : 0 ≤ weigh IoOp.bytes c.io :=
      weigh_nonneg fun o _ => o.bytes_nonneg
    have h2 : 0 ≤ total Call.bytes c.requests c.calls :=
      total_nonneg fun r _ => Call.bytes_nonneg _
    have h3 : 0 ≤ weigh Command.bytes c.mailbox :=
      weigh_nonneg fun o _ => o.bytes_nonneg
    have h4 : 0 ≤ weigh (fun response : Bytes => (response.length : Int))
        c.outbound := weigh_nonneg fun o _ => Int.natCast_nonneg _
    rw [hbalance, Conn.held]
    omega

theorem echoConn_reserved :
    echoConn.reservedOutboundBytes = 18
      ∧ echoConn.reservedOutboundBytes
        = echoConn.held + weigh IoOp.bytes echoConn.io
      ∧ (echoConn.io = [] → echoConn.reservedOutboundBytes = echoConn.held)
      ∧ echoConn.reservedOutboundBytes
        ≤ echoServer.maxOutboundBytesPerConnection
      ∧ 0 ≤ echoConn.reservedOutboundBytes
      ∧ (echoConn.released = true → echoConn.reservedOutboundBytes = 0) :=
  ⟨by decide +kernel, reserved_eq_held echoConn_reachable⟩

end AntRpc.Server
