/-
What a connection admits after `running_` was cleared
(rpc/server/server_connection.hpp).

`ReceiveLoop` tests `running_` between reads only: its inner loop parses
every complete frame of the buffer and hands each one to `HandleRequest`,
which does not test it either. So a connection that is stopped in the
middle of a batch, by the overload reply of an earlier request, by a
failed inline write or by a `RequestClose` of another thread, goes on to
admit the rest of the batch (`stoppedServer_admits`).

# When nothing is admitted

If `running_` is only ever cleared when the batch is over, then nothing
is admitted afterwards. The batch being over (`BatchOver`) is kept by
every step of a stopped connection: the loop leaves for good once it
comes back to its test, and a read that was under way puts bytes into a
buffer nobody parses.

# The server

A connection of the server machine runs like a connection over an
arbitrary runtime (`reach_conns`), which carries the invariants of
connections over to the server.
-/
import AntRpc.Server.Proofs.Answers

namespace AntRpc.Server

open Protocol Lib

variable {cfg : ServerConfig} {n : Nat} {ch : Choice} {rt rt' : Runtime}
  {c c' c'' : Conn} {ops rest : List IoOp} {a : ConnAction}

-- == the batch

/-- `HandleRequest` may still admit the request. -/
def HandlePc.admitting : HandlePc → Bool
  | .releaseTask | .subTaskGauge | .releaseInFlight _ | .subInFlightGauge _
  | .reject _ => false
  | _ => true

def IoOp.admitting : IoOp → Bool
  | .receive (.handle _ pc) => pc.admitting
  | _ => false

/-- The inner loop parses the buffer, now or after the reply to a request
it does not admit. -/
def IoOp.parsing : IoOp → Bool
  | .receive .parse | .receive (.respond _ _) => true
  | .receive (.handle _ pc) => !pc.admitting
  | _ => false

/-- The buffer starts with a complete request. -/
def frameReady (cfg : ServerConfig) (buffer : Bytes) : Bool :=
  match parseOnce cfg.codec cfg.maxFrameBytes .request buffer with
  | .frame _ _ => true
  | _ => false

/-- The batch is over: no request is about to be admitted, and if the
inner loop goes on it finds no request. -/
structure BatchOver (cfg : ServerConfig) (buffer : Bytes) (io : List IoOp) :
    Prop where
  admitting : io.any IoOp.admitting = false
  parsing : io.any IoOp.parsing = true → frameReady cfg buffer = false

instance (buffer : Bytes) (io : List IoOp) :
    Decidable (BatchOver cfg buffer io) :=
  decidable_of_iff (io.any IoOp.admitting = false
      ∧ (io.any IoOp.parsing = true → frameReady cfg buffer = false))
    ⟨fun h => ⟨h.1, h.2⟩, fun h => ⟨h.1, h.2⟩⟩

/-- From `c` to `c'` nothing was admitted and no execution scheduled, and
the connection is stopped. -/
structure AdmitsNone (c c' : Conn) : Prop where
  running : c'.running = false
  inbound : ∀ r ∈ c'.inboundCalls, r ∈ c.inboundCalls
  admitted : ∀ r, (c'.calls r).admission = .admitted →
    (c.calls r).admission = .admitted
  scheduled : ∀ r, (c.calls r).dispatch = .unscheduled →
    (c'.calls r).dispatch = .unscheduled

theorem AdmitsNone.refl (h : c.running = false) : AdmitsNone c c :=
  ⟨h, fun _ h => h, fun _ h => h, fun _ h => h⟩

theorem AdmitsNone.trans (h : AdmitsNone c c') (h' : AdmitsNone c' c'') :
    AdmitsNone c c'' where
  running := h'.running
  inbound r hr := h.inbound r (h'.inbound r hr)
  admitted r hr := h.admitted r (h'.admitted r hr)
  scheduled r hr := h'.scheduled r (h.scheduled r hr)

/-- The calls are the same, and none came in. -/
theorem AdmitsNone.same_calls (hrun : c'.running = false)
    (hin : ∀ r ∈ c'.inboundCalls, r ∈ c.inboundCalls)
    (hcalls : c'.calls = c.calls) : AdmitsNone c c' :=
  ⟨hrun, hin, fun _ h => hcalls ▸ h, fun _ h => hcalls.symm ▸ h⟩

/-- One call changes, and is neither admitted nor scheduled by it. -/
theorem AdmitsNone.setCall {r : Nat} {call : Call} (hrun : c.running = false)
    (hlets : call.admission = .admitted →
      (c.calls r).admission = .admitted)
    (hsched : (c.calls r).dispatch = .unscheduled →
      call.dispatch = .unscheduled) :
    AdmitsNone c (c.setCall r call) := by
  refine ⟨hrun, fun _ h => h, fun q hq => ?_, fun q hq => ?_⟩
  · by_cases hqr : q = r
    · subst hqr
      exact hlets (by simpa [Conn.setCall] using hq)
    · simpa [Conn.setCall, Function.update_of_ne hqr] using hq
  · by_cases hqr : q = r
    · subst hqr
      simpa [Conn.setCall] using hsched hq
    · simpa [Conn.setCall, Function.update_of_ne hqr] using hq

-- == operations off the receiver

/-- An operation that has nothing to do with the batch. -/
structure Apart (c c' : Conn) (ops : List IoOp) : Prop where
  admitting : ops.any IoOp.admitting = false
  parsing : ops.any IoOp.parsing = false
  buffer : c'.recvBuffer = c.recvBuffer
  calls : c'.calls = c.calls
  inbound : ∀ r ∈ c'.inboundCalls, r ∈ c.inboundCalls

/-- Every operation but `ReceiveLoop`'s. -/
theorem IoStep.apart {op : IoOp} (h : IoStep cfg c op c' ops)
    (hop : op.isReceive = false) : Apart c c' ops := by
  cases h with
  | requestClose he =>
      rw [(execRequestClose_frame he).1]
      split <;> exact ⟨rfl, rfl, rfl, rfl, fun _ h => h⟩
  | completeClosing | complete _ _ | completeNothing =>
      exact ⟨rfl, rfl, rfl, rfl, fun _ h => List.mem_of_mem_filter h⟩
  | _ => first | exact ⟨rfl, rfl, rfl, rfl, fun _ h => h⟩ | cases hop

-- == the receiver

/-- What an operation of `ReceiveLoop` does in a batch that is over: it
stays over while the connection is stopped, and nothing is admitted. -/
structure Ends (cfg : ServerConfig) (c c' : Conn) (ops : List IoOp) :
    Prop where
  batch : c'.running = false → BatchOver cfg c'.recvBuffer ops
  admits : c.running = false → AdmitsNone c c'

/-- The connection is as it was, and the loop does not go on. -/
theorem Ends.leave (hlets : ops.any IoOp.admitting = false)
    (hparse : ops.any IoOp.parsing = false) (hrun : c'.running = c.running)
    (hin : c'.inboundCalls = c.inboundCalls) (hcalls : c'.calls = c.calls) :
    Ends cfg c c' ops where
  batch _ := ⟨hlets, fun h => by rw [hparse] at h; cases h⟩
  admits h := .same_calls (hrun.trans h) (fun _ h => hin ▸ h) hcalls

/-- The loop goes on with a buffer that has no request. -/
theorem Ends.goOn (hlets : ops.any IoOp.admitting = false)
    (hready : frameReady cfg c.recvBuffer = false)
    (hbuffer : c'.recvBuffer = c.recvBuffer)
    (hrun : c'.running = c.running)
    (hin : c'.inboundCalls = c.inboundCalls) (hcalls : c'.calls = c.calls) :
    Ends cfg c c' ops where
  batch _ := ⟨hlets, fun _ => hbuffer ▸ hready⟩
  admits h := .same_calls (hrun.trans h) (fun _ h => hin ▸ h) hcalls

/-- `HandleRequest` of a request it does not admit. -/
theorem execHandle_ends {r : Nat} {pc : HandlePc}
    (hpc : pc.admitting = false)
    (hready : frameReady cfg c.recvBuffer = false)
    (he : execHandle cfg ch rt c r pc = (rt', c', ops)) :
    Ends cfg c c' ops := by
  cases pc with
  | releaseTask | subTaskGauge | releaseInFlight _ =>
      cases he
      exact .goOn rfl hready rfl rfl rfl rfl
  | subInFlightGauge next =>
      cases next <;> cases he <;> exact .goOn rfl hready rfl rfl rfl rfl
  | reject text =>
      cases he
      exact ⟨fun _ => ⟨rfl, fun _ => hready⟩,
        fun hrun => .setCall hrun nofun id⟩
  | received | checkAccepting | checkConnection | loadInFlight
  | casInFlight _ | addInFlightGauge | loadTasks | casTasks _
  | addTaskGauge | checkExecutor | addCall | schedule => cases hpc

theorem IoStep.ends {op : ReceiveOp}
    (hs : IoStep cfg c (.receive op) c' ops)
    (hop : ∀ r pc, op ≠ .handle r pc)
    (h : BatchOver cfg c.recvBuffer [.receive op]) :
    Ends cfg c c' ops := by
  cases hs with
  | handling _ _ | addCall | schedule | closeHandled | reject =>
      exact absurd rfl (hop _ _)
  | receiveLoop hrun =>
      -- the loop goes on, but only on a connection that runs
      exact ⟨fun hstop => (by rw [hrun] at hstop; cases hstop),
        fun hstop => (by rw [hrun] at hstop; cases hstop)⟩
  | frame hparse =>
      have hready := h.parsing rfl
      unfold frameReady at hready
      rw [hparse] at hready
      cases hready
  | giveUp _ | sendNothing | sendError _ | reserving _ | reserve _
  | enqueue _ | dropReply =>
      exact .goOn rfl (h.parsing rfl) rfl rfl rfl rfl
  | receiveExit =>
      exact ⟨fun _ => ⟨rfl, nofun⟩, fun _ => .same_calls rfl (fun _ h => h) rfl⟩
  | _ => exact .leave rfl rfl rfl rfl rfl

theorem execReceive_ends {op : ReceiveOp}
    (h : BatchOver cfg c.recvBuffer [.receive op])
    (he : execReceive cfg ch rt c op = some (rt', c', ops)) :
    Ends cfg c c' ops := by
  by_cases hop : ∃ r pc, op = .handle r pc
  · obtain ⟨r, pc, rfl⟩ := hop
    have hpc : pc.admitting = false := by
      have := h.admitting
      rwa [List.any_cons, List.any_nil, Bool.or_false] at this
    refine execHandle_ends hpc (h.parsing ?_) (Option.some.inj he)
    rw [List.any_cons, IoOp.parsing, hpc]
    rfl
  · exact (execReceive_step he).ends (fun r pc heq => hop ⟨r, pc, heq⟩) h

-- == steps

/-- Where `ReceiveLoop` is not at work, the batch is over. -/
theorem batchOver_of_none {buffer : Bytes}
    (h : tally IoOp.isReceive rest = 0) : BatchOver cfg buffer rest := by
  have hnone := List.any_eq_false.1 (tally_eq_zero.1 h)
  have hover : rest.any IoOp.admitting = false
      ∧ rest.any IoOp.parsing = false := by
    constructor <;> refine List.any_eq_false.2 fun op hop hyes => ?_
    · cases op with
      | receive op => exact hnone _ hop rfl
      | accept _ | write _ | close _ => cases hyes
    · cases op with
      | receive op => exact hnone _ hop rfl
      | accept _ | write _ | close _ => cases hyes
  exact ⟨hover.1, fun h => by rw [hover.2] at h; cases h⟩

theorem BatchOver.append {buffer : Bytes} (h : BatchOver cfg buffer ops)
    (h' : BatchOver cfg buffer rest) : BatchOver cfg buffer (ops ++ rest) := by
  refine ⟨?_, fun hparse => ?_⟩
  · rw [List.any_append, h.admitting, h'.admitting]
    rfl
  · rw [List.any_append, Bool.or_eq_true] at hparse
    exact hparse.elim h.parsing h'.parsing

theorem BatchOver.split {buffer : Bytes} {op : IoOp}
    (h : BatchOver cfg buffer (op :: rest)) :
    BatchOver cfg buffer [op] ∧ BatchOver cfg buffer rest := by
  have hlets := h.admitting
  rw [List.any_cons, Bool.or_eq_false_iff] at hlets
  refine ⟨⟨?_, fun hp => h.parsing ?_⟩, ⟨hlets.2, fun hp => h.parsing ?_⟩⟩
  · rw [List.any_cons, hlets.1]
    rfl
  · rw [List.any_cons, List.any_nil, Bool.or_false] at hp
    rw [List.any_cons, hp]
    rfl
  · rw [List.any_cons, hp, Bool.or_true]

/-- An operation of the IO thread in a batch that is over. -/
theorem execIo_ends {op : IoOp} (hflow : Flow c.flags c.running (op :: rest))
    (h : BatchOver cfg c.recvBuffer (op :: rest))
    (hstop : c'.running = true → c.running = true)
    (he : execIo cfg n ch rt c op = some (rt', c', ops)) :
    Ends cfg c c' (ops ++ rest) := by
  obtain ⟨hop, hrest⟩ := h.split
  by_cases hreceive : op.isReceive = true
  · cases op with
    | accept _ | write _ | close _ => cases hreceive
    | receive op =>
        have hnone : BatchOver cfg c'.recvBuffer rest :=
          batchOver_of_none hflow.of_receive.2.2.2
        have hends := execReceive_ends hop he
        exact ⟨fun hrun => (hends.batch hrun).append hnone, hends.admits⟩
  · have hapart :=
      (execIo_step he).apart (Bool.eq_false_of_not_eq_true hreceive)
    refine ⟨fun _ => .append ?_ (hapart.buffer ▸ hrest), fun hrun => ?_⟩
    · exact ⟨hapart.admitting, fun hp => by
        rw [hapart.parsing] at hp
        cases hp⟩
    · refine .same_calls ?_ hapart.inbound hapart.calls
      exact Bool.eq_false_of_not_eq_true fun hrun' => by
        rw [hstop hrun'] at hrun
        cases hrun

/-- A step of a stopped connection whose batch is over admits nothing,
and the batch stays over. -/
theorem ends_step (hflow : Flow c.flags c.running c.io)
    (hstopped : Stopped c) (h : BatchOver cfg c.recvBuffer c.io)
    (hs : ConnStep cfg n rt c a rt' c') :
    Ends cfg c c' c'.io := by
  cases hs with
  | io hio he =>
      next op rest c₁ ops =>
      rw [hio] at hflow h
      have hstop := (execIo_step he).stop (hstopped.head hio)
      have hends :=
        execIo_ends (c := { c with io := rest }) hflow h hstop.running he
      refine ⟨hends.batch, fun hrun => ?_⟩
      obtain ⟨hrun', hin, hadmitted, hscheduled⟩ := hends.admits hrun
      exact ⟨hrun', hin, hadmitted, hscheduled⟩
  | dispatch hio hmail =>
      next command rest =>
      refine ⟨fun _ => batchOver_of_none ?_,
        fun hrun => .same_calls hrun (fun _ h => h) rfl⟩
      cases command <;> rfl
  | readDone hio hactive hpossible | writeDone hio hactive hpossible =>
      exact ⟨fun _ => ⟨rfl, nofun⟩,
        fun hrun => .same_calls hrun (fun _ h => h) rfl⟩
  | task hr hadmitted he =>
      next r call =>
      refine ⟨fun _ => h, fun hrun => .setCall hrun (fun _ => hadmitted)
        fun hpc => ?_⟩
      rw [hpc] at he
      cases he
  | run hr hdone =>
      next r =>
      refine ⟨fun _ => h, fun hrun => .setCall hrun ?_ ?_⟩
      · unfold Call.run
        split <;> exact id
      · unfold Call.run
        split <;> exact id
  | finalize hr hj he =>
      next r j _ _ _ pc c₁ call pc' =>
      have hcall := (execFinalize_call he).frame
      rw [(execFinalize_frame he).1]
      refine ⟨fun _ => h, fun hrun => ?_⟩
      have hset : AdmitsNone c (c.setCall r
          { call with finalizers := call.finalizers.set j pc' }) := by
        rw [hcall]
        exact .setCall hrun id id
      exact ⟨hrun, hset.inbound, hset.admitted, hset.scheduled⟩
  | requestClose hacquired =>
      exact ⟨fun _ => h, fun hrun => .same_calls hrun (fun _ h => h) rfl⟩
  | closer hk he =>
      next k pc c₁ pc' =>
      obtain ⟨hframe, hstop, -⟩ := execRequestClose_frame he
      rw [hframe]
      refine ⟨fun _ => h, fun hrun => .same_calls ?_ (fun _ h => h) rfl⟩
      exact Bool.eq_false_of_not_eq_true fun hrun' => by
        rw [hstop hrun'] at hrun
        cases hrun

-- == runs

/-- The step clears `running_`. -/
def clearsRunning (cfg : ServerConfig) (n : Nat) (c : Conn)
    (a : Runtime × ConnAction) : Bool :=
  c.running && (connStep cfg n a.1 c a.2).any fun out => !out.2.running

/-- The condition on a step: `running_` is cleared only when the batch is
over. -/
def stopsBetween (cfg : ServerConfig) (n : Nat) (c : Conn)
    (a : Runtime × ConnAction) : Bool :=
  !clearsRunning cfg n c a || decide (BatchOver cfg c.recvBuffer c.io)

/-- In runs that keep the condition, the batch of a stopped connection is
over. -/
theorem reach_batchOver
    (h : (connMachine cfg n).Reach
      (fun c a => stopsBetween cfg n c a = true) c) :
    c.running = false → BatchOver cfg c.recvBuffer c.io := by
  refine Machine.Reach.invariant
    (I := fun c => c.running = false → BatchOver cfg c.recvBuffer c.io)
    (fun c hc hrun => ?_) (fun c c' a hr hi hok hs hrun => ?_) h
  · rw [show c = _ from hc] at hrun
    cases hrun
  · have hreach : (connMachine cfg n).Reachable c :=
      hr.weaken fun _ _ _ => trivial
    simp only [connMachine, Option.map_eq_some_iff] at hs
    obtain ⟨⟨rt', c₁⟩, hs, rfl⟩ := hs
    have hover : BatchOver cfg c.recvBuffer c.io := by
      cases hbefore : c.running with
      | false => exact hi hbefore
      | true =>
          -- this step cleared it
          have hclears : clearsRunning cfg n c a = true := by
            unfold clearsRunning
            rw [hbefore, hs, Option.any_some, hrun]
            rfl
          rw [stopsBetween, hclears] at hok
          exact of_decide_eq_true hok
    exact (ends_step (reach_flow hreach) (reach_stopped hreach) hover
      (connStep_cases hs)).batch hrun

-- == the server

variable {s s' : State} {b : Action}

/-- What a step of the server does to connection `n`: nothing, a step of
its own, the `RequestClose` of a forced close, or its creation. -/
inductive Touches (cfg : ServerConfig) (s : State) (b : Action) (n : Nat) :
    Conn → Prop
  | none (hn : b = .accept → n ≠ s.accepted) :
      Touches cfg s b n (s.conns n)
  | step {a : ConnAction} {rt' : Runtime} {c' : Conn} (hb : b = .conn n a)
      (hn : n < s.accepted)
      (hs : connStep cfg n s.rt (s.conns n) a = some (rt', c')) :
      Touches cfg s b n c'
  | close {reason : ConnectionCloseReason} {rt' : Runtime} {c' : Conn}
      (hs : connStep cfg n s.rt (s.conns n) (.requestClose reason)
        = some (rt', c')) : Touches cfg s b n c'
  | accept (hn : n = s.accepted) (hb : b = .accept) :
      Touches cfg s b n { io := [.accept .loadAccepting] }

theorem execForce_touches {pc pc' : ForcePc} (hb : b ≠ .accept)
    (he : execForce cfg s pc = some (s', pc')) (m : Nat) :
    s'.accepted = s.accepted ∧ Touches cfg s b m (s'.conns m) := by
  cases pc with
  | snapshot =>
      cases he
      exact ⟨rfl, .none (absurd · hb)⟩
  | finished => cases he
  | waiting n k rest =>
      simp only [execForce] at he
      split at he <;> cases he
      exact ⟨rfl, .none (absurd · hb)⟩
  | next rest =>
      cases rest with
      | nil =>
          cases he
          exact ⟨rfl, .none (absurd · hb)⟩
      | cons n rest =>
          simp only [execForce, Option.map_eq_some_iff] at he
          obtain ⟨⟨rt', c⟩, hs, heq⟩ := he
          cases heq
          refine ⟨rfl, ?_⟩
          show Touches cfg s b m (Function.update s.conns n c m)
          by_cases hm : m = n
          · subst hm
            rw [Function.update_self]
            exact .close hs
          · rw [Function.update_of_ne hm]
            exact .none (absurd · hb)

theorem execStop_touches {pc : StopPc} (hb : b ≠ .accept)
    (he : execStop cfg s pc = some s') (m : Nat) :
    s'.accepted = s.accepted ∧ Touches cfg s b m (s'.conns m) := by
  cases pc with
  | force pc =>
      by_cases hpc : pc = .finished
      · subst hpc
        cases he
        exact ⟨rfl, .none (absurd · hb)⟩
      · have hmap : (execForce cfg s pc).map
            (fun out => { out.1 with stop := .force out.2 }) = some s' := by
          cases pc with
          | finished => exact absurd rfl hpc
          | snapshot | next _ | waiting _ _ _ => exact he
        obtain ⟨⟨s₁, pc'⟩, hs, rfl⟩ := Option.map_eq_some_iff.mp hmap
        exact execForce_touches hb hs m
  | idle | storeAccepting | loadActive | addTimer | exchangeTimer =>
      cases he
      exact ⟨rfl, .none (absurd · hb)⟩
  | returned => cases he

theorem execTimer_touches {timer : StopTimer} (hb : b ≠ .accept)
    (he : execTimer cfg s timer = some s') (m : Nat) :
    s'.accepted = s.accepted ∧ Touches cfg s b m (s'.conns m) := by
  cases timer with
  | armed =>
      cases he
      exact ⟨rfl, .none (absurd · hb)⟩
  | firing =>
      simp only [execTimer] at he
      split at he
      · cases he
        exact ⟨rfl, .none (absurd · hb)⟩
      · obtain ⟨⟨s₁, pc'⟩, hs, rfl⟩ := Option.map_eq_some_iff.mp he
        exact execForce_touches hb hs m
  | none | canceled | fired => cases he

/-- A step of the server and any connection. -/
theorem apply_touches (hs : apply cfg b s = some s') (m : Nat) :
    (b = .accept → s'.accepted = s.accepted + 1)
      ∧ (b ≠ .accept → s'.accepted = s.accepted)
      ∧ Touches cfg s b m (s'.conns m) := by
  cases b with
  | accept =>
      cases hs
      refine ⟨fun _ => rfl, fun h => absurd rfl h, ?_⟩
      show Touches cfg s .accept m (Function.update s.conns s.accepted _ m)
      by_cases hm : m = s.accepted
      · subst hm
        rw [Function.update_self]
        exact .accept rfl rfl
      · rw [Function.update_of_ne hm]
        exact .none fun _ => hm
  | conn n a =>
      simp only [apply] at hs
      split at hs
      · next hn =>
        obtain ⟨⟨rt', c⟩, hstep, rfl⟩ := Option.map_eq_some_iff.mp hs
        refine ⟨nofun, fun _ => rfl, ?_⟩
        show Touches cfg s _ m (Function.update s.conns n c m)
        by_cases hm : m = n
        · subst hm
          rw [Function.update_self]
          exact .step rfl hn hstep
        · rw [Function.update_of_ne hm]
          exact .none nofun
      · cases hs
  | stop =>
      obtain ⟨hacc, htouch⟩ := execStop_touches (b := .stop) nofun hs m
      exact ⟨nofun, fun _ => hacc, htouch⟩
  | timer =>
      obtain ⟨hacc, htouch⟩ := execTimer_touches (b := .timer) nofun hs m
      exact ⟨nofun, fun _ => hacc, htouch⟩
  | join =>
      have hsame : s'.accepted = s.accepted ∧ s'.conns = s.conns := by
        change execJoin s s.join = some s' at hs
        cases hj : s.join <;> rw [hj] at hs <;> simp only [execJoin] at hs
        · split at hs <;> cases hs
          exact ⟨rfl, rfl⟩
        · cases hs
          exact ⟨rfl, rfl⟩
        · cases hs
          exact ⟨rfl, rfl⟩
        · cases hs
      rw [hsame.2]
      exact ⟨nofun, fun _ => hsame.1, .none nofun⟩

/-- A connection of the server is a connection over some runtime, whose
steps meet what the server's steps meet; one that was not accepted yet is
blank. -/
theorem reach_conns {ok : State → Action → Prop}
    {ok' : Conn → Runtime × ConnAction → Prop}
    (hconn : ∀ s a, ok s (.conn n a) → ok' (s.conns n) (s.rt, a))
    (hclose : ∀ c rt reason, ok' c (rt, .requestClose reason))
    (h : (machine cfg).Reach ok s) :
    (n < s.accepted → (connMachine cfg n).Reach ok' (s.conns n))
      ∧ (s.accepted ≤ n → s.conns n = {}) := by
  induction h with
  | start h =>
      rw [show _ = _ from h]
      exact ⟨nofun, fun _ => rfl⟩
  | @step s s' b _ hok hs ih =>
      obtain ⟨haccept, hkeep, htouch⟩ := apply_touches hs n
      have hle : s.accepted ≤ s'.accepted := by
        by_cases hb : b = .accept
        · rw [haccept hb]
          omega
        · rw [hkeep hb]
      generalize s'.conns n = c' at htouch
      cases htouch with
      | none hn =>
          refine ⟨fun h => ih.1 ?_, fun h => ih.2 (by omega)⟩
          by_cases hb : b = .accept
          · have := haccept hb
            have := hn hb
            omega
          · rwa [← hkeep hb]
      | @step a rt' _ hb hn hstep =>
          subst hb
          refine ⟨fun _ => (ih.1 hn).step (hconn s a hok) ?_, fun h => ?_⟩
          · show (connStep cfg n s.rt (s.conns n) a).map (·.2) = _
            rw [hstep]
            rfl
          · omega
      | @close reason rt' _ hstep =>
          -- a blank connection has nobody to close it
          have hn : n < s.accepted := by
            by_contra hn
            rw [ih.2 (by omega)] at hstep
            cases hstep
          refine ⟨fun _ => (ih.1 hn).step (hclose _ s.rt reason) ?_,
            fun h => ?_⟩
          · show (connStep cfg n s.rt (s.conns n) _).map (·.2) = _
            rw [hstep]
            rfl
          · omega
      | accept hn hb =>
          refine ⟨fun _ => .start rfl, fun h => ?_⟩
          have := haccept hb
          omega

/-- The condition on a step of the server. -/
def stopsBetweenBatches (cfg : ServerConfig) (s : State) : Action → Bool
  | .conn n a => stopsBetween cfg n (s.conns n) (s.rt, a)
  | _ => true

theorem requestClose_stopsBetween (c : Conn) (rt : Runtime)
    (reason : ConnectionCloseReason) :
    stopsBetween cfg n c (rt, .requestClose reason) = true := by
  have hclears : clearsRunning cfg n c (rt, .requestClose reason)
      = false := by
    simp only [clearsRunning, connStep]
    split
    · rw [Option.any_some, Bool.and_not_self]
    · rw [Option.any_none, Bool.and_false]
  rw [stopsBetween, hclears]
  rfl

/-- One step of the server past a stopped connection whose batch is
over. -/
theorem admitsNone_step (hreach : (machine cfg).Reachable s)
    (hn : n < s.accepted) (hrun : (s.conns n).running = false)
    (hover : BatchOver cfg (s.conns n).recvBuffer (s.conns n).io)
    (hs : apply cfg b s = some s') :
    AdmitsNone (s.conns n) (s'.conns n)
      ∧ BatchOver cfg (s'.conns n).recvBuffer (s'.conns n).io := by
  have hconn : (connMachine cfg n).Reachable (s.conns n) :=
    (reach_conns (fun _ _ _ => trivial) (fun _ _ _ => trivial) hreach).1 hn
  have hstep : ∀ {a : ConnAction} {rt' : Runtime} {c' : Conn},
      connStep cfg n s.rt (s.conns n) a = some (rt', c') →
      AdmitsNone (s.conns n) c' ∧ BatchOver cfg c'.recvBuffer c'.io := by
    intro a rt' c' hs
    have hends := ends_step (reach_flow hconn) (reach_stopped hconn) hover
      (connStep_cases hs)
    have hnone := hends.admits hrun
    exact ⟨hnone, hends.batch hnone.running⟩
  obtain ⟨-, -, htouch⟩ := apply_touches hs n
  generalize s'.conns n = c' at htouch ⊢
  cases htouch with
  | none _ => exact ⟨.refl hrun, hover⟩
  | step _ _ hs => exact hstep hs
  | close hs => exact hstep hs
  | accept hn' _ => omega

/-- **A stopped connection admits nothing.** In every run of the server
whose steps clear `running_` of a connection only when its batch is over,
and in every continuation of such a run: once `running_` is false it
stays false, no call is added to `inbound_calls_` and no request is
admitted, and no service execution is scheduled. -/
theorem stopped_admits_none
    (h : (machine cfg).Reach
      (fun s b => stopsBetweenBatches cfg s b = true) s)
    (hrun : (s.conns n).running = false)
    (hlater : ((machine cfg).startedAt s).Reachable s') :
    AdmitsNone (s.conns n) (s'.conns n) := by
  have hreach : (machine cfg).Reachable s := h.weaken fun _ _ _ => trivial
  have hconns : (n < s.accepted → (connMachine cfg n).Reach
        (fun c a => stopsBetween cfg n c a = true) (s.conns n))
      ∧ (s.accepted ≤ n → s.conns n = {}) :=
    reach_conns (fun _ _ hok => hok) requestClose_stopsBetween h
  obtain ⟨hconn, hblank⟩ := hconns
  have hn : n < s.accepted := by
    by_contra hn
    rw [hblank (by omega)] at hrun
    cases hrun
  -- the batch is over and stays so; the run onward is by induction
  have hinv : n < s'.accepted ∧ AdmitsNone (s.conns n) (s'.conns n)
      ∧ BatchOver cfg (s'.conns n).recvBuffer (s'.conns n).io := by
    induction hlater with
    | start h =>
        rw [show _ = s from h]
        exact ⟨hn, .refl hrun, reach_batchOver (hconn hn) hrun⟩
    | @step s₁ s₂ b hlater _ hs ih =>
        obtain ⟨hn₁, hnone, hover⟩ := ih
        obtain ⟨haccept, hkeep, -⟩ := apply_touches hs n
        obtain ⟨hnone', hover'⟩ :=
          admitsNone_step (hreach.onward hlater) hn₁ hnone.running hover hs
        refine ⟨?_, hnone.trans hnone', hover'⟩
        by_cases hb : b = .accept
        · have := haccept hb
          omega
        · rwa [hkeep hb]
  exact hinv.2.1

-- == one run

/-- Two requests in one read. -/
def pipelined : Bytes :=
  requestSeven ++ (packRpcFrame byteCodec { correlationId := 8 } [] none []
    64).out

/-- A connection is accepted and started, reads `chunk` and admits the
first request of it. -/
def admitFirst (chunk : Bytes) : List Action :=
  [.accept] ++ List.replicate 9 (.conn 0 (.io .go)) ++ [.conn 0 .dispatch]
    ++ List.replicate 4 (.conn 0 (.io .go))
    ++ [.conn 0 (.io (.readNow (.data chunk)))]
    ++ List.replicate 15 (.conn 0 (.io .go))

/-- `RequestClose` of the idle timeout, until it has cleared `running_`. -/
def closeFirst : List Action :=
  [.conn 0 (.requestClose .idleTimeout), .conn 0 (.closer 0),
    .conn 0 (.closer 0)]

/-- `RequestClose` comes before the second request is parsed. -/
def stoppedServer : State :=
  (machine echoServer).final (admitFirst pipelined ++ closeFirst) {}

/-- The IO thread goes on with the batch. -/
def batchServer : State :=
  ((machine echoServer).startedAt stoppedServer).final
    (List.replicate 13 (.conn 0 (.io .go))) stoppedServer

/-- A stopped connection admits the second request of the batch and
schedules its execution. -/
theorem stoppedServer_admits :
    (machine echoServer).Reachable stoppedServer
      ∧ (stoppedServer.conns 0).running = false
      ∧ (stoppedServer.conns 0).inboundCalls = [0]
      ∧ ((machine echoServer).startedAt stoppedServer).Reachable batchServer
      ∧ (batchServer.conns 0).inboundCalls = [0, 1]
      ∧ ((batchServer.conns 0).calls 1).admission = .admitted
      ∧ ((batchServer.conns 0).calls 1).dispatch = .queued :=
  ⟨Machine.reachable_final rfl (by decide +kernel), by decide +kernel,
    by decide +kernel, Machine.reachable_final rfl (by decide +kernel),
    by decide +kernel, by decide +kernel, by decide +kernel⟩

/-- The same with one request in the read: the receiver is suspended
when `RequestClose` comes. -/
def readingActions : List Action :=
  admitFirst requestSeven ++ List.replicate 3 (.conn 0 (.io .go))
    ++ closeFirst

def readingServer : State :=
  (machine echoServer).finalWhile (stopsBetweenBatches echoServer)
    readingActions {}

/-- Another request arrives, and the receiver leaves. -/
def leftServer : State :=
  ((machine echoServer).startedAt readingServer).final
    ([.conn 0 (.readDone (.data requestSeven))]
      ++ List.replicate 3 (.conn 0 (.io .go))) readingServer

theorem readingServer_admits_none :
    (readingServer.conns 0).running = false
      ∧ (leftServer.conns 0).receiverExited = true
      ∧ AdmitsNone (readingServer.conns 0) (leftServer.conns 0) :=
  ⟨by decide +kernel, by decide +kernel,
    stopped_admits_none
      (Machine.reach_finalWhile rfl (by decide +kernel))
      (by decide +kernel) (Machine.reachable_final rfl (by decide +kernel))⟩

end AntRpc.Server
