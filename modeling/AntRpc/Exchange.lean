/-
One response from the service's message to the caller's object: packed
by `FinalizeInboundCall` (server/server_connection.hpp), parsed by the
client's receive loop and applied by `CompleteResponseSlot`
(rpc/slot_table.hpp).

# The argument

The server and the client are separate machines here, and what joins
them is the byte stream: a response that packed is a frame that parses
back (`parseOnce_packed`), so the meta names the request's call and the
body is the service's message, serialized. `CompleteResponseSlot` then
parses it into the response object (`applyResponse_parses`).

A message whose fields are all default serializes to nothing, and an
empty body is not parsed: the response object keeps what it held
(`applyResponse_skips`).

# Afterwards

The table writes a response object at that one point, so it holds the
message until somebody else writes it (`messages_step`): the caller
itself, or another call that was given the same object.
-/
import AntRpc.Protocol.Proofs.RoundTrip
import AntRpc.Server.Proofs.Answers
import AntRpc.Slot.Proofs.Isolation

namespace AntRpc.Exchange

open Protocol Server Slot

-- == the frame

/-- The limit decides whether a frame is recognised, not what it is. -/
theorem tryParse_limits {codec : MetaCodec} {buf : Bytes} {l l' : UInt64}
    (h : (tryParseRpcFrame codec buf l).status = .success)
    (h' : (tryParseRpcFrame codec buf l').status = .success) :
    tryParseRpcFrame codec buf l = tryParseRpcFrame codec buf l' := by
  obtain ⟨parsed, -, -, hparse, -, heq⟩ := tryParse_success codec h
  obtain ⟨parsed', -, -, hparse', -, heq'⟩ := tryParse_success codec h'
  rw [hparse] at hparse'
  cases hparse'
  rw [heq, heq']

/-- A packed frame at the head of a receive buffer is taken off whole,
with the meta and the body it was packed from. -/
theorem parseOnce_packed {codec : MetaCodec} (hinv : codec.Inverts)
    {answer : RpcMeta} {body : Bytes} {attachment : Option Bytes}
    {limit limit' : UInt64} {accepted : RpcMessageType} {rest : Bytes}
    {f : FrameParseResult} {k : Nat}
    (hok : (packRpcFrame codec answer body attachment [] limit).ok = true)
    (hframe : parseOnce codec limit' accepted
      ((packRpcFrame codec answer body attachment [] limit).out ++ rest)
        = .frame f k) :
    k = (packRpcFrame codec answer body attachment [] limit).out.length
      ∧ f.rpcMeta = stampedMeta answer attachment ∧ f.bodyIobuf = body := by
  obtain ⟨metaBuf, hser, hne, hm, hb, hlim, hout⟩ := pack_ok hok
  have hlen := packedFrame_length metaBuf body (attachment.getD [])
  have hsize := limit.toNat_lt
  have hparse := parse_packedFrame rest hne hm hb (hinv _ _ hser) rfl
    (show _ ≤ limit.toNat by omega)
  rw [List.nil_append] at hout
  rw [hout] at hframe ⊢
  obtain ⟨hf, hsuccess, -, hk⟩ := parseOnce_frame hframe
  rw [hf] at hsuccess
  have heq := hf.trans (tryParse_limits hsuccess (by rw [hparse]))
  rw [hk, heq, hparse]
  refine ⟨?_, rfl, rfl⟩
  rw [UInt64.toNat_ofNat', Nat.mod_eq_of_lt (by omega)]

/-- A service ran for the call, left the message `r`, and its response
packed into `wire`. -/
structure Sent (cfg : ServerConfig) (serialize : Bytes → Option Bytes)
    (call : Call) (r wire : Bytes) : Prop where
  done : call.done = true
  packed : ∃ outcome : ServiceOutcome, outcome.body = serialize r
    ∧ call.packResponse cfg outcome = some wire

/-- What was sent, packed from an answer to the request and the
serialized message. -/
theorem Sent.frame {cfg : ServerConfig} {n : Nat} {c : Conn} {q : Nat}
    {serialize : Bytes → Option Bytes} {r wire : Bytes}
    (hc : (connMachine cfg n).Reachable c)
    (h : Sent cfg serialize (c.calls q) r wire) :
    ∃ answer body attachment, serialize r = some body
      ∧ AnswersMeta answer (c.calls q).frame.rpcMeta
      ∧ (packRpcFrame cfg.codec answer body attachment []
          cfg.maxFrameBytes).ok = true
      ∧ (packRpcFrame cfg.codec answer body attachment []
          cfg.maxFrameBytes).out = wire := by
  obtain ⟨outcome, hbody, hpacked⟩ := h.packed
  have hcall : CallOk cfg (c.calls q) := (reach_requests hc).calls q
  have hmeta : AnswersMeta (c.calls q).responseMeta
      (c.calls q).frame.rpcMeta := by
    have hholds := hcall.dispatch
    rw [hcall.done h.done] at hholds
    exact hholds
  unfold Call.packResponse Call.responseParts at hpacked
  rw [if_pos h.done] at hpacked
  simp only at hpacked
  split at hpacked
  · cases hpacked
  · next body heq =>
    obtain ⟨hok, hwire⟩ := Option.ite_none_right_eq_some.mp hpacked
    refine ⟨_, body, _, hbody ▸ heq, ?_, hok, Option.some.inj hwire⟩
    exact ⟨hmeta.msgType, hmeta.correlationId, hmeta.serviceName,
      hmeta.methodName⟩

-- == applying the response

section Apply

variable {tc : TableConfig} {args : CallArgs} {response : Response}
  {h : Heap} {m : Nat}

theorem applyMeta_messages (args : CallArgs) (response : Response)
    (h : Heap) : (applyMeta args response h).messages = h.messages := by
  unfold applyMeta
  split <;> rfl

theorem storeRawBody_messages (args : CallArgs) (response : Response)
    (h : Heap) : (storeRawBody args response h).messages = h.messages := by
  unfold storeRawBody
  split <;> rfl

theorem storeRawBody_failed (args : CallArgs) (response : Response)
    (h : Heap) :
    controllerFailed args (storeRawBody args response h)
      = controllerFailed args h := by
  unfold controllerFailed storeRawBody
  cases args.rawRespBody <;> rfl

/-- A call that ends well has had its body parsed, if there was one. -/
theorem applyResponse_parses (hm : args.responseMsg = some m)
    (hbody : response.body ≠ [])
    (hok : controllerFailed args (applyResponse tc args response h).1
      = false) :
    (applyResponse tc args response h).1.messages m
      = (tc.parseMessage m response.body).1 := by
  unfold applyResponse at hok ⊢
  simp only [storeRawBody_failed, storeRawBody_messages] at hok ⊢
  unfold parseBody at hok ⊢
  rw [hm] at hok ⊢
  by_cases hfailed :
      controllerFailed args (applyMeta args response h) = false
  · simp only [if_pos (And.intro hbody hfailed)]
    split
    · exact Function.update_self ..
    · split <;> exact Function.update_self ..
  · -- the parse was skipped, and the call is left failed
    simp only [if_neg (fun hand : _ ∧ _ => hfailed hand.2)] at hok
    exact absurd hok hfailed

/-- Without a body the response object is left alone. -/
theorem applyResponse_skips (hbody : response.body = []) :
    (applyResponse tc args response h).1.messages = h.messages := by
  unfold applyResponse
  simp only [storeRawBody_messages]
  unfold parseBody
  split
  · exact applyMeta_messages ..
  · rw [if_neg (fun hand => hand.1 hbody)]
    exact applyMeta_messages ..

end Apply

-- == afterwards

variable {τ : Type} [DecidableEq τ] {tc : TableConfig} {m : Nat}

/-- The step leaves response object `m` to its owner: the client does
not write it, and no other response is applied to it. -/
def Spares (m : Nat) (s : Slot.State τ) : Slot.Action τ → Prop
  | .client heap _ => heap.messages m = s.heap.messages m
  | .step t => ∀ w response,
      s.threads t = .running (.hold w (.responseApply response)) →
      (s.args (getSlotId w.cid)).responseMsg ≠ some m
  | _ => True

omit [DecidableEq τ] in
theorem onController_messages (s : Slot.State τ) (i : UInt32)
    (f : Controller → Controller) :
    (s.onController i f).heap.messages = s.heap.messages := by
  unfold State.onController
  split <;> rfl

omit [DecidableEq τ] in
theorem cancelDeadlineTimer_messages (s : Slot.State τ) (i : UInt32) :
    (s.cancelDeadlineTimer i).heap.messages = s.heap.messages := by
  unfold State.cancelDeadlineTimer
  simp only
  split <;> rfl

/-- A winner writes response objects only where it applies a
response. -/
theorem execHold_messages {t : τ} {w : Winner} {p : HoldPc}
    {s : Slot.State τ} (hp : ∀ response, p ≠ .responseApply response) :
    (execHold tc t w p s).heap.messages = s.heap.messages := by
  cases p with
  | responseApply response => exact absurd rfl (hp response)
  | discardTimer | cancelTimer item =>
      exact cancelDeadlineTimer_messages ..
  | discardClear | responseClear r | failureClear r | failureApply r =>
      exact onController_messages ..
  | takeNotify code item =>
      simp only [execHold]
      split <;> rfl
  | pushFreeSlot item => cases item <;> rfl
  | _ => rfl

/-- One step of the table that spares the object. -/
theorem messages_step {s s' : Slot.State τ} {a : Slot.Action τ}
    (hspare : Spares m s a) (hs : Slot.apply tc a s = some s') :
    s'.heap.messages m = s.heap.messages m := by
  cases apply_acts hs with
  | @step t pc _ hpc hs =>
      by_cases hhold : ∃ w p, pc = .hold w p
      · obtain ⟨w, p, rfl⟩ := hhold
        cases hs
        by_cases happly : ∃ response, p = .responseApply response
        · obtain ⟨response, rfl⟩ := happly
          exact (applyResponse_writes tc _ response s.heap).messages m
            (hspare w response hpc)
        · exact congrFun (execHold_messages fun r hr => happly ⟨r, hr⟩) m
      · by_cases hdispatch : ∃ w d, pc = .dispatch w d
        · obtain ⟨w, d, rfl⟩ := hdispatch
          rw [(execDispatch_scheduled hs).1]
        · rw [(exec_outside hs (fun w p h => hhold ⟨w, p, h⟩)
            fun w d h => hdispatch ⟨w, d, h⟩).1]
  | move published h => rfl
  | client heap metrics => exact hspare

/-- A run that spares the object. -/
theorem messages_reach {s₀ s : Slot.State τ}
    (h : ((machine tc).startedAt s₀).Reach (Spares m) s) :
    s.heap.messages m = s₀.heap.messages m := by
  induction h with
  | start h => exact congrArg (fun s : Slot.State τ => s.heap.messages m) h
  | step _ hspare hs ih => exact (messages_step hspare hs).trans ih

-- == the exchange

/-- A thread of the table has won the call for the first frame of the
receive buffer, and is about to apply it. -/
structure Received (codec : MetaCodec) (limit : UInt64) (buffer : Bytes)
    (s : Slot.State τ) (t : τ) (w : Winner) (f : FrameParseResult)
    (k : Nat) : Prop where
  parsed : parseOnce codec limit .response buffer = .frame f k
  standing : s.threads t = .running (.hold w
    (.responseApply ⟨f.rpcMeta, f.bodyIobuf, f.attachmentIobuf⟩))

/-- **When the caller gets the service's message.** A service left `r`,
its response went out, and the client takes it off its stream and applies
it to the response object `m`; the call does not fail. Then the frame was
the request's own, taken off whole. The object holds `r` from then on,
until somebody else writes it, just if `r` serializes to at least one
byte or the object held it before. -/
theorem response_delivered_iff {cfg : ServerConfig} {n : Nat} {c : Conn}
    {q : Nat} {serialize : Bytes → Option Bytes} {r wire rest : Bytes}
    {limit : UInt64} {s s' : Slot.State τ} {t : τ} {w : Winner}
    {f : FrameParseResult} {k : Nat} (hcodec : cfg.codec.Inverts)
    (hmessage : ∀ r body, serialize r = some body →
      tc.parseMessage m body = (r, true))
    (hserver : (connMachine cfg n).Reachable c)
    (hsent : Sent cfg serialize (c.calls q) r wire)
    (hreceived : Received cfg.codec limit (wire ++ rest) s t w f k)
    (hobject : (s.args (getSlotId w.cid)).responseMsg = some m)
    (hs : Slot.apply tc (.step t) s = some s')
    (hsuccess : controllerFailed (s.args (getSlotId w.cid)) s'.heap
      = false) :
    k = wire.length
      ∧ f.rpcMeta.correlationId
          = (c.calls q).frame.rpcMeta.correlationId
      ∧ (serialize r ≠ some [] ∨ s.heap.messages m = r
        ↔ ∀ later, ((machine tc).startedAt s').Reach (Spares m) later →
          later.heap.messages m = r) := by
  obtain ⟨answer, body, attachment, hbody, hanswer, hok, rfl⟩ :=
    hsent.frame hserver
  obtain ⟨hk, hmeta, hbodyEq⟩ :=
    parseOnce_packed hcodec hok hreceived.parsed
  have hheap : s'.heap = (applyResponse tc (s.args (getSlotId w.cid))
      ⟨f.rpcMeta, f.bodyIobuf, f.attachmentIobuf⟩ s.heap).1 := by
    simp only [Slot.apply, hreceived.standing, exec] at hs
    cases hs
    rfl
  -- an empty body is not parsed, so what was there stays
  have hskip : body = [] → s'.heap.messages = s.heap.messages := by
    intro hempty
    rw [hheap]
    exact applyResponse_skips (hbodyEq.trans hempty)
  refine ⟨hk, ?_, fun hcond later hlater => ?_, fun hlater => ?_⟩
  · rw [hmeta]
    exact hanswer.correlationId
  · refine (messages_reach hlater).trans ?_
    by_cases hempty : body = []
    · rw [hskip hempty]
      exact hcond.resolve_left fun hne => hne (hempty ▸ hbody)
    · rw [hheap] at hsuccess ⊢
      rw [applyResponse_parses hobject (hbodyEq ▸ hempty) hsuccess]
      show (tc.parseMessage m f.bodyIobuf).1 = r
      rw [hbodyEq, hmessage r body hbody]
  · by_cases hempty : body = []
    · refine .inr ?_
      rw [← hskip hempty]
      exact hlater s' (.start rfl)
    · refine .inl fun h => hempty ?_
      rw [hbody] at h
      exact Option.some.inj h

-- == one call

/-- The meta of the one request below: the first call of a table's first
cell. -/
def callMeta : RpcMeta := { correlationId := 0x100000000 }

/-- A codec that knows that meta and the answer to it. -/
def callCodec : MetaCodec where
  serialize m :=
    if m = callMeta then some [1]
    else if m = initialResponseMeta callMeta then some [2]
    else none
  parse bytes :=
    if bytes = [1] then some callMeta
    else if bytes = [2] then some (initialResponseMeta callMeta)
    else none

theorem callCodec_inverts : callCodec.Inverts := by
  intro m bytes h
  unfold callCodec at h ⊢
  simp only at h ⊢
  split_ifs at h with hreq hresp
  · cases h
    rw [if_pos rfl, hreq]
  · cases h
    rw [if_neg (by decide), if_pos rfl, hresp]

def callServer : ServerConfig := { echoServer with codec := callCodec }

/-- A connection is accepted and started, reads the request, admits it
and runs its service. -/
def serviceRun : List ConnAction :=
  List.replicate 9 (.io .go) ++ [.dispatch] ++ List.replicate 4 (.io .go)
    ++ [.io (.readNow (.data
      (packRpcFrame callCodec callMeta [] none [] 64).out))]
    ++ List.replicate 15 (.io .go) ++ List.replicate 7 (.task 0)

def serviceConn : Conn :=
  (connMachine callServer 0).final (serviceRun.map fun a => ({}, a))
    { io := [.accept .loadAccepting] }

theorem serviceConn_reachable :
    (connMachine callServer 0).Reachable serviceConn :=
  Lib.Machine.reachable_final rfl (by decide +kernel)

/-- The wire response to a service that left a message with this
serialization. -/
def responseWire (body : Bytes) : Bytes :=
  (packRpcFrame callCodec (initialResponseMeta callMeta) body none []
    64).out

/-- The client calls with a response object that still holds `[42]`; the
response with this body arrives and is about to be applied. -/
def callRun (body : Bytes) : List (Slot.Action Nat) :=
  [.invoke 0 (.allocateSlot
      { task := some 7, responseMsg := some 0, controller := some 0,
        executor := some 1 } 1)]
    ++ List.replicate 8 (.step 0)
    ++ [.collect 0, .invoke 0 (.publishSlot 0x100000000)]
    ++ List.replicate 3 (.step 0)
    ++ [.collect 0, .invoke 0 (.completeResponseSlot 0x100000000
      { rpcMeta := initialResponseMeta callMeta, body := body })]
    ++ List.replicate 2 (.step 0)

/-- A table whose client keeps `[42]` in every response object. -/
def usedTable : Slot.State Nat :=
  { table := .init oneCell, heap := { messages := fun _ => [42] } }

def callState (body : Bytes) : Slot.State Nat :=
  (machine oneCell).final (callRun body) usedTable

/-- The call is completed and its continuation scheduled. -/
def completedState (body : Bytes) : Slot.State Nat :=
  (machine oneCell).final (callRun body ++ List.replicate 14 (.step 0))
    usedTable

/-- The frame the client parses. -/
def callFrame (body : Bytes) : FrameParseResult :=
  tryParseRpcFrame callCodec (responseWire body) 64

/-- A service leaves a default message, which is no bytes: its response
arrives, the call succeeds and its continuation is scheduled, and the
response object still holds the content of an earlier use. -/
theorem defaultMessage_lost :
    (connMachine callServer 0).Reachable serviceConn
      ∧ Sent callServer some (serviceConn.calls 0) [] (responseWire [])
      ∧ (machine oneCell).Reachable (callState [])
      ∧ Received callCodec 64 (responseWire []) (callState []) 0
          ⟨0x100000000, 1, .complete⟩ (callFrame []) 17
      ∧ ((callState []).args 0).responseMsg = some 0
      ∧ (machine oneCell).Reachable (completedState [])
      ∧ (completedState []).scheduled = [⟨⟨some 7, some 1, none⟩, 0, 1⟩]
      ∧ ((completedState []).heap.controllers 0).failed = false
      ∧ (completedState []).heap.messages 0 = [42] := by
  refine ⟨serviceConn_reachable,
    ⟨by decide +kernel, { body := some [] }, rfl, by decide +kernel⟩,
    Lib.Machine.reachable_final ⟨_, rfl⟩ (by decide +kernel), ⟨rfl, rfl⟩,
    rfl, Lib.Machine.reachable_final ⟨_, rfl⟩ (by decide +kernel), ?_⟩
  decide +kernel

/-- A message of one byte replaces the old content. -/
theorem oneByte_delivered :
    18 = (responseWire [5]).length
      ∧ (callFrame [5]).rpcMeta.correlationId
          = (serviceConn.calls 0).frame.rpcMeta.correlationId
      ∧ ∀ later,
        ((machine oneCell).startedAt
          ((machine oneCell).final [.step 0] (callState [5]))).Reach
            (Spares 0) later → later.heap.messages 0 = [5] := by
  have hsent : Sent callServer some (serviceConn.calls 0) [5]
      (responseWire [5]) :=
    ⟨by decide +kernel, { body := some [5] }, rfl, by decide +kernel⟩
  have hreceived : Received callCodec 64 (responseWire [5] ++ [])
      (callState [5]) 0 ⟨0x100000000, 1, .complete⟩ (callFrame [5]) 18 :=
    ⟨rfl, rfl⟩
  have hstep : (machine oneCell).apply (.step 0) (callState [5])
      = some ((machine oneCell).final [.step 0] (callState [5])) :=
    Lib.Machine.apply_final (by decide +kernel)
  obtain ⟨hlength, hid, hiff⟩ := response_delivered_iff callCodec_inverts
    (fun r body h => by cases h; rfl) serviceConn_reachable hsent
    hreceived rfl hstep (by decide +kernel)
  exact ⟨hlength, hid, hiff.mp (.inl (by decide))⟩

end AntRpc.Exchange
