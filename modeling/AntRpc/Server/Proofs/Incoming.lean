/-
What a server connection makes of the bytes it reads: the requests its
client packed, one by one and in order.

# The invariant

All that was read drains to the frames handed to `HandleRequest`,
followed by what the buffer, with a chunk that was just read, drains to
(`Incoming`). Three operations move bytes along: a read, the append of
its chunk and the parse that takes a frame off. The library says that
each of them keeps this; all others leave the streams alone (`Reads`).
-/
import AntRpc.Protocol.Proofs.RoundTrip
import AntRpc.Server.Proofs.Answers

namespace AntRpc.Server

open Protocol Lib

variable {cfg : ServerConfig} {n : Nat} {ch : Choice} {rt rt' : Runtime}
  {c c' : Conn} {op : IoOp} {ops io : List IoOp} {a : ConnAction}

-- == streams

/-- The frames handed to `HandleRequest`. -/
def Conn.frames (c : Conn) : List FrameParseResult :=
  (List.range c.requests).map fun r => (c.calls r).frame

/-- What was read, what is left of it and what was taken off. -/
def Conn.inbox (c : Conn) : Bytes × Bytes × List FrameParseResult :=
  (c.received, c.recvBuffer, c.frames)

theorem inbox_setCall {r : Nat} {call : Call}
    (hframe : call.frame = (c.calls r).frame) :
    (c.setCall r call).inbox = c.inbox := by
  have hcalls : ∀ q, ((c.setCall r call).calls q).frame
      = (c.calls q).frame := by
    intro q
    by_cases hq : q = r
    · subst hq
      rw [← hframe]
      exact congrArg Call.frame (Function.update_self ..)
    · exact congrArg Call.frame (Function.update_of_ne hq ..)
  simp only [Conn.inbox, Conn.frames, hcalls]
  rfl

def ReadResult.bytes : ReadResult → Bytes
  | .data chunk => chunk
  | .eof | .error => []

theorem receive_received (result : ReadResult) :
    (c.receive result).received = c.received ++ result.bytes := by
  cases result <;> simp [Conn.receive, ReadResult.bytes]

/-- The chunk that was read and not yet appended. -/
def IoOp.chunk : IoOp → Bytes
  | .receive (.readResumed result) => result.bytes
  | _ => []

theorem chunk_of_none (h : tally IoOp.isReceive io = 0) :
    io.flatMap IoOp.chunk = [] := by
  rw [tally_eq_zero, List.any_eq_false] at h
  refine List.flatMap_eq_nil_iff.mpr fun op hop => ?_
  cases op with
  | receive r => exact absurd rfl (h _ hop)
  | _ => rfl

-- == operations

/-- What an operation of the IO thread does to the bytes that were
read. -/
inductive Reads (cfg : ServerConfig) (c : Conn) :
    IoOp → Conn → List IoOp → Prop
  | none {op : IoOp} {c' : Conn} {ops : List IoOp}
      (hsame : c'.inbox = c.inbox) (hop : op.chunk = [])
      (hops : ops.flatMap IoOp.chunk = []) : Reads cfg c op c' ops
  | read {c' : Conn} {result : ReadResult}
      (hsame : c'.inbox
        = (c.received ++ result.bytes, c.recvBuffer, c.frames)) :
      Reads cfg c (.receive .read) c' [.receive (.readResumed result)]
  | append {c' : Conn} {result : ReadResult} {ops : List IoOp}
      (hsame : c'.inbox
        = (c.received, c.recvBuffer ++ result.bytes, c.frames))
      (hops : ops.flatMap IoOp.chunk = []) :
      Reads cfg c (.receive (.readResumed result)) c' ops
  | frame {c' : Conn} {f : FrameParseResult} {len r : Nat}
      (hparse : parseOnce cfg.codec cfg.maxFrameBytes .request c.recvBuffer
        = .frame f len)
      (hsame : c'.inbox
        = (c.received, c.recvBuffer.drop len, c.frames ++ [f])) :
      Reads cfg c (.receive .parse) c' [.receive (.handle r .received)]

theorem IoStep.reads (h : IoStep cfg c op c' ops) : Reads cfg c op c' ops := by
  cases h with
  | addCall | schedule | reject =>
      exact .none (inbox_setCall (c := c) rfl) rfl rfl
  | frame hparse =>
      next f len =>
      refine .frame hparse ?_
      have hold : ∀ r ∈ List.range c.requests, (Function.update c.calls
          c.requests { frame := f } r).frame = (c.calls r).frame :=
        fun r hr => by
          rw [Function.update_of_ne (Nat.ne_of_lt (List.mem_range.1 hr))]
      simp only [Conn.inbox, Conn.frames, List.range_succ,
        List.map_append, List.map_congr_left hold, List.map_cons,
        List.map_nil, Function.update_self]
  | read =>
      refine .read ?_
      rw [← receive_received]
      rfl
  | append => exact .append rfl rfl
  | readEnds hnone =>
      next result _ =>
      cases result with
      | data chunk => exact absurd rfl (hnone chunk)
      | eof | error =>
          exact .append (by rw [ReadResult.bytes, List.append_nil]; rfl) rfl
  | requestClose he =>
      refine .none ?_ rfl (by split <;> rfl)
      rw [(execRequestClose_frame he).1]
      rfl
  | _ => exact .none rfl rfl rfl

-- == invariant

/-- The receive loop of a connection. -/
abbrev ServerConfig.loop (cfg : ServerConfig) :
    Framer UInt8 FrameParseResult StreamError :=
  frameLoop cfg.codec cfg.maxFrameBytes .request

/-- What was read, taken apart. -/
def Incoming (cfg : ServerConfig) (c : Conn) : Prop :=
  cfg.loop.drain c.received
    = cfg.loop.after c.frames (c.recvBuffer ++ c.io.flatMap IoOp.chunk)

theorem Incoming.of_inbox {received buffer : Bytes}
    {frames : List FrameParseResult}
    (hinbox : c.inbox = (received, buffer, frames))
    (h : cfg.loop.drain received
      = cfg.loop.after frames (buffer ++ c.io.flatMap IoOp.chunk)) :
    Incoming cfg c := by
  obtain ⟨rfl, rfl, rfl⟩ : c.received = received
      ∧ c.recvBuffer = buffer ∧ c.frames = frames := by
    simpa [Conn.inbox] using hinbox
  exact h

/-- An operation of `ReceiveLoop` has no other beside it. -/
theorem Flow.alone {f : Flags} {running : Bool} {r : ReceiveOp}
    {rest : List IoOp} (h : Flow f running (.receive r :: rest)) :
    rest.flatMap IoOp.chunk = [] := by
  refine chunk_of_none ?_
  have hr := h.receiving
  have hone : bit (IoOp.receive r).isReceive = 1 := rfl
  have h0 := tally_nonneg IoOp.isReceive rest
  have h1 := bit_nonneg f.reading
  have h2 := bit_le_one (f.receiverStarted && !f.receiverExited)
  rw [tally_cons, hone] at hr
  omega

/-- Without a chunk on its way, what was read is in the buffer. -/
theorem Incoming.settled {r : ReceiveOp} {rest : List IoOp}
    (h : Incoming cfg c) (hio : c.io = .receive r :: rest)
    (hflow : Flow c.flags c.running c.io)
    (hr : (IoOp.receive r).chunk = []) :
    cfg.loop.drain c.received = cfg.loop.after c.frames c.recvBuffer := by
  rw [hio] at hflow
  rw [Incoming, hio, List.flatMap_cons, hr, hflow.alone] at h
  simpa using h

theorem Incoming.exec {rest : List IoOp} (h : Incoming cfg c)
    (hflow : Flow c.flags c.running c.io) (hio : c.io = op :: rest)
    (hreads : Reads cfg { c with io := rest } op c' ops) :
    Incoming cfg { c' with io := ops ++ rest } := by
  have hall := h
  rw [Incoming, hio, List.flatMap_cons] at hall
  have hone := hflow
  rw [hio] at hone
  cases hreads with
  | none hsame hop hops =>
      refine .of_inbox hsame ?_
      rw [List.flatMap_append, hops, List.nil_append]
      rw [hop, List.nil_append] at hall
      exact hall
  | @read _ result hsame =>
      refine .of_inbox hsame ?_
      show _ = cfg.loop.after c.frames
        (c.recvBuffer ++ (result.bytes ++ rest.flatMap IoOp.chunk))
      rw [hone.alone, List.append_nil]
      exact cfg.loop.after_append (frameLoop_stable ..)
        (h.settled hio hflow rfl) result.bytes
  | append hsame hops =>
      refine .of_inbox hsame ?_
      rw [List.flatMap_append, hops, List.nil_append, List.append_assoc]
      exact hall
  | @frame _ f len _ hparse hsame =>
      refine .of_inbox hsame ?_
      show _ = cfg.loop.after (c.frames ++ [f])
        (c.recvBuffer.drop len ++ rest.flatMap IoOp.chunk)
      rw [hone.alone, List.append_nil]
      exact (h.settled hio hflow rfl).trans
        (cfg.loop.after_frame c.frames hparse)

theorem incoming_step (h : Incoming cfg c)
    (hflow : Flow c.flags c.running c.io)
    (hs : ConnStep cfg n rt c a rt' c') : Incoming cfg c' := by
  cases hs with
  | io hio he => exact h.exec hflow hio (execIo_step he).reads
  | @dispatch command rest hio hmail =>
      rw [Incoming, hio] at h
      refine .of_inbox rfl (h.trans ?_)
      cases command <;> rfl
  | @readDone result hio _ _ =>
      rw [Incoming, hio, List.flatMap_nil, List.append_nil] at h
      refine .of_inbox rfl ?_
      show _ = cfg.loop.after c.frames
        (c.recvBuffer ++ (result.bytes ++ []))
      rw [receive_received, List.append_nil]
      exact cfg.loop.after_append (frameLoop_stable ..) h result.bytes
  | writeDone hio _ _ =>
      rw [Incoming, hio] at h
      exact .of_inbox rfl h
  | task _ _ he =>
      exact .of_inbox (inbox_setCall (execDispatch_begins he).2.frame) h
  | run _ _ => exact .of_inbox (inbox_setCall (run_begins _).frame) h
  | @finalize r _ _ _ _ _ _ c₁ _ _ _ _ he =>
      have hframe := (execFinalize_frame he).1
      have hcalls : c₁.calls = c.calls := by rw [hframe]
      have hinbox : c₁.inbox = c.inbox := by
        rw [hframe]
        rfl
      refine .of_inbox ((inbox_setCall ?_).trans hinbox) ?_
      · rw [hcalls, (execFinalize_call he).frame]
      · show _ = cfg.loop.after _ (_ ++ c₁.io.flatMap IoOp.chunk)
        rw [hframe]
        exact h
  | requestClose _ => exact .of_inbox rfl h
  | closer _ he =>
      rw [(execRequestClose_frame he).1]
      exact .of_inbox rfl h

theorem reach_incoming (h : (connMachine cfg n).Reachable c) :
    Incoming cfg c :=
  reach_invariant (I := Incoming cfg) rfl
    (fun _ _ _ _ _ hr h _ hs => incoming_step h (reach_flow hr) hs) h

-- == messages

/-- What a client packs into a frame. -/
structure Message where
  rpcMeta : RpcMeta
  body : Bytes := []
  attachment : Option Bytes := none

def Message.pack (codec : MetaCodec) (limit : UInt64) (m : Message) :
    PackResult :=
  packRpcFrame codec m.rpcMeta m.body m.attachment [] limit

/-- The frame has the message's meta, body and attachment. -/
structure Message.Is (m : Message) (f : FrameParseResult) : Prop where
  rpcMeta : f.rpcMeta = stampedMeta m.rpcMeta m.attachment
  body : f.bodyIobuf = m.body
  attachment : f.attachmentIobuf = m.attachment.getD []

theorem Message.parse_pack {codec : MetaCodec} (hinv : codec.Inverts)
    {limit limit' : UInt64} (hle : limit ≤ limit') {m : Message}
    (hok : (m.pack codec limit).ok = true) :
    ∃ f, m.Is f ∧ parseOnce codec limit' m.rpcMeta.msgType
      (m.pack codec limit).out
        = .frame f (m.pack codec limit).out.length := by
  obtain ⟨metaBuf, hser, hne, hm, hb, hlim, hout⟩ := pack_ok hok
  have hlen := packedFrame_length metaBuf m.body (m.attachment.getD [])
  have hfits := UInt64.le_iff_toNat_le.mp hle
  have hsize := limit'.toNat_lt
  have hparse := parse_packedFrame [] hne hm hb (hinv _ _ hser) rfl
    (show _ ≤ limit'.toNat by omega)
  rw [List.append_nil] at hparse
  have hout : (m.pack codec limit).out
      = packedFrame metaBuf m.body (m.attachment.getD []) := hout
  rw [hout]
  refine ⟨tryParseRpcFrame codec
    (packedFrame metaBuf m.body (m.attachment.getD [])) limit', ?_, ?_⟩
  · rw [hparse]
    exact ⟨rfl, rfl, rfl⟩
  · have htype : (stampedMeta m.rpcMeta m.attachment).msgType
        = m.rpcMeta.msgType := rfl
    have hbytes : (UInt64.ofNat (packedFrame metaBuf m.body
        (m.attachment.getD [])).length).toNat
          = (packedFrame metaBuf m.body (m.attachment.getD [])).length := by
      rw [UInt64.toNat_ofNat', Nat.mod_eq_of_lt (by omega)]
    unfold parseOnce
    simp [hparse, htype, hbytes]

/-- Packed requests parse to frames that have their content. -/
theorem frames_of_packed (hinv : cfg.codec.Inverts) {limit : UInt64}
    (hle : limit ≤ cfg.maxFrameBytes) {sent : List Message}
    (hsent : ∀ m ∈ sent, m.rpcMeta.msgType = .request
      ∧ (m.pack cfg.codec limit).ok = true) :
    ∃ fs, List.Forall₂ (fun buf f => cfg.loop.parse buf
        = .frame f buf.length)
        (sent.map fun m => (m.pack cfg.codec limit).out) fs
      ∧ List.Forall₂ Message.Is sent fs := by
  induction sent with
  | nil => exact ⟨[], .nil, .nil⟩
  | cons m sent ih =>
      obtain ⟨fs, hparse, his⟩ :=
        ih fun m' hm' => hsent m' (List.mem_cons_of_mem _ hm')
      obtain ⟨htype, hok⟩ := hsent m List.mem_cons_self
      obtain ⟨f, hf, hone⟩ := m.parse_pack hinv hle hok
      rw [htype] at hone
      exact ⟨f :: fs, .cons hone hparse, .cons hf his⟩

/-- **The server handles what its client sent.** If what was read is a
beginning of packed requests, however the network cut it, the requests
handed to `HandleRequest` are these, one by one and in order, and what
is left in the buffer is not rejected. -/
theorem requests_arrive (h : (connMachine cfg n).Reachable c)
    (hinv : cfg.codec.Inverts) {limit : UInt64}
    (hle : limit ≤ cfg.maxFrameBytes) (sent : List Message)
    (hsent : ∀ m ∈ sent, m.rpcMeta.msgType = .request
      ∧ (m.pack cfg.codec limit).ok = true)
    (hread : c.received
      <+: (sent.map fun m => (m.pack cfg.codec limit).out).flatten) :
    c.requests ≤ sent.length
      ∧ (∀ r < c.requests, ∃ m, sent[r]? = some m
        ∧ m.Is (c.calls r).frame)
      ∧ ∀ e, parseOnce cfg.codec cfg.maxFrameBytes .request c.recvBuffer
        ≠ .reject e := by
  have hstable : cfg.loop.Stable := frameLoop_stable ..
  have hnil : parseOnce cfg.codec cfg.maxFrameBytes .request [] = .more := by
    rw [parseOnce_more, tryParse_short cfg.codec (by decide)]
  obtain ⟨fs, hparse, his⟩ := frames_of_packed hinv hle hsent
  obtain ⟨hpre, rest, hrest⟩ :=
    cfg.loop.drain_arrived hstable hnil hparse hread
  rw [reach_incoming h] at hpre hrest
  have hframes : c.frames <+: fs := (List.prefix_append ..).trans hpre
  have hlen : c.frames.length = c.requests := by simp [Conn.frames]
  refine ⟨?_, ?_, ?_⟩
  · rw [← hlen, his.length_eq]
    exact hframes.length_le
  · intro r hr
    have hr' : r < c.frames.length := hlen ▸ hr
    have hfs : r < fs.length := hr'.trans_le hframes.length_le
    have hsent : r < sent.length := his.length_eq ▸ hfs
    have hframe : (c.calls r).frame = fs[r] := by
      rw [← hframes.getElem hr']
      simp [Conn.frames]
    refine ⟨sent[r], List.getElem?_eq_getElem hsent, ?_⟩
    rw [hframe]
    exact List.Forall₂.get his hsent hfs
  · intro e he
    -- a rejected buffer would stop the stream, whatever came after it
    have hstop := hstable.reject (c.io.flatMap IoOp.chunk) he
    rw [Framer.after, cfg.loop.drain_reject hstop] at hrest
    cases hrest

def pointRequest : Message :=
  { rpcMeta := { correlationId := 7 }
    body := [1, 2, 3]
    attachment := some [9, 9] }

/-- The request comes in two reads, cut within its body. -/
def pointActions : List ConnAction :=
  List.replicate 9 (.io .go) ++ [.dispatch]
    ++ List.replicate 5 (.io .go)
    ++ [.readDone (.data ((pointRequest.pack pointCodec 64).out.take 21))]
    ++ List.replicate 5 (.io .go)
    ++ [.readDone (.data ((pointRequest.pack pointCodec 64).out.drop 21))]
    ++ List.replicate 5 (.io .go)

def pointConn : Conn :=
  (connMachine { idleServer with codec := pointCodec } 0).final
    (pointActions.map fun a => ({}, a)) { io := [.accept .loadAccepting] }

theorem pointConn_request : pointConn.requests = 1
    ∧ ∃ m, [pointRequest][0]? = some m ∧ m.Is (pointConn.calls 0).frame :=
  ⟨by decide +kernel, (requests_arrive
    (Machine.reachable_final rfl (by decide +kernel)) pointCodec_inverts
    (show (64 : UInt64) ≤ 64 by decide) [pointRequest]
    (by decide +kernel) (by decide +kernel)).2.1 0 (by decide +kernel)⟩

end AntRpc.Server
