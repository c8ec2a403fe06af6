/-
The two receive loops as functions of the bytes read: the client's
(io_driver/channel_receive.hpp) and the server's
(server/server_connection.hpp). Both drain the buffer with the same
inner loop and differ in the message type they accept and in whether the
first thing they do is read or parse.

# What is left out here

The loops also stop when `running` is cleared or a read fails; that is
the connection machines' business. Here a loop runs until its reads are
used up or the stream is rejected, so its result is the frames handed
over and either the buffer it would read into next or the reason it
stopped.

# Cutting

`Framer.drain_append` is the whole argument: the parser's verdicts are
stable (`tryParse_append`), so each loop ends where one drain of all its
bytes ends (`channelReceive_drain`, `serverReceive_drain`).
-/
import AntRpc.Lib.Framing
import AntRpc.Protocol.Proofs.Parse

namespace AntRpc.Protocol

open AntRpc.Lib

/-- Why an inner loop gives up on the stream. -/
inductive StreamError where
  | invalidFrame (status : FrameParseStatus)
  | unexpectedType (msgType : RpcMessageType)
deriving DecidableEq, Repr

/-- One iteration of the inner loop, up to the `pop_front`: wait, give
up, or hand over the frame and pop its bytes. -/
def parseOnce (codec : MetaCodec) (maxFrameBytes : UInt64)
    (accepted : RpcMessageType) (buf : Bytes) :
    Verdict FrameParseResult StreamError :=
  let result := tryParseRpcFrame codec buf maxFrameBytes
  if result.status = .needMoreData then .more
  else if result.status ≠ .success then .reject (.invalidFrame result.status)
  else if result.rpcMeta.msgType ≠ accepted then
    .reject (.unexpectedType result.rpcMeta.msgType)
  else .frame result result.totalFrameBytes.toNat

/-- An iteration that hands over a frame, inverted. -/
theorem parseOnce_frame {codec : MetaCodec} {limit : UInt64}
    {accepted : RpcMessageType} {buf : Bytes} {f : FrameParseResult}
    {n : Nat} (h : parseOnce codec limit accepted buf = .frame f n) :
    f = tryParseRpcFrame codec buf limit ∧ f.status = .success
      ∧ f.rpcMeta.msgType = accepted ∧ n = f.totalFrameBytes.toNat := by
  unfold parseOnce at h
  simp only at h
  split_ifs at h with h1 h2 h3
  injection h with hf hn
  subst hf
  exact ⟨rfl, not_not.mp h2, not_not.mp h3, hn.symm⟩

/-- The inner loop's parser: a frame handed over is non-empty and inside
the buffer, so the loop terminates. -/
def frameLoop (codec : MetaCodec) (maxFrameBytes : UInt64)
    (accepted : RpcMessageType) :
    Framer UInt8 FrameParseResult StreamError where
  parse := parseOnce codec maxFrameBytes accepted
  frame_pos := by
    intro buf f n h
    obtain ⟨rfl, hs, -, rfl⟩ := parseOnce_frame h
    obtain ⟨htotal, hpos, -⟩ := tryParse_success_size codec hs
    omega
  frame_le := by
    intro buf f n h
    obtain ⟨rfl, hs, -, rfl⟩ := parseOnce_frame h
    obtain ⟨htotal, -, hle⟩ := tryParse_success_size codec hs
    omega

/-- A waiting iteration is a waiting parser. -/
theorem parseOnce_more {codec : MetaCodec} {limit : UInt64}
    {accepted : RpcMessageType} {buf : Bytes} :
    parseOnce codec limit accepted buf = .more
      ↔ (tryParseRpcFrame codec buf limit).status = .needMoreData := by
  unfold parseOnce
  simp only
  constructor
  · intro h
    split_ifs at h with h1
    exact h1
  · intro h
    rw [if_pos h]

/-- The verdict reads the parse result only, and that is stable. -/
theorem parseOnce_append {codec : MetaCodec} {limit : UInt64}
    {accepted : RpcMessageType} {buf : Bytes}
    {v : Verdict FrameParseResult StreamError}
    (h : parseOnce codec limit accepted buf = v) (hv : v ≠ .more)
    (ext : Bytes) : parseOnce codec limit accepted (buf ++ ext) = v := by
  have hs : (tryParseRpcFrame codec buf limit).status ≠ .needMoreData :=
    fun hm => hv (h.symm.trans (parseOnce_more.mpr hm))
  rw [← h]
  unfold parseOnce
  rw [tryParse_append codec hs ext]

theorem frameLoop_stable (codec : MetaCodec) (limit : UInt64)
    (accepted : RpcMessageType) :
    (frameLoop codec limit accepted).Stable where
  frame ext h := parseOnce_append h nofun ext
  reject ext h := parseOnce_append h nofun ext

-- == the loops

variable (codec : MetaCodec) (maxFrameBytes : UInt64)

/-- The client's loop: read, drain, and back to reading unless the
stream was rejected. -/
def channelReceive (recvBuffer : Bytes) :
    List Bytes → List FrameParseResult × Rest UInt8 StreamError
  | [] => ([], .pending recvBuffer)
  | chunk :: reads =>
      let drained :=
        (frameLoop codec maxFrameBytes .response).drain (recvBuffer ++ chunk)
      match drained.2 with
      | .stopped e => (drained.1, .stopped e)
      | .pending rest =>
          let later := channelReceive rest reads
          (drained.1 ++ later.1, later.2)

/-- The server's loop: drain first, then read. -/
def serverReceive (recvBuffer : Bytes) :
    List Bytes → List FrameParseResult × Rest UInt8 StreamError
  | [] => (frameLoop codec maxFrameBytes .request).drain recvBuffer
  | chunk :: reads =>
      let drained :=
        (frameLoop codec maxFrameBytes .request).drain recvBuffer
      match drained.2 with
      | .stopped e => (drained.1, .stopped e)
      | .pending rest =>
          let later := serverReceive (rest ++ chunk) reads
          (drained.1 ++ later.1, later.2)

/-- The client's loop, entered with a buffer the parser waits on, ends
where one drain of all its bytes ends. Induction over the reads; the
remainder of each drain is again a buffer the parser waits on. -/
theorem channelReceive_drain {recvBuffer : Bytes} (reads : List Bytes)
    (hmore : (tryParseRpcFrame codec recvBuffer maxFrameBytes).status
      = .needMoreData) :
    channelReceive codec maxFrameBytes recvBuffer reads
      = (frameLoop codec maxFrameBytes .response).drain
          (recvBuffer ++ reads.flatten) := by
  induction reads generalizing recvBuffer with
  | nil =>
      rw [List.flatten_nil, List.append_nil,
        Framer.drain_more _ (parseOnce_more.mpr hmore)]
      rfl
  | cons chunk reads ih =>
      rw [List.flatten_cons, ← List.append_assoc,
        Framer.drain_append _ (frameLoop_stable ..)]
      unfold channelReceive Framer.resume
      simp only
      split
      · next e he => rw [he]
      · next rest hrest =>
        have hwait := Framer.drain_pending _ _ rest hrest
        rw [hrest, ih (parseOnce_more.mp hwait)]

/-- The server's loop ends where one drain of all its bytes ends. -/
theorem serverReceive_drain (recvBuffer : Bytes) (reads : List Bytes) :
    serverReceive codec maxFrameBytes recvBuffer reads
      = (frameLoop codec maxFrameBytes .request).drain
          (recvBuffer ++ reads.flatten) := by
  induction reads generalizing recvBuffer with
  | nil =>
      rw [List.flatten_nil, List.append_nil]
      rfl
  | cons chunk reads ih =>
      rw [List.flatten_cons, Framer.drain_append _ (frameLoop_stable ..)]
      unfold serverReceive Framer.resume
      simp only
      split
      · next e he => rw [he]
      · next rest hrest => rw [hrest, ih, List.append_assoc]

/-- A remainder of a drain is shorter than a header or than the
limit. -/
theorem drain_pending_length {accepted : RpcMessageType} {buf rest : Bytes}
    (h : ((frameLoop codec maxFrameBytes accepted).drain buf).2
      = .pending rest) :
    rest.length < max kRpcHeaderBytes maxFrameBytes.toNat :=
  tryParse_needMore_length codec
    (parseOnce_more.mp (Framer.drain_pending _ _ rest h))

/-- **The loops do not see how the stream was cut.** Both receive loops
hand over the same frames and end in the same error or remainder for
every cut of a stream; a frame taken off strictly shortens the buffer;
a loop that goes back to reading holds fewer than
`max(16, max_frame_bytes)` bytes; a verdict of the parser survives
every extension of the buffer; and from wherever a loop reads on, it ends
where one drain of all its bytes ends. -/
theorem receive_chunking :
    (∀ chunks : List Bytes,
        channelReceive codec maxFrameBytes [] chunks
          = channelReceive codec maxFrameBytes [] [chunks.flatten]
        ∧ serverReceive codec maxFrameBytes [] chunks
          = serverReceive codec maxFrameBytes [] [chunks.flatten])
      ∧ (∀ buf : Bytes,
          (tryParseRpcFrame codec buf maxFrameBytes).status = .success →
          (buf.drop (tryParseRpcFrame codec buf
            maxFrameBytes).totalFrameBytes.toNat).length < buf.length)
      ∧ (∀ (chunks : List Bytes) (rest : Bytes),
          (channelReceive codec maxFrameBytes [] chunks).2 = .pending rest
            ∨ (serverReceive codec maxFrameBytes [] chunks).2
                = .pending rest →
          rest.length < max 16 maxFrameBytes.toNat)
      ∧ (∀ buf ext : Bytes,
          (tryParseRpcFrame codec buf maxFrameBytes).status
            ≠ .needMoreData →
          tryParseRpcFrame codec (buf ++ ext) maxFrameBytes
            = tryParseRpcFrame codec buf maxFrameBytes)
      ∧ (∀ (recvBuffer : Bytes) (reads : List Bytes),
          (tryParseRpcFrame codec recvBuffer maxFrameBytes).status
            = .needMoreData →
          channelReceive codec maxFrameBytes recvBuffer reads
            = (frameLoop codec maxFrameBytes .response).drain
              (recvBuffer ++ reads.flatten))
      ∧ ∀ (recvBuffer : Bytes) (reads : List Bytes),
          serverReceive codec maxFrameBytes recvBuffer reads
            = (frameLoop codec maxFrameBytes .request).drain
              (recvBuffer ++ reads.flatten) := by
  have hnil : (tryParseRpcFrame codec [] maxFrameBytes).status
      = .needMoreData := by
    rw [tryParse_short codec (by decide)]
  refine ⟨?_, ?_, ?_, ?_,
    fun _ => channelReceive_drain codec maxFrameBytes,
    serverReceive_drain codec maxFrameBytes⟩
  · intro chunks
    constructor
    · rw [channelReceive_drain _ _ _ hnil, channelReceive_drain _ _ _ hnil]
      simp
    · rw [serverReceive_drain, serverReceive_drain]
      simp
  · intro buf hs
    obtain ⟨htotal, hpos, hle⟩ := tryParse_success_size codec hs
    rw [List.length_drop]
    omega
  · intro chunks rest h
    rw [channelReceive_drain _ _ _ hnil, serverReceive_drain] at h
    exact h.elim (drain_pending_length codec maxFrameBytes)
      (drain_pending_length codec maxFrameBytes)
  · intro buf ext hs
    exact tryParse_append codec hs ext

end AntRpc.Protocol
