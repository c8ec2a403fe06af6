/-
`tryParseRpcFrame` read as a decision list: the header checks in the
order the source makes them (`headerError`), then the length of the
frame, then the meta, then the attachment boundary. Every other fact
about the parser is a fact about one entry of that list.

# No wrap

The 64-bit sums and differences of the source never wrap on 32-bit
lengths: `totalNeeded_toNat` turns the frame size into the exact sum and
`fits_iff` turns the two-step limit test into one comparison of exact
integers. The overflow guard in between is dead code on a 64-bit
`size_t` (`overflow_guard_false`).

# Stability

A verdict other than "need more data" reads only the frame itself, so
it survives every extension of the buffer (`tryParse_append`).
-/
import AntRpc.Protocol.Basic

namespace AntRpc.Protocol

-- == 64-bit sizes, exactly

/-- The exact size of the frame a header announces. -/
def frameBytes (h : RpcHeader) : Nat :=
  kRpcHeaderBytes + h.metaLen.toNat + h.bodyLen.toNat

theorem payload_toNat (h : RpcHeader) :
    (h.metaLen.toUInt64 + h.bodyLen.toUInt64).toNat
      = h.metaLen.toNat + h.bodyLen.toNat := by
  have h1 := h.metaLen.toNat_lt
  have h2 := h.bodyLen.toNat_lt
  rw [UInt64.toNat_add, UInt32.toNat_toUInt64, UInt32.toNat_toUInt64]
  omega

theorem totalNeeded_toNat (h : RpcHeader) :
    (UInt64.ofNat kRpcHeaderBytes
        + (h.metaLen.toUInt64 + h.bodyLen.toUInt64)).toNat
      = frameBytes h := by
  have h1 := h.metaLen.toNat_lt
  have h2 := h.bodyLen.toNat_lt
  have hk : (UInt64.ofNat kRpcHeaderBytes).toNat = 16 := rfl
  rw [UInt64.toNat_add, payload_toNat, hk, frameBytes, kRpcHeaderBytes]
  omega

/-- The source's overflow guard never fires on 32-bit lengths. -/
theorem overflow_guard_false (h : RpcHeader) :
    ¬ h.metaLen.toUInt64 > 0xFFFFFFFFFFFFFFFF - h.bodyLen.toUInt64 := by
  have h1 := h.metaLen.toNat_lt
  have h2 := h.bodyLen.toNat_lt
  have hmax : (0xFFFFFFFFFFFFFFFF : UInt64).toNat = 2 ^ 64 - 1 := rfl
  rw [gt_iff_lt, UInt64.lt_iff_toNat_lt, UInt64.toNat_sub_of_le, hmax,
    UInt32.toNat_toUInt64, UInt32.toNat_toUInt64]
  · omega
  · rw [UInt64.le_iff_toNat_le, hmax, UInt32.toNat_toUInt64]
    omega

/-- The two-step limit test is one comparison of exact integers. -/
theorem fits_iff (payload limit : UInt64) :
    ¬ (payload > limit
        ∨ UInt64.ofNat kRpcHeaderBytes > limit - payload)
      ↔ kRpcHeaderBytes + payload.toNat ≤ limit.toNat := by
  have hk : (UInt64.ofNat kRpcHeaderBytes).toNat = 16 := rfl
  rw [not_or, gt_iff_lt, gt_iff_lt, UInt64.not_lt, UInt64.not_lt,
    UInt64.le_iff_toNat_le, UInt64.le_iff_toNat_le, hk, kRpcHeaderBytes]
  constructor
  · rintro ⟨h1, h2⟩
    rw [UInt64.toNat_sub_of_le _ _ (UInt64.le_iff_toNat_le.mpr h1)] at h2
    omega
  · intro h
    have h1 : payload.toNat ≤ limit.toNat := by omega
    refine ⟨h1, ?_⟩
    rw [UInt64.toNat_sub_of_le _ _ (UInt64.le_iff_toNat_le.mpr h1)]
    omega

/-- The parser's limit test on a header, exactly. -/
theorem header_fits_iff (h : RpcHeader) (limit : UInt64) :
    (h.metaLen.toUInt64 + h.bodyLen.toUInt64 > limit
        ∨ UInt64.ofNat kRpcHeaderBytes
            > limit - (h.metaLen.toUInt64 + h.bodyLen.toUInt64))
      ↔ limit.toNat < frameBytes h := by
  have hfit := fits_iff (h.metaLen.toUInt64 + h.bodyLen.toUInt64) limit
  rw [payload_toNat, ← Nat.add_assoc] at hfit
  rw [← not_iff_not, hfit, Nat.not_lt, frameBytes]

-- == the decision list

/-- The first violated header check, in source order. -/
def headerError (h : RpcHeader) (maxFrameBytes : UInt64) :
    Option FrameParseStatus :=
  if h.magic ≠ kMagic then some .errorMagicMismatch
  else if wireVersion h.flags ≠ kRpcWireVersion then
    some .errorUnsupportedVersion
  else if wireFeatures h.flags &&& ~~~kKnownWireFeatures ≠ 0 then
    some .errorUnsupportedFlags
  else if h.metaLen = 0 then some .errorInvalidLength
  else if maxFrameBytes.toNat < frameBytes h then some .errorFrameTooLarge
  else none

/-- The result a header error returns: a magic mismatch reports no
header, every later check does. -/
def headerErrorResult (h : RpcHeader) (e : FrameParseStatus) :
    FrameParseResult :=
  if e = .errorMagicMismatch then { status := e }
  else { status := e, header := h }

theorem headerErrorResult_status (h : RpcHeader) (e : FrameParseStatus) :
    (headerErrorResult h e).status = e := by
  unfold headerErrorResult
  split <;> rfl

/-- A header check neither accepts nor waits. -/
theorem headerError_isError {h : RpcHeader} {limit : UInt64}
    {e : FrameParseStatus} (he : headerError h limit = some e) :
    e ≠ .success ∧ e ≠ .needMoreData := by
  unfold headerError at he
  split_ifs at he <;> injection he with he <;> subst he <;> decide

/-- The regions of a complete frame with parsed meta. -/
def splitFrame (buf : Bytes) (h : RpcHeader) (parsed : RpcMeta) :
    FrameParseResult :=
  let protoBodyLen := h.bodyLen - parsed.attachmentSize
  let bodyOffset := kRpcHeaderBytes + h.metaLen.toNat
  { status := .success
    totalFrameBytes := UInt64.ofNat kRpcHeaderBytes
      + (h.metaLen.toUInt64 + h.bodyLen.toUInt64)
    header := h
    rpcMeta := parsed
    bodyIobuf := (buf.drop bodyOffset).take protoBodyLen.toNat
    attachmentIobuf := (buf.drop (bodyOffset + protoBodyLen.toNat)).take
      parsed.attachmentSize.toNat }

/-- What follows the header checks: the length of the frame, the meta,
the attachment boundary. -/
def afterHeader (codec : MetaCodec) (buf : Bytes) (h : RpcHeader) :
    FrameParseResult :=
  let total := UInt64.ofNat kRpcHeaderBytes
    + (h.metaLen.toUInt64 + h.bodyLen.toUInt64)
  if buf.length < frameBytes h then
    { status := .needMoreData, totalFrameBytes := total, header := h }
  else
    match codec.parse ((buf.drop kRpcHeaderBytes).take h.metaLen.toNat) with
    | none =>
        { status := .errorCorruptedFrame, totalFrameBytes := total,
          header := h }
    | some parsed =>
        if parsed.attachmentSize > h.bodyLen then
          { status := .errorInvalidLength, totalFrameBytes := total,
            header := h }
        else splitFrame buf h parsed

variable (codec : MetaCodec) {buf : Bytes} {limit : UInt64}

theorem tryParse_short (hlen : buf.length < kRpcHeaderBytes) :
    tryParseRpcFrame codec buf limit = { status := .needMoreData } := by
  rw [tryParseRpcFrame, if_pos hlen]

/-- A buffer with a bad header is rejected with the first violated
check, whatever follows. -/
theorem tryParse_headerError {e : FrameParseStatus}
    (hlen : ¬ buf.length < kRpcHeaderBytes)
    (he : headerError (readHeader buf) limit = some e) :
    tryParseRpcFrame codec buf limit
      = headerErrorResult (readHeader buf) e := by
  unfold headerError at he
  rw [tryParseRpcFrame, if_neg hlen]
  unfold headerErrorResult
  split at he
  · next hm => injection he with he; subst he; rw [if_pos hm]; rfl
  · next hm =>
    rw [if_neg hm]
    split at he
    · next hv => injection he with he; subst he; rw [if_pos hv]; rfl
    · next hv =>
      rw [if_neg hv]
      split at he
      · next hf => injection he with he; subst he; rw [if_pos hf]; rfl
      · next hf =>
        rw [if_neg hf]
        split at he
        · next hz => injection he with he; subst he; rw [if_pos hz]; rfl
        · next hz =>
          rw [if_neg hz, if_neg (overflow_guard_false _)]
          split at he
          · next hbig =>
            injection he with he
            subst he
            rw [if_pos ((header_fits_iff _ _).mpr hbig)]
            rfl
          · cases he

/-- The source skips the copy of an empty region; a `take 0` is the same
empty buffer. -/
theorem take_if_ne_zero (n : UInt32) (l : Bytes) :
    (if n ≠ 0 then l.take n.toNat else []) = l.take n.toNat := by
  by_cases h : n = 0
  · subst h
    simp
  · rw [if_pos h]

/-- Past the header checks the parser is `afterHeader`. -/
theorem tryParse_afterHeader (hlen : ¬ buf.length < kRpcHeaderBytes)
    (he : headerError (readHeader buf) limit = none) :
    tryParseRpcFrame codec buf limit
      = afterHeader codec buf (readHeader buf) := by
  unfold headerError at he
  split at he
  · cases he
  · next hm =>
    split at he
    · cases he
    · next hv =>
      split at he
      · cases he
      · next hf =>
        split at he
        · cases he
        · next hz =>
          split at he
          · cases he
          · next hbig =>
            rw [tryParseRpcFrame, if_neg hlen, if_neg hm, if_neg hv,
              if_neg hf, if_neg hz, if_neg (overflow_guard_false _),
              if_neg (fun hc => hbig ((header_fits_iff _ _).mp hc))]
            simp only [totalNeeded_toNat, take_if_ne_zero]
            rfl

-- == stability

/-- The header is read from the first 16 bytes. -/
theorem readHeader_append (hlen : ¬ buf.length < kRpcHeaderBytes)
    (ext : Bytes) : readHeader (buf ++ ext) = readHeader buf := by
  unfold readHeader
  rw [List.take_append_of_le_length (Nat.le_of_not_lt hlen)]

/-- A region inside the buffer is unchanged by an extension. -/
theorem region_append {i n : Nat} (h : i + n ≤ buf.length) (ext : Bytes) :
    ((buf ++ ext).drop i).take n = (buf.drop i).take n := by
  rw [List.drop_append_of_le_length (by omega),
    List.take_append_of_le_length (by rw [List.length_drop]; omega)]

/-- Header and regions of a complete frame do not see what follows the
frame. -/
theorem afterHeader_append (h : RpcHeader)
    (hlen : ¬ buf.length < frameBytes h) (ext : Bytes) :
    afterHeader codec (buf ++ ext) h = afterHeader codec buf h := by
  have hge : frameBytes h ≤ buf.length := Nat.le_of_not_lt hlen
  unfold frameBytes at hge
  unfold afterHeader
  rw [if_neg hlen, if_neg (by rw [List.length_append]; omega),
    region_append (by omega)]
  split
  · rfl
  · next parsed _ =>
    split
    · rfl
    · next hle =>
      have hle' : parsed.attachmentSize ≤ h.bodyLen := UInt32.not_lt.mp hle
      have hsub := UInt32.toNat_sub_of_le _ _ hle'
      have hnat := UInt32.le_iff_toNat_le.mp hle'
      unfold splitFrame
      simp only
      rw [region_append (by omega), region_append (by omega)]

/-- A success or an error on a buffer is the result on every extension
of the buffer. -/
theorem tryParse_append
    (hs : (tryParseRpcFrame codec buf limit).status ≠ .needMoreData)
    (ext : Bytes) :
    tryParseRpcFrame codec (buf ++ ext) limit
      = tryParseRpcFrame codec buf limit := by
  by_cases hlen : buf.length < kRpcHeaderBytes
  · rw [tryParse_short codec hlen] at hs
    exact absurd rfl hs
  · have hlen' : ¬ (buf ++ ext).length < kRpcHeaderBytes := by
      rw [List.length_append]
      omega
    have hr := readHeader_append hlen ext
    have hr' : headerError (readHeader (buf ++ ext)) limit
        = headerError (readHeader buf) limit := by rw [hr]
    cases he : headerError (readHeader buf) limit with
    | some e =>
        rw [tryParse_headerError codec hlen he,
          tryParse_headerError codec hlen' (hr'.trans he), hr]
    | none =>
        rw [tryParse_afterHeader codec hlen he] at hs ⊢
        rw [tryParse_afterHeader codec hlen' (hr'.trans he), hr]
        apply afterHeader_append
        intro hshort
        unfold afterHeader at hs
        rw [if_pos hshort] at hs
        exact hs rfl

-- == success and waiting

/-- A recognised frame is the complete `splitFrame` of its buffer, and
it is inside the limit. -/
theorem tryParse_success
    (hs : (tryParseRpcFrame codec buf limit).status = .success) :
    ∃ parsed, headerError (readHeader buf) limit = none
      ∧ frameBytes (readHeader buf) ≤ buf.length
      ∧ codec.parse ((buf.drop kRpcHeaderBytes).take
          (readHeader buf).metaLen.toNat) = some parsed
      ∧ parsed.attachmentSize ≤ (readHeader buf).bodyLen
      ∧ tryParseRpcFrame codec buf limit
          = splitFrame buf (readHeader buf) parsed := by
  by_cases hlen : buf.length < kRpcHeaderBytes
  · rw [tryParse_short codec hlen] at hs
    cases hs
  · cases he : headerError (readHeader buf) limit with
    | some e =>
        rw [tryParse_headerError codec hlen he,
          headerErrorResult_status] at hs
        exact absurd hs (headerError_isError he).1
    | none =>
        rw [tryParse_afterHeader codec hlen he] at hs ⊢
        unfold afterHeader at hs ⊢
        split at hs
        · cases hs
        · next hfull =>
          rw [if_neg hfull]
          split at hs
          · cases hs
          · next parsed hparse =>
            split at hs
            · cases hs
            · next hle =>
              refine ⟨parsed, rfl, Nat.le_of_not_lt hfull, hparse,
                UInt32.not_lt.mp hle, ?_⟩
              exact if_neg hle

/-- A recognised frame has the announced size: non-empty and inside the
buffer. -/
theorem tryParse_success_size
    (hs : (tryParseRpcFrame codec buf limit).status = .success) :
    (tryParseRpcFrame codec buf limit).totalFrameBytes.toNat
        = frameBytes (readHeader buf)
      ∧ 0 < frameBytes (readHeader buf)
      ∧ frameBytes (readHeader buf) ≤ buf.length := by
  obtain ⟨parsed, -, hle, -, -, heq⟩ := tryParse_success codec hs
  refine ⟨?_, ?_, hle⟩
  · rw [heq]
    exact totalNeeded_toNat _
  · unfold frameBytes kRpcHeaderBytes
    omega

/-- A buffer the parser wants more of is shorter than a header or
shorter than the limit. -/
theorem tryParse_needMore_length
    (hs : (tryParseRpcFrame codec buf limit).status = .needMoreData) :
    buf.length < max kRpcHeaderBytes limit.toNat := by
  by_cases hlen : buf.length < kRpcHeaderBytes
  · exact Nat.lt_of_lt_of_le hlen (Nat.le_max_left _ _)
  · refine Nat.lt_of_lt_of_le ?_ (Nat.le_max_right _ _)
    cases he : headerError (readHeader buf) limit with
    | some e =>
        rw [tryParse_headerError codec hlen he,
          headerErrorResult_status] at hs
        exact absurd hs (headerError_isError he).2
    | none =>
        rw [tryParse_afterHeader codec hlen he] at hs
        have hfit : frameBytes (readHeader buf) ≤ limit.toNat := by
          unfold headerError at he
          split_ifs at he with h1 h2 h3 h4 h5
          omega
        unfold afterHeader at hs
        split at hs
        · omega
        · split at hs
          · cases hs
          · split at hs <;> cases hs

end AntRpc.Protocol
