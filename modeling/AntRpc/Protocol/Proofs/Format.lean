/-
The parser and the packer against the V1 format.

# The parser

The parser's header fields are the format's numbers (`readHeader_bodyLen`
and its companions), its limit test is the format's comparison
(`header_fits_iff`), so its decision list is the format's list of checks
with one question more: whether the frame has arrived, which is asked
after the header's checks and before the payload's.

# The packer

The packer's three tests are one statement about exact sizes
(`pack_of_sizes`); the header's fields are narrowed from numbers that
fit.
-/
import AntRpc.Protocol.Format
import AntRpc.Protocol.Proofs.RoundTrip

namespace AntRpc.Protocol

open Lib

variable {codec : MetaCodec} {buf : Bytes} {limit : UInt64}

-- == header

/-- A buffer with a header, byte by byte. -/
theorem header_bytes (hlen : kRpcHeaderBytes ≤ buf.length) :
    ∃ b₀ b₁ b₂ b₃ b₄ b₅ b₆ b₇ b₈ b₉ b₁₀ b₁₁ b₁₂ b₁₃ b₁₄ b₁₅ rest,
      buf = [b₀, b₁, b₂, b₃, b₄, b₅, b₆, b₇, b₈, b₉, b₁₀, b₁₁, b₁₂, b₁₃,
        b₁₄, b₁₅] ++ rest := by
  unfold kRpcHeaderBytes at hlen
  match buf, hlen with
  | b₀ :: b₁ :: b₂ :: b₃ :: b₄ :: b₅ :: b₆ :: b₇ :: b₈ :: b₉ :: b₁₀ :: b₁₁
      :: b₁₂ :: b₁₃ :: b₁₄ :: b₁₅ :: rest, _ =>
      exact ⟨b₀, b₁, b₂, b₃, b₄, b₅, b₆, b₇, b₈, b₉, b₁₀, b₁₁, b₁₂, b₁₃,
        b₁₄, b₁₅, rest, rfl⟩

theorem readHeader_bodyLen (hlen : kRpcHeaderBytes ≤ buf.length) :
    (readHeader buf).bodyLen.toNat = V1.bodyLen buf := by
  obtain ⟨_, _, _, _, _, _, _, _, _, _, _, _, _, _, _, _, _, rfl⟩ :=
    header_bytes hlen
  exact be32_toNat _ _ _ _

theorem readHeader_metaLen (hlen : kRpcHeaderBytes ≤ buf.length) :
    (readHeader buf).metaLen.toNat = V1.metaLen buf := by
  obtain ⟨_, _, _, _, _, _, _, _, _, _, _, _, _, _, _, _, _, rfl⟩ :=
    header_bytes hlen
  exact be32_toNat _ _ _ _

/-- The magic and the flags as numbers. -/
theorem readHeader_words (hlen : kRpcHeaderBytes ≤ buf.length) :
    (readHeader buf).magic.toNat = beNat (buf.take 4)
      ∧ (readHeader buf).flags.toNat = beNat ((buf.drop 12).take 4) := by
  obtain ⟨_, _, _, _, _, _, _, _, _, _, _, _, _, _, _, _, _, rfl⟩ :=
    header_bytes hlen
  exact ⟨be32_toNat _ _ _ _, be32_toNat _ _ _ _⟩

/-- Four bytes are the magic exactly if their number is. -/
theorem beNat_magic (a b c d : UInt8) :
    beNat [a, b, c, d] = kMagic.toNat ↔ [a, b, c, d] = V1.magic := by
  have ha := a.toNat_lt
  have hb := b.toNat_lt
  have hc := c.toNat_lt
  have hd := d.toNat_lt
  have hmagic : kMagic.toNat = 1095652434 := by decide
  rw [beNat_four, hmagic]
  simp only [V1.magic, List.cons.injEq, and_true, ← UInt8.toNat_inj,
    UInt8.reduceToNat]
  omega

theorem readHeader_magic (hlen : kRpcHeaderBytes ≤ buf.length) :
    (readHeader buf).magic = kMagic ↔ buf.take 4 = V1.magic := by
  rw [← UInt32.toNat_inj, (readHeader_words hlen).1]
  obtain ⟨a, b, c, d, _, _, _, _, _, _, _, _, _, _, _, _, _, rfl⟩ :=
    header_bytes hlen
  exact beNat_magic a b c d

/-- The version is the first byte of the flags. -/
theorem wireVersion_toNat {flags : UInt32} {a b c d : UInt8}
    (h : flags.toNat = beNat [a, b, c, d]) :
    wireVersion flags = kRpcWireVersion ↔ a = 1 := by
  have ha := a.toNat_lt
  have hb := b.toNat_lt
  have hc := c.toNat_lt
  have hd := d.toNat_lt
  rw [beNat_four] at h
  have hversion : (wireVersion flags).toNat = a.toNat := by
    rw [wireVersion, UInt32.toNat_toUInt8, UInt32.toNat_shiftRight, h,
      Nat.shiftRight_eq_div_pow, show kWireVersionShift.toNat % 32 = 24 from rfl]
    omega
  rw [← UInt8.toNat_inj, hversion, ← UInt8.toNat_inj]
  rfl

/-- The features are the other three. -/
theorem wireFeatures_toNat {flags : UInt32} {a b c d : UInt8}
    (h : flags.toNat = beNat [a, b, c, d]) :
    wireFeatures flags &&& ~~~kKnownWireFeatures = 0
      ↔ b = 0 ∧ c = 0 ∧ d = 0 := by
  have hb := b.toNat_lt
  have hc := c.toNat_lt
  have hd := d.toNat_lt
  rw [beNat_four] at h
  have hmask : kWireFeatureMask.toNat = 2 ^ 24 - 1 := by decide
  have hall : (~~~kKnownWireFeatures).toNat = 2 ^ 32 - 1 := by decide
  have hfeatures : (wireFeatures flags &&& ~~~kKnownWireFeatures).toNat
      = 2 ^ 16 * b.toNat + 2 ^ 8 * c.toNat + d.toNat := by
    rw [wireFeatures, UInt32.toNat_and, UInt32.toNat_and, h, hmask, hall,
      Nat.and_two_pow_sub_one_eq_mod, Nat.and_two_pow_sub_one_eq_mod]
    omega
  have hzero : (0 : UInt32).toNat = 0 := rfl
  have hzero' : (0 : UInt8).toNat = 0 := rfl
  rw [← UInt32.toNat_inj, hfeatures, hzero, ← UInt8.toNat_inj,
    ← UInt8.toNat_inj, ← UInt8.toNat_inj, hzero']
  omega

theorem readHeader_version (hlen : kRpcHeaderBytes ≤ buf.length) :
    wireVersion (readHeader buf).flags = kRpcWireVersion
      ↔ (buf.drop 12).take 1 = [1] := by
  have hflags := (readHeader_words hlen).2
  generalize (readHeader buf).flags = flags at hflags ⊢
  obtain ⟨_, _, _, _, _, _, _, _, _, _, _, _, a, b, c, d, _, rfl⟩ :=
    header_bytes hlen
  rw [wireVersion_toNat hflags]
  simp

theorem readHeader_features (hlen : kRpcHeaderBytes ≤ buf.length) :
    wireFeatures (readHeader buf).flags &&& ~~~kKnownWireFeatures = 0
      ↔ (buf.drop 13).take 3 = [0, 0, 0] := by
  have hflags := (readHeader_words hlen).2
  generalize (readHeader buf).flags = flags at hflags ⊢
  obtain ⟨_, _, _, _, _, _, _, _, _, _, _, _, a, b, c, d, _, rfl⟩ :=
    header_bytes hlen
  rw [wireFeatures_toNat hflags]
  simp

theorem readHeader_size (hlen : kRpcHeaderBytes ≤ buf.length) :
    frameBytes (readHeader buf) = V1.size buf := by
  rw [frameBytes, readHeader_bodyLen hlen, readHeader_metaLen hlen]
  rfl

theorem readHeader_metaLen_zero (hlen : kRpcHeaderBytes ≤ buf.length) :
    (readHeader buf).metaLen = 0 ↔ V1.metaLen buf = 0 := by
  rw [← readHeader_metaLen hlen, ← UInt32.toNat_inj]
  rfl

/-- The header checks of the parser are those of the format. -/
theorem headerError_none_iff (hlen : kRpcHeaderBytes ≤ buf.length) :
    headerError (readHeader buf) limit = none
      ↔ V1.HeaderOk limit.toNat buf := by
  have hmagic := readHeader_magic hlen
  have hversion := readHeader_version hlen
  have hfeatures := readHeader_features hlen
  have hzero := readHeader_metaLen_zero hlen
  have hsize := readHeader_size hlen
  unfold headerError
  constructor
  · intro h
    split_ifs at h with h1 h2 h3 h4 h5
    rw [not_not] at h1 h2 h3
    refine ⟨hmagic.1 h1, hversion.1 h2, hfeatures.1 h3, ?_, ?_⟩
    · exact Nat.pos_of_ne_zero fun hz => h4 (hzero.2 hz)
    · rw [← hsize]
      exact Nat.le_of_not_lt h5
  · intro h
    rw [if_neg (not_not.2 (hmagic.2 h.magic)),
      if_neg (not_not.2 (hversion.2 h.version)),
      if_neg (not_not.2 (hfeatures.2 h.features)),
      if_neg (fun hz => h.metaLen.ne' (hzero.1 hz)), if_neg]
    rw [hsize]
    exact Nat.not_lt.2 h.size

/-- The list of checks, read from the front. -/
theorem firstViolated_eq (n : Nat) :
    V1.firstViolated codec n buf
      = if buf.take 4 ≠ V1.magic then some .errorMagicMismatch
        else if (buf.drop 12).take 1 ≠ [1] then some .errorUnsupportedVersion
        else if (buf.drop 13).take 3 ≠ [0, 0, 0] then
          some .errorUnsupportedFlags
        else if V1.metaLen buf = 0 then some .errorInvalidLength
        else if n < V1.size buf then some .errorFrameTooLarge
        else if codec.parse (V1.metaRegion buf) = none then
          some .errorCorruptedFrame
        else if (codec.parse (V1.metaRegion buf)).any
            (fun m => V1.bodyLen buf < m.attachmentSize.toNat) = true then
          some .errorInvalidLength
        else none := by
  unfold V1.firstViolated V1.checks
  simp only [List.find?_cons, List.find?_nil]
  by_cases h1 : buf.take 4 ≠ V1.magic
  · rw [if_pos h1, decide_eq_true h1]
    rfl
  rw [if_neg h1, decide_eq_false h1]
  by_cases h2 : (buf.drop 12).take 1 ≠ [1]
  · rw [if_pos h2, decide_eq_true h2]
    rfl
  rw [if_neg h2, decide_eq_false h2]
  by_cases h3 : (buf.drop 13).take 3 ≠ [0, 0, 0]
  · rw [if_pos h3, decide_eq_true h3]
    rfl
  rw [if_neg h3, decide_eq_false h3]
  by_cases h4 : V1.metaLen buf = 0
  · rw [if_pos h4, decide_eq_true h4]
    rfl
  rw [if_neg h4, decide_eq_false h4]
  by_cases h5 : n < V1.size buf
  · rw [if_pos h5, decide_eq_true h5]
    rfl
  rw [if_neg h5, decide_eq_false h5]
  by_cases h6 : codec.parse (V1.metaRegion buf) = none
  · rw [if_pos h6, decide_eq_true h6]
    rfl
  rw [if_neg h6, decide_eq_false h6]
  cases (codec.parse (V1.metaRegion buf)).any
      fun m => V1.bodyLen buf < m.attachmentSize.toNat with
  | true => rfl
  | false => rfl

/-- The first header check that fails, in the format's order. -/
theorem headerError_violated {e : FrameParseStatus}
    (hlen : kRpcHeaderBytes ≤ buf.length)
    (he : headerError (readHeader buf) limit = some e) :
    V1.firstViolated codec limit.toNat buf = some e := by
  rw [firstViolated_eq]
  unfold headerError at he
  split at he
  · next h1 => rw [if_pos (mt (readHeader_magic hlen).2 h1)]; exact he
  next h1 =>
  rw [if_neg (not_not.2 ((readHeader_magic hlen).1 (not_not.1 h1)))]
  split at he
  · next h2 => rw [if_pos (mt (readHeader_version hlen).2 h2)]; exact he
  next h2 =>
  rw [if_neg (not_not.2 ((readHeader_version hlen).1 (not_not.1 h2)))]
  split at he
  · next h3 => rw [if_pos (mt (readHeader_features hlen).2 h3)]; exact he
  next h3 =>
  rw [if_neg (not_not.2 ((readHeader_features hlen).1 (not_not.1 h3)))]
  split at he
  · next h4 => rw [if_pos ((readHeader_metaLen_zero hlen).1 h4)]; exact he
  next h4 =>
  rw [if_neg (mt (readHeader_metaLen_zero hlen).2 h4)]
  rw [readHeader_size hlen] at he
  split at he
  · next h5 => rw [if_pos h5]; exact he
  · cases he

-- == payload

/-- The payload checks of a complete frame with a good header. -/
theorem afterHeader_format (codec : MetaCodec)
    (hlen : kRpcHeaderBytes ≤ buf.length)
    (hheader : V1.HeaderOk limit.toNat buf)
    (hcomplete : V1.size buf ≤ buf.length) :
    match codec.parse (V1.metaRegion buf) with
    | none =>
        (afterHeader codec buf (readHeader buf)).status
            = .errorCorruptedFrame
          ∧ V1.firstViolated codec limit.toNat buf
            = some .errorCorruptedFrame
    | some m =>
        if m.attachmentSize.toNat ≤ V1.bodyLen buf then
          afterHeader codec buf (readHeader buf)
            = splitFrame buf (readHeader buf) m
        else
          (afterHeader codec buf (readHeader buf)).status
              = .errorInvalidLength
            ∧ V1.firstViolated codec limit.toNat buf
              = some .errorInvalidLength := by
  have hregion : (buf.drop kRpcHeaderBytes).take
      (readHeader buf).metaLen.toNat = V1.metaRegion buf := by
    rw [readHeader_metaLen hlen]
    rfl
  have hfirst : V1.firstViolated codec limit.toNat buf
      = if codec.parse (V1.metaRegion buf) = none then
          some .errorCorruptedFrame
        else if (codec.parse (V1.metaRegion buf)).any
            (fun m => V1.bodyLen buf < m.attachmentSize.toNat) = true then
          some .errorInvalidLength
        else none := by
    rw [firstViolated_eq, if_neg (not_not.2 hheader.magic),
      if_neg (not_not.2 hheader.version), if_neg (not_not.2 hheader.features),
      if_neg hheader.metaLen.ne', if_neg (Nat.not_lt.2 hheader.size)]
  have hfull : ¬ buf.length < frameBytes (readHeader buf) := by
    rw [readHeader_size hlen]
    exact Nat.not_lt.2 hcomplete
  unfold afterHeader
  rw [if_neg hfull, hregion, hfirst]
  cases hparse : codec.parse (V1.metaRegion buf) with
  | none => exact ⟨rfl, rfl⟩
  | some m =>
      have hgt : m.attachmentSize > (readHeader buf).bodyLen
          ↔ ¬ m.attachmentSize.toNat ≤ V1.bodyLen buf := by
        rw [gt_iff_lt, UInt32.lt_iff_toNat_lt, readHeader_bodyLen hlen,
          Nat.not_le]
      simp only
      split
      · next hle => rw [if_neg (fun h => hgt.1 h hle)]
      · next hnot =>
        rw [if_pos (hgt.2 hnot)]
        simp [Nat.lt_of_not_le hnot]

/-- The regions of an accepted frame. -/
theorem splitFrame_regions {m : RpcMeta}
    (hlen : kRpcHeaderBytes ≤ buf.length)
    (hboundary : m.attachmentSize.toNat ≤ V1.bodyLen buf) :
    (splitFrame buf (readHeader buf) m).bodyIobuf = V1.bodyRegion buf m
      ∧ (splitFrame buf (readHeader buf) m).attachmentIobuf
        = V1.attachmentRegion buf m := by
  have hle : m.attachmentSize ≤ (readHeader buf).bodyLen := by
    rw [UInt32.le_iff_toNat_le, readHeader_bodyLen hlen]
    exact hboundary
  have hsub := UInt32.toNat_sub_of_le _ _ hle
  rw [readHeader_bodyLen hlen] at hsub
  unfold splitFrame V1.bodyRegion V1.attachmentRegion
  simp only [hsub, readHeader_metaLen hlen]
  exact ⟨rfl, rfl⟩

/-- An accepted frame is header, meta, body and attachment, one after the
other. -/
theorem V1.Frame.regions {n : Nat} {m : RpcMeta}
    (h : V1.Frame codec n buf m) :
    buf = buf.take 16 ++ V1.metaRegion buf ++ V1.bodyRegion buf m
        ++ V1.attachmentRegion buf m ++ buf.drop (V1.size buf) := by
  have hboundary := h.boundary
  have hsum : V1.bodyLen buf - m.attachmentSize.toNat
      + m.attachmentSize.toNat = V1.bodyLen buf := by omega
  have hglue : ∀ i n : Nat,
      buf.drop i = (buf.drop i).take n ++ buf.drop (i + n) := fun i n => by
    rw [← List.drop_drop, List.take_append_drop]
  calc buf = buf.take 16 ++ buf.drop 16 := (List.take_append_drop 16 buf).symm
    _ = _ := by
      rw [hglue 16 (V1.metaLen buf), hglue (16 + V1.metaLen buf)
        (V1.bodyLen buf - m.attachmentSize.toNat),
        hglue (16 + V1.metaLen buf
          + (V1.bodyLen buf - m.attachmentSize.toNat)) m.attachmentSize.toNat,
        Nat.add_assoc (16 + V1.metaLen buf), hsum]
      simp only [List.append_assoc]
      rfl

-- == parser

/-- What the parser answers, case by case. -/
theorem tryParse_cases (codec : MetaCodec) (buf : Bytes) (limit : UInt64) :
    buf.length < kRpcHeaderBytes
        ∧ (tryParseRpcFrame codec buf limit).status = .needMoreData
      ∨ kRpcHeaderBytes ≤ buf.length
        ∧ ((¬ V1.HeaderOk limit.toNat buf
              ∧ ∃ e, e ≠ .success ∧ e ≠ .needMoreData
                ∧ (tryParseRpcFrame codec buf limit).status = e
                ∧ V1.firstViolated codec limit.toNat buf = some e)
          ∨ V1.HeaderOk limit.toNat buf
            ∧ tryParseRpcFrame codec buf limit
              = afterHeader codec buf (readHeader buf)) := by
  by_cases hshort : buf.length < kRpcHeaderBytes
  · exact .inl ⟨hshort, by rw [tryParse_short codec hshort]⟩
  · have hlen := Nat.le_of_not_lt hshort
    refine .inr ⟨hlen, ?_⟩
    cases he : headerError (readHeader buf) limit with
    | some e =>
        refine .inl ⟨fun hok => ?_, e, (headerError_isError he).1,
          (headerError_isError he).2, ?_, headerError_violated hlen he⟩
        · rw [(headerError_none_iff hlen).2 hok] at he
          cases he
        · rw [tryParse_headerError codec hshort he, headerErrorResult_status]
    | none =>
        exact .inr ⟨(headerError_none_iff hlen).1 he,
          tryParse_afterHeader codec hshort he⟩

theorem V1.Frame.length {n : Nat} {m : RpcMeta}
    (h : V1.Frame codec n buf m) : kRpcHeaderBytes ≤ buf.length := by
  have hcomplete := h.complete
  unfold V1.size at hcomplete
  unfold kRpcHeaderBytes
  omega

/-- A frame of the format is accepted, cut into its regions. -/
theorem tryParse_of_frame {m : RpcMeta}
    (h : V1.Frame codec limit.toNat buf m) :
    tryParseRpcFrame codec buf limit = splitFrame buf (readHeader buf) m := by
  have hlen := h.length
  have hpayload := afterHeader_format codec hlen h.header h.complete
  rw [h.parses] at hpayload
  simp only [if_pos h.boundary] at hpayload
  rw [tryParse_afterHeader codec (Nat.not_lt.2 hlen)
    ((headerError_none_iff hlen).2 h.header), hpayload]

/-- A frame that is accepted is one of the format. -/
theorem frame_of_tryParse
    (hs : (tryParseRpcFrame codec buf limit).status = .success) :
    ∃ m, V1.Frame codec limit.toNat buf m := by
  obtain ⟨m, hheader, hle, hparse, hboundary, -⟩ := tryParse_success codec hs
  have hlen : kRpcHeaderBytes ≤ buf.length := by
    unfold frameBytes at hle
    omega
  rw [readHeader_size hlen] at hle
  rw [readHeader_metaLen hlen] at hparse
  rw [UInt32.le_iff_toNat_le, readHeader_bodyLen hlen] at hboundary
  exact ⟨m, (headerError_none_iff hlen).1 hheader, hle, hparse, hboundary⟩

/-- The parser waits for a header, or for the rest of an announced
frame. -/
theorem needMore_iff :
    (tryParseRpcFrame codec buf limit).status = .needMoreData
      ↔ buf.length < 16
        ∨ V1.HeaderOk limit.toNat buf ∧ buf.length < V1.size buf := by
  rcases tryParse_cases codec buf limit with ⟨hshort, hstatus⟩
    | ⟨hlen, ⟨hbad, e, -, hne, hstatus, -⟩ | ⟨hok, heq⟩⟩
  · exact ⟨fun _ => .inl hshort, fun _ => hstatus⟩
  · rw [hstatus]
    refine ⟨fun h => absurd h hne, ?_⟩
    rintro (hshort | ⟨hok, -⟩)
    · exact absurd hlen (Nat.not_le.2 hshort)
    · exact absurd hok hbad
  · rw [heq]
    by_cases hcomplete : V1.size buf ≤ buf.length
    · -- a complete frame is decided
      have hpayload := afterHeader_format codec hlen hok hcomplete
      refine ⟨fun h => ?_, ?_⟩
      · cases hparse : codec.parse (V1.metaRegion buf) with
        | none =>
            rw [hparse] at hpayload
            rw [hpayload.1] at h
            cases h
        | some m =>
            rw [hparse] at hpayload
            simp only at hpayload
            split at hpayload
            · rw [hpayload] at h
              cases h
            · rw [hpayload.1] at h
              cases h
      · rintro (hshort | ⟨-, hmore⟩)
        · exact absurd hlen (Nat.not_le.2 hshort)
        · exact absurd hcomplete (Nat.not_le.2 hmore)
    · have hmore := Nat.lt_of_not_le hcomplete
      refine ⟨fun _ => .inr ⟨hok, hmore⟩, fun _ => ?_⟩
      unfold afterHeader
      rw [readHeader_size hlen, if_pos hmore]

/-- Any other answer is the first violated check. -/
theorem error_violated
    (hs : (tryParseRpcFrame codec buf limit).status ≠ .success)
    (hm : (tryParseRpcFrame codec buf limit).status ≠ .needMoreData) :
    V1.firstViolated codec limit.toNat buf
      = some (tryParseRpcFrame codec buf limit).status := by
  rcases tryParse_cases codec buf limit with ⟨-, hstatus⟩
    | ⟨hlen, ⟨-, e, -, -, hstatus, hfirst⟩ | ⟨hok, heq⟩⟩
  · exact absurd hstatus hm
  · rw [hstatus]
    exact hfirst
  · have hcomplete : V1.size buf ≤ buf.length := by
      by_contra hmore
      exact hm (needMore_iff.2 (.inr ⟨hok, Nat.lt_of_not_le hmore⟩))
    have hpayload := afterHeader_format codec hlen hok hcomplete
    rw [heq] at hs ⊢
    cases hparse : codec.parse (V1.metaRegion buf) with
    | none =>
        rw [hparse] at hpayload
        rw [hpayload.1]
        exact hpayload.2
    | some m =>
        rw [hparse] at hpayload
        simp only at hpayload
        split at hpayload
        · rw [hpayload] at hs
          exact absurd rfl hs
        · rw [hpayload.1]
          exact hpayload.2

/-- The 64-bit and 32-bit arithmetic of the parser is exact, for every
header and limit. -/
structure ExactSizes (h : RpcHeader) (limit : UInt64) : Prop where
  guard : (0xFFFFFFFFFFFFFFFF - h.bodyLen.toUInt64).toNat
    = 2 ^ 64 - 1 - h.bodyLen.toNat
  payload : (h.metaLen.toUInt64 + h.bodyLen.toUInt64).toNat
    = h.metaLen.toNat + h.bodyLen.toNat
  room : h.metaLen.toUInt64 + h.bodyLen.toUInt64 ≤ limit →
    (limit - (h.metaLen.toUInt64 + h.bodyLen.toUInt64)).toNat
      = limit.toNat - (h.metaLen.toNat + h.bodyLen.toNat)
  total : (UInt64.ofNat kRpcHeaderBytes
      + (h.metaLen.toUInt64 + h.bodyLen.toUInt64)).toNat
    = 16 + (h.metaLen.toNat + h.bodyLen.toNat)
  boundary : ∀ attachmentSize : UInt32, attachmentSize ≤ h.bodyLen →
    (h.bodyLen - attachmentSize).toNat
      = h.bodyLen.toNat - attachmentSize.toNat
  offsets : 16 + h.metaLen.toNat + h.bodyLen.toNat < 2 ^ 64

theorem exactSizes (h : RpcHeader) (limit : UInt64) :
    ExactSizes h limit where
  guard := by
    have h1 := h.bodyLen.toNat_lt
    have hmax : (0xFFFFFFFFFFFFFFFF : UInt64).toNat = 2 ^ 64 - 1 := rfl
    rw [UInt64.toNat_sub_of_le, hmax, UInt32.toNat_toUInt64]
    rw [UInt64.le_iff_toNat_le, hmax, UInt32.toNat_toUInt64]
    omega
  payload := payload_toNat h
  room := fun hle => by
    rw [UInt64.toNat_sub_of_le _ _ hle, payload_toNat]
  total := by
    rw [totalNeeded_toNat, frameBytes, Nat.add_assoc]
    rfl
  boundary := fun _ hle => UInt32.toNat_sub_of_le _ _ hle
  offsets := by
    have h1 := h.metaLen.toNat_lt
    have h2 := h.bodyLen.toNat_lt
    omega

/-- **The parser accepts exactly the V1 format.** It succeeds exactly on
the format's frames, and then meta, body and attachment are the
consecutive regions; it waits exactly for a header or for the rest of a
frame whose header is good; it answers the first violated check
otherwise; and no sum or difference on the way wraps. -/
theorem tryParse_format (codec : MetaCodec) (buf : Bytes) (limit : UInt64) :
    ((tryParseRpcFrame codec buf limit).status = .success
        ↔ ∃ m, V1.Frame codec limit.toNat buf m)
      ∧ (∀ m, V1.Frame codec limit.toNat buf m →
        (tryParseRpcFrame codec buf limit).rpcMeta = m
          ∧ (tryParseRpcFrame codec buf limit).bodyIobuf
            = V1.bodyRegion buf m
          ∧ (tryParseRpcFrame codec buf limit).attachmentIobuf
            = V1.attachmentRegion buf m
          ∧ (tryParseRpcFrame codec buf limit).totalFrameBytes.toNat
            = V1.size buf
          ∧ buf = buf.take 16 ++ V1.metaRegion buf ++ V1.bodyRegion buf m
            ++ V1.attachmentRegion buf m ++ buf.drop (V1.size buf))
      ∧ ((tryParseRpcFrame codec buf limit).status = .needMoreData
        ↔ buf.length < 16
          ∨ V1.HeaderOk limit.toNat buf ∧ buf.length < V1.size buf)
      ∧ ((tryParseRpcFrame codec buf limit).status ≠ .success →
        (tryParseRpcFrame codec buf limit).status ≠ .needMoreData →
        V1.firstViolated codec limit.toNat buf
          = some (tryParseRpcFrame codec buf limit).status)
      ∧ ∀ h : RpcHeader, ExactSizes h limit := by
  refine ⟨⟨frame_of_tryParse, fun ⟨m, hframe⟩ => ?_⟩, fun m hframe => ?_,
    needMore_iff, error_violated, fun h => exactSizes h limit⟩
  · rw [tryParse_of_frame hframe]
    rfl
  · have hregions := splitFrame_regions hframe.length hframe.boundary
    rw [tryParse_of_frame hframe]
    refine ⟨rfl, hregions.1, hregions.2, ?_, hframe.regions⟩
    rw [← readHeader_size hframe.length]
    exact totalNeeded_toNat _

-- == packer

variable {m : RpcMeta} {body : Bytes} {attachment : Option Bytes}
  {out metaBuf : Bytes}

/-- A pack that fails leaves the output alone. -/
theorem pack_failed_out
    (hok : (packSerializedFrame codec m body attachment out limit).ok
      = false) :
    (packSerializedFrame codec m body attachment out limit).out = out := by
  unfold packSerializedFrame at hok ⊢
  simp only at hok ⊢
  split at hok
  · next hfit => rw [if_pos hfit]
  next hfit =>
  rw [if_neg hfit]
  split at hok
  · rfl
  next metaBuf hser =>
  split at hok
  · next hmeta => rw [if_pos hmeta]
  next hmeta =>
  rw [if_neg hmeta]
  split at hok
  · next hlim => rw [if_pos hlim]
  · cases hok

/-- Sizes that fit make the pack succeed. -/
theorem pack_of_sizes
    (hser : codec.serialize (stampedMeta m attachment) = some metaBuf)
    (hne : metaBuf ≠ []) (hmeta : metaBuf.length < 2 ^ 32)
    (hbody : body.length + (attachment.getD []).length < 2 ^ 32)
    (hlimit : 16 + metaBuf.length + body.length
      + (attachment.getD []).length ≤ limit.toNat) :
    (packSerializedFrame codec m body attachment out limit).ok = true := by
  unfold packSerializedFrame
  unfold stampedMeta at hser
  simp only
  generalize attachment.getD [] = att at *
  -- the three tests, one after the other
  have hfit : ¬ (!fitsUint32 att.length || !fitsUint32 body.length
      || decide (att.length > 4294967295 - body.length)) = true := by
    simp only [Bool.or_eq_true, Bool.not_eq_true', decide_eq_true_eq, not_or,
      Bool.not_eq_false, fitsUint32_iff]
    omega
  have hmeta' : ¬ (metaBuf.isEmpty || !fitsUint32 metaBuf.length) = true := by
    simp only [Bool.or_eq_true, Bool.not_eq_true', not_or, Bool.not_eq_false,
      fitsUint32_iff, List.isEmpty_iff]
    exact ⟨hne, hmeta⟩
  have hexact : (UInt64.ofNat metaBuf.length + UInt64.ofNat body.length
      + UInt64.ofNat att.length).toNat
      = metaBuf.length + body.length + att.length := by
    simp only [UInt64.toNat_add, UInt64.toNat_ofNat']
    omega
  have hlim := (fits_iff (UInt64.ofNat metaBuf.length
    + UInt64.ofNat body.length + UInt64.ofNat att.length) limit).2 (by
      rw [hexact, kRpcHeaderBytes]
      omega)
  rw [if_neg hfit, hser]
  simp only
  rw [if_neg hmeta', if_neg]
  simpa only [Bool.or_eq_true, decide_eq_true_eq] using hlim

/-- **The packer's limit is exact.** With the meta serialized, the packer
succeeds exactly if the meta is not empty and fits in 32 bits, body and
attachment together fit in 32 bits, and the frame fits the limit; a
failure leaves the output as it was, and a success appends exactly that
many bytes, with header fields that are the sizes themselves. -/
theorem packSerializedFrame_exact (codec : MetaCodec) (m : RpcMeta)
    (body : Bytes) (attachment : Option Bytes) (out : Bytes)
    (limit : UInt64) (metaBuf : Bytes)
    (hser : codec.serialize (stampedMeta m attachment) = some metaBuf) :
    ((packSerializedFrame codec m body attachment out limit).ok = true
        ↔ metaBuf ≠ [] ∧ metaBuf.length < 2 ^ 32
          ∧ body.length + (attachment.getD []).length < 2 ^ 32
          ∧ 16 + metaBuf.length + body.length
            + (attachment.getD []).length ≤ limit.toNat)
      ∧ ((packSerializedFrame codec m body attachment out limit).ok = false →
        (packSerializedFrame codec m body attachment out limit).out = out)
      ∧ ((packSerializedFrame codec m body attachment out limit).ok = true →
        ∃ f, (packSerializedFrame codec m body attachment out limit).out
            = out ++ f
          ∧ f.length = 16 + metaBuf.length + body.length
            + (attachment.getD []).length
          ∧ (readHeader f).metaLen.toNat = metaBuf.length
          ∧ (readHeader f).bodyLen.toNat
            = body.length + (attachment.getD []).length) := by
  have hfits : (packSerializedFrame codec m body attachment out limit).ok
      = true → metaBuf ≠ [] ∧ metaBuf.length < 2 ^ 32
        ∧ body.length + (attachment.getD []).length < 2 ^ 32
        ∧ 16 + metaBuf.length + body.length
          + (attachment.getD []).length ≤ limit.toNat
        ∧ (packSerializedFrame codec m body attachment out limit).out
          = out ++ packedFrame metaBuf body (attachment.getD []) := by
    intro hok
    obtain ⟨buf, hser', h⟩ := pack_ok (show (packRpcFrame codec m body
      attachment out limit).ok = true from hok)
    rw [hser] at hser'
    injection hser' with heq
    subst heq
    exact h
  refine ⟨⟨fun hok => ?_, fun ⟨hne, hmeta, hbody, hlimit⟩ =>
    pack_of_sizes hser hne hmeta hbody hlimit⟩, pack_failed_out, fun hok => ?_⟩
  · obtain ⟨hne, hmeta, hbody, hlimit, -⟩ := hfits hok
    exact ⟨hne, hmeta, hbody, hlimit⟩
  · obtain ⟨-, hmeta, hbody, -, hout⟩ := hfits hok
    refine ⟨packedFrame metaBuf body (attachment.getD []), hout, ?_, ?_, ?_⟩
    · rw [packedFrame_length]
      rfl
    · rw [packedFrame, readHeader_wire, UInt32.toNat_ofNat']
      exact Nat.mod_eq_of_lt hmeta
    · rw [packedFrame, readHeader_wire, UInt32.toNat_ofNat']
      exact Nat.mod_eq_of_lt hbody

/-- The exact limit at one meta: three body bytes, two of attachment and a
limit of 64. -/
theorem packSerializedFrame_exact_seven :
    ∃ metaBuf, pointCodec.serialize
        (stampedMeta { correlationId := 7 } (some [9, 9])) = some metaBuf
      ∧ ((packSerializedFrame pointCodec { correlationId := 7 } [1, 2, 3]
          (some [9, 9]) [5] 64).ok = true
        ↔ metaBuf ≠ [] ∧ metaBuf.length < 2 ^ 32
          ∧ [1, 2, 3].length + [9, 9].length < 2 ^ 32
          ∧ 16 + metaBuf.length + [1, 2, 3].length + [9, 9].length
            ≤ (64 : UInt64).toNat) :=
  ⟨_, rfl, (packSerializedFrame_exact pointCodec { correlationId := 7 }
    [1, 2, 3] (some [9, 9]) [5] 64 _ rfl).1⟩

end AntRpc.Protocol
