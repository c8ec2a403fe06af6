/-
Packing then parsing gives the frame back: the encoder and the decoder
are separate code, and they agree on byte order, field order, flag
layout, the body/attachment split stored inside the meta, and the four
length checks.

# The argument

- the wire header reads back as the header written (`readHeader_wire`),
  four applications of `be32_join`;
- a successful pack wrote exactly header, serialized meta, body,
  attachment, and its checks say that every length fits its header
  field (`pack_ok`);
- so the parser's header checks pass at every limit the frame fits
  (`headerError_packed`), and `splitFrame` cuts the frame where the
  packer glued it.

The codec enters only through `Inverts`, at the one meta that was
serialized.
-/
import AntRpc.Lib.Word
import AntRpc.Protocol.Proofs.Parse

namespace AntRpc.Protocol

-- == the header

/-- The sixteen bytes of a header on the wire. -/
def wireHeader (h : RpcHeader) : Bytes :=
  [(h.magic >>> 24).toUInt8, (h.magic >>> 16).toUInt8,
    (h.magic >>> 8).toUInt8, h.magic.toUInt8,
    (h.bodyLen >>> 24).toUInt8, (h.bodyLen >>> 16).toUInt8,
    (h.bodyLen >>> 8).toUInt8, h.bodyLen.toUInt8,
    (h.metaLen >>> 24).toUInt8, (h.metaLen >>> 16).toUInt8,
    (h.metaLen >>> 8).toUInt8, h.metaLen.toUInt8,
    (h.flags >>> 24).toUInt8, (h.flags >>> 16).toUInt8,
    (h.flags >>> 8).toUInt8, h.flags.toUInt8]

theorem appendWireHeader_eq (h : RpcHeader) (out : Bytes) :
    appendWireHeader h out = out ++ wireHeader h := rfl

theorem wireHeader_length (h : RpcHeader) :
    (wireHeader h).length = kRpcHeaderBytes := rfl

/-- The parser reads back the header the packer wrote. -/
theorem readHeader_wire (h : RpcHeader) (rest : Bytes) :
    readHeader (wireHeader h ++ rest) = h := by
  have htake : (wireHeader h ++ rest).take kRpcHeaderBytes
      = wireHeader h := List.take_left' (wireHeader_length h)
  unfold readHeader
  rw [htake]
  obtain ⟨magic, bodyLen, metaLen, flags⟩ := h
  simp only [loadUint32BE, wireHeader, List.getD_cons_zero,
    List.getD_cons_succ]
  rw [Lib.be32_join, Lib.be32_join, Lib.be32_join, Lib.be32_join]

/-- The flags every packer writes: version 1, no feature. -/
theorem wireFlags_ok :
    wireVersion (makeWireFlags kRpcWireVersion 0) = kRpcWireVersion
      ∧ wireFeatures (makeWireFlags kRpcWireVersion 0)
          &&& ~~~kKnownWireFeatures = 0 := by
  decide

-- == what was packed

/-- The caller's meta with the attachment boundary filled in. -/
def stampedMeta (m : RpcMeta) (attachment : Option Bytes) : RpcMeta :=
  { m with attachmentSize := UInt32.ofNat (attachment.getD []).length }

/-- The frame a successful pack appends. -/
def packedFrame (metaBuf body attachment : Bytes) : Bytes :=
  wireHeader
      { metaLen := UInt32.ofNat metaBuf.length
        bodyLen := UInt32.ofNat (body.length + attachment.length)
        flags := makeWireFlags kRpcWireVersion 0 }
    ++ (metaBuf ++ (body ++ attachment))

theorem packedFrame_length (metaBuf body attachment : Bytes) :
    (packedFrame metaBuf body attachment).length
      = kRpcHeaderBytes + metaBuf.length + body.length
        + attachment.length := by
  unfold packedFrame
  rw [List.length_append, wireHeader_length, List.length_append,
    List.length_append]
  omega

theorem fitsUint32_iff (n : Nat) : fitsUint32 n = true ↔ n < 2 ^ 32 := by
  unfold fitsUint32
  rw [decide_eq_true_iff]
  omega

/-- A successful pack, inverted: what was serialized, what was appended,
and the bounds the checks established. -/
theorem pack_ok {codec : MetaCodec} {m : RpcMeta} {body : Bytes}
    {attachment : Option Bytes} {out : Bytes} {limit : UInt64}
    (hok : (packRpcFrame codec m body attachment out limit).ok = true) :
    ∃ metaBuf, codec.serialize (stampedMeta m attachment) = some metaBuf
      ∧ metaBuf ≠ [] ∧ metaBuf.length < 2 ^ 32
      ∧ body.length + (attachment.getD []).length < 2 ^ 32
      ∧ kRpcHeaderBytes + metaBuf.length + body.length
          + (attachment.getD []).length ≤ limit.toNat
      ∧ (packRpcFrame codec m body attachment out limit).out
          = out ++ packedFrame metaBuf body (attachment.getD []) := by
  unfold packRpcFrame packSerializedFrame at hok ⊢
  simp only at hok ⊢
  generalize hatt : attachment.getD [] = att at hok ⊢
  split at hok
  · cases hok
  next hfit =>
    rw [if_neg hfit]
    simp only [Bool.or_eq_true, Bool.not_eq_true', decide_eq_true_eq,
      not_or, Bool.not_eq_false, fitsUint32_iff] at hfit
    obtain ⟨⟨hatt32, hbody32⟩, hsum⟩ := hfit
    have hstamp : stampedMeta m attachment
        = { m with attachmentSize := UInt32.ofNat att.length } := by
      rw [stampedMeta, hatt]
    rw [hstamp]
    split at hok
    · cases hok
    next metaBuf hser =>
      split at hok
      · cases hok
      next hmeta =>
        rw [if_neg hmeta]
        simp only [Bool.or_eq_true, Bool.not_eq_true', not_or,
          Bool.not_eq_false, fitsUint32_iff, List.isEmpty_iff] at hmeta
        split at hok
        · cases hok
        next hlim =>
          rw [if_neg hlim]
          simp only [Bool.or_eq_true, decide_eq_true_eq] at hlim
          have hfits := (fits_iff _ _).mp hlim
          -- the three sizes are 32-bit, so their 64-bit sum is exact
          have hexact : (UInt64.ofNat metaBuf.length
              + UInt64.ofNat body.length + UInt64.ofNat att.length).toNat
              = metaBuf.length + body.length + att.length := by
            simp only [UInt64.toNat_add, UInt64.toNat_ofNat']
            omega
          rw [hexact] at hfits
          refine ⟨metaBuf, hser, hmeta.1, hmeta.2, by omega, by omega, ?_⟩
          have hbody : ∀ l : Bytes,
              (if body.isEmpty = true then l else l ++ body)
                = l ++ body := by
            intro l
            split
            · next he => rw [List.isEmpty_iff.mp he, List.append_nil]
            · rfl
          have hattach : ∀ l : Bytes,
              (if att.length ≠ 0 then l ++ att else l) = l ++ att := by
            intro l
            split
            · rfl
            · next he =>
              rw [List.length_eq_zero_iff.mp (not_not.mp he),
                List.append_nil]
          simp only [hbody, hattach]
          simp only [appendWireHeader_eq, packedFrame, List.append_assoc]

-- == round trip

/-- The parser's header checks pass on a packed frame at every limit
the frame fits. -/
theorem headerError_packed {metaBuf body att : Bytes} {limit : UInt64}
    (hne : metaBuf ≠ []) (hm : metaBuf.length < 2 ^ 32)
    (hb : body.length + att.length < 2 ^ 32)
    (hlim : (packedFrame metaBuf body att).length ≤ limit.toNat) :
    headerError
        { metaLen := UInt32.ofNat metaBuf.length
          bodyLen := UInt32.ofNat (body.length + att.length)
          flags := makeWireFlags kRpcWireVersion 0 } limit = none := by
  have hpos : 0 < metaBuf.length := List.length_pos_iff.mpr hne
  have hm' : (UInt32.ofNat metaBuf.length).toNat = metaBuf.length := by
    rw [UInt32.toNat_ofNat']
    omega
  have hb' : (UInt32.ofNat (body.length + att.length)).toNat
      = body.length + att.length := by
    rw [UInt32.toNat_ofNat']
    omega
  rw [packedFrame_length] at hlim
  unfold headerError
  rw [if_neg (by simp), if_neg (by simp only; exact not_not.mpr wireFlags_ok.1),
    if_neg (by simp only; exact not_not.mpr wireFlags_ok.2),
    if_neg ?_, if_neg ?_]
  · simp only [frameBytes, hm', hb']
    omega
  · intro hz
    have := congrArg UInt32.toNat hz
    rw [hm'] at this
    simp at this
    exact hne this

/-- Parsing what was packed, at every limit the frame fits and whatever
follows it in the buffer. -/
theorem parse_packedFrame {codec : MetaCodec} {m : RpcMeta}
    {metaBuf body att : Bytes} {limit : UInt64} (t : Bytes)
    (hne : metaBuf ≠ []) (hm : metaBuf.length < 2 ^ 32)
    (hb : body.length + att.length < 2 ^ 32)
    (hparse : codec.parse metaBuf = some m)
    (hatt : m.attachmentSize = UInt32.ofNat att.length)
    (hlim : (packedFrame metaBuf body att).length ≤ limit.toNat) :
    tryParseRpcFrame codec (packedFrame metaBuf body att ++ t) limit
      = { status := .success
          totalFrameBytes :=
            UInt64.ofNat (packedFrame metaBuf body att).length
          header :=
            { metaLen := UInt32.ofNat metaBuf.length
              bodyLen := UInt32.ofNat (body.length + att.length)
              flags := makeWireFlags kRpcWireVersion 0 }
          rpcMeta := m
          bodyIobuf := body
          attachmentIobuf := att } := by
  have hm' : (UInt32.ofNat metaBuf.length).toNat = metaBuf.length := by
    rw [UInt32.toNat_ofNat']
    omega
  have hb' : (UInt32.ofNat (body.length + att.length)).toNat
      = body.length + att.length := by
    rw [UInt32.toNat_ofNat']
    omega
  have ha' : m.attachmentSize.toNat = att.length := by
    rw [hatt, UInt32.toNat_ofNat']
    omega
  have hle : m.attachmentSize
      ≤ UInt32.ofNat (body.length + att.length) := by
    rw [UInt32.le_iff_toNat_le, ha', hb']
    omega
  have hsub : (UInt32.ofNat (body.length + att.length)
      - m.attachmentSize).toNat = body.length := by
    rw [UInt32.toNat_sub_of_le _ _ hle, ha', hb']
    omega
  have hread : readHeader (packedFrame metaBuf body att ++ t)
      = { metaLen := UInt32.ofNat metaBuf.length
          bodyLen := UInt32.ofNat (body.length + att.length)
          flags := makeWireFlags kRpcWireVersion 0 } := by
    rw [packedFrame, List.append_assoc]
    exact readHeader_wire _ _
  have hlen : ¬ (packedFrame metaBuf body att ++ t).length
      < kRpcHeaderBytes := by
    rw [List.length_append, packedFrame_length]
    omega
  -- the regions, cut where they were glued
  have hcut : packedFrame metaBuf body att ++ t
      = wireHeader
          { metaLen := UInt32.ofNat metaBuf.length
            bodyLen := UInt32.ofNat (body.length + att.length)
            flags := makeWireFlags kRpcWireVersion 0 }
        ++ (metaBuf ++ (body ++ (att ++ t))) := by
    simp only [packedFrame, List.append_assoc]
  have hdrop : (packedFrame metaBuf body att ++ t).drop kRpcHeaderBytes
      = metaBuf ++ (body ++ (att ++ t)) := by
    rw [hcut]
    exact List.drop_left' (wireHeader_length _)
  have hdrop2 : (packedFrame metaBuf body att ++ t).drop
      (kRpcHeaderBytes + metaBuf.length) = body ++ (att ++ t) := by
    rw [← List.drop_drop, hdrop, List.drop_left]
  have hdrop3 : (packedFrame metaBuf body att ++ t).drop
      (kRpcHeaderBytes + metaBuf.length + body.length) = att ++ t := by
    rw [← List.drop_drop, hdrop2, List.drop_left]
  rw [tryParse_afterHeader codec hlen
    (by rw [hread]; exact headerError_packed hne hm hb hlim), hread]
  unfold afterHeader
  rw [if_neg (by
    simp only [frameBytes, hm', hb']
    rw [List.length_append, packedFrame_length]
    omega)]
  simp only [hm', hdrop, List.take_left, hparse]
  rw [if_neg (UInt32.not_lt.mpr hle)]
  unfold splitFrame
  simp only [hm', hsub, ha', hdrop2, hdrop3, List.take_left]
  congr 1
  apply UInt64.toNat_inj.mp
  have htotal := totalNeeded_toNat
    { metaLen := UInt32.ofNat metaBuf.length
      bodyLen := UInt32.ofNat (body.length + att.length)
      flags := makeWireFlags kRpcWireVersion 0 }
  simp only [frameBytes, hm', hb'] at htotal
  rw [htotal, packedFrame_length, UInt64.toNat_ofNat', kRpcHeaderBytes]
  omega

/-- **The frame round trip.** If packing `m`, `b` and the optional
attachment `a` under limit `L` succeeds, the frame it appended parses
back, at every limit the frame fits and with anything after it, to the
same meta (attachment size filled in), body and attachment, with the
exact lengths in the header. -/
theorem packRpcFrame_roundTrip (codec : MetaCodec) (hinv : codec.Inverts)
    (m : RpcMeta) (b : Bytes) (a : Option Bytes) (out : Bytes) (L : UInt64)
    (hok : (packRpcFrame codec m b a out L).ok = true) :
    ∃ f metaBuf, (packRpcFrame codec m b a out L).out = out ++ f
      ∧ f.length ≤ L.toNat
      ∧ codec.serialize (stampedMeta m a) = some metaBuf
      ∧ (stampedMeta m a).attachmentSize.toNat = (a.getD []).length
      ∧ ∀ (L' : UInt64) (t : Bytes), f.length ≤ L'.toNat →
          let r := tryParseRpcFrame codec (f ++ t) L'
          r.status = .success
            ∧ r.totalFrameBytes.toNat = f.length
            ∧ r.rpcMeta = stampedMeta m a
            ∧ r.bodyIobuf = b
            ∧ r.attachmentIobuf = a.getD []
            ∧ r.header.bodyLen.toNat = b.length + (a.getD []).length
            ∧ r.header.metaLen.toNat = metaBuf.length := by
  obtain ⟨metaBuf, hser, hne, hm, hb, hlim, hout⟩ := pack_ok hok
  have hlen := packedFrame_length metaBuf b (a.getD [])
  refine ⟨packedFrame metaBuf b (a.getD []), metaBuf, hout, by omega,
    hser, ?_, ?_⟩
  · rw [stampedMeta, UInt32.toNat_ofNat']
    omega
  · intro L' t hL'
    have hparse :=
      parse_packedFrame t hne hm hb (hinv _ _ hser) rfl hL'
    have h16 : kRpcHeaderBytes = 16 := rfl
    simp only [hparse, UInt64.toNat_ofNat', UInt32.toNat_ofNat', true_and]
    omega

/-- A codec that knows one meta, by its protobuf bytes: field 1 is 7,
field 9 is 2. -/
def pointCodec : MetaCodec where
  serialize m :=
    if m = { correlationId := 7, attachmentSize := 2 } then
      some [8, 7, 72, 2]
    else none
  parse bytes :=
    if bytes = [8, 7, 72, 2] then
      some { correlationId := 7, attachmentSize := 2 }
    else none

theorem pointCodec_inverts : pointCodec.Inverts := by
  intro m bytes h
  unfold pointCodec at h ⊢
  simp only at h ⊢
  split at h
  · next hm =>
    injection h with h
    rw [if_pos h.symm, hm]
  · cases h

/-- The round trip at one frame: body `[1, 2, 3]`, attachment
`[9, 9]`. -/
theorem packRpcFrame_roundTrip_seven :
    ∃ f metaBuf,
      (packRpcFrame pointCodec { correlationId := 7 } [1, 2, 3]
        (some [9, 9]) [] 64).out = [] ++ f
      ∧ f.length ≤ (64 : UInt64).toNat
      ∧ pointCodec.serialize
          (stampedMeta { correlationId := 7 } (some [9, 9]))
            = some metaBuf
      ∧ (stampedMeta { correlationId := 7 } (some [9, 9])).attachmentSize.toNat
          = 2
      ∧ ∀ (L' : UInt64) (t : Bytes), f.length ≤ L'.toNat →
          let r := tryParseRpcFrame pointCodec (f ++ t) L'
          r.status = .success
            ∧ r.totalFrameBytes.toNat = f.length
            ∧ r.rpcMeta
                = stampedMeta { correlationId := 7 } (some [9, 9])
            ∧ r.bodyIobuf = [1, 2, 3]
            ∧ r.attachmentIobuf = [9, 9]
            ∧ r.header.bodyLen.toNat = 5
            ∧ r.header.metaLen.toNat = metaBuf.length :=
  packRpcFrame_roundTrip pointCodec pointCodec_inverts
    { correlationId := 7 } [1, 2, 3] (some [9, 9]) [] 64 (by decide)

end AntRpc.Protocol
