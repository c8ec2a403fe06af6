/-
The V1 frame format as doc/rpc-wire-protocol-v1.md states it, in exact
integers over the bytes of a buffer: no word arithmetic, no order of
evaluation. The parser is compared with it in Proofs/Format.lean.
-/
import AntRpc.Lib.Word
import AntRpc.Protocol.Basic

namespace AntRpc.Protocol

open Lib

namespace V1

/-- The bytes `ANTR`. -/
def magic : Bytes := [0x41, 0x4E, 0x54, 0x52]

/-- `body_len`, bytes 4 to 7. -/
def bodyLen (buf : Bytes) : Nat := beNat ((buf.drop 4).take 4)

/-- `meta_len`, bytes 8 to 11. -/
def metaLen (buf : Bytes) : Nat := beNat ((buf.drop 8).take 4)

/-- The size of the frame the header announces. -/
def size (buf : Bytes) : Nat := 16 + metaLen buf + bodyLen buf

/-- The bytes of the serialized meta. -/
def metaRegion (buf : Bytes) : Bytes := (buf.drop 16).take (metaLen buf)

/-- The bytes between the meta and the attachment. -/
def bodyRegion (buf : Bytes) (m : RpcMeta) : Bytes :=
  (buf.drop (16 + metaLen buf)).take (bodyLen buf - m.attachmentSize.toNat)

/-- The last bytes of the frame. -/
def attachmentRegion (buf : Bytes) (m : RpcMeta) : Bytes :=
  (buf.drop (16 + metaLen buf + (bodyLen buf - m.attachmentSize.toNat))).take
    m.attachmentSize.toNat

/-- The header passes its checks. -/
structure HeaderOk (limit : Nat) (buf : Bytes) : Prop where
  magic : buf.take 4 = V1.magic
  version : (buf.drop 12).take 1 = [1]
  features : (buf.drop 13).take 3 = [0, 0, 0]
  metaLen : 0 < V1.metaLen buf
  size : V1.size buf ≤ limit

/-- The buffer starts with a frame whose meta is `m`. -/
structure Frame (codec : MetaCodec) (limit : Nat) (buf : Bytes)
    (m : RpcMeta) : Prop where
  header : HeaderOk limit buf
  complete : V1.size buf ≤ buf.length
  parses : codec.parse (metaRegion buf) = some m
  boundary : m.attachmentSize.toNat ≤ bodyLen buf

/-- The checks, in the order in which they are reported, and whether each
is violated. -/
def checks (codec : MetaCodec) (limit : Nat) (buf : Bytes) :
    List (FrameParseStatus × Bool) :=
  [(.errorMagicMismatch, buf.take 4 ≠ magic),
    (.errorUnsupportedVersion, (buf.drop 12).take 1 ≠ [1]),
    (.errorUnsupportedFlags, (buf.drop 13).take 3 ≠ [0, 0, 0]),
    (.errorInvalidLength, metaLen buf = 0),
    (.errorFrameTooLarge, limit < size buf),
    (.errorCorruptedFrame, codec.parse (metaRegion buf) = none),
    (.errorInvalidLength,
      (codec.parse (metaRegion buf)).any
        fun m => bodyLen buf < m.attachmentSize.toNat)]

/-- The first violated check. -/
def firstViolated (codec : MetaCodec) (limit : Nat) (buf : Bytes) :
    Option FrameParseStatus :=
  ((checks codec limit buf).find? (·.2)).map (·.1)

end V1

end AntRpc.Protocol
