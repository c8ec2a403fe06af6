/-
The RPC wire format, version 1 (rpc/protocol.hpp): header, flags, the
packer and the incremental parser, transcribed.

# What is modelled and how

- A `butil::IOBuf` is the byte string it holds. `append`, `append_to`,
  `copy_to` and `pop_front` are list operations; `size()` is the exact
  length.
- Header fields are `UInt32`, `size_t` values are `UInt64`, so every
  conversion and every wrap of the source is the one of the types. Where
  the source compares a buffer size with a limit, the size enters as the
  exact length.
- `RpcMeta` is the generated protobuf class of proto/rpc_meta.proto; its
  fields are the proto's. Serialization and parsing are generated code,
  so they are a parameter (`MetaCodec`). `SerializeToZeroCopyStream` and
  `ParseFromZeroCopyStream` report failure, hence the options.
- The body a message-typed `PackRpcFrame` serializes is the caller's
  bytes here: both overloads end in `packSerializedFrame`.
-/
import Mathlib

namespace AntRpc.Protocol

/-- The bytes an IOBuf holds. -/
abbrev Bytes := List UInt8

-- == RpcMeta

/-- `RpcMessageType`. Proto3 enums are open, so an unnamed number is a
value too. -/
inductive RpcMessageType where
  | request
  | response
  | heartbeat
  | other (value : Int32)
deriving DecidableEq, Repr

/-- The fields of `RpcMeta` (proto/rpc_meta.proto). The header map is its
entries. -/
structure RpcMeta where
  correlationId : UInt64 := 0
  msgType : RpcMessageType := .request
  serviceName : String := ""
  methodName : String := ""
  logId : Int64 := 0
  timeoutMs : Int64 := 0
  errorCode : Int32 := 0
  errorText : String := ""
  attachmentSize : UInt32 := 0
  headers : List (String × String) := []
deriving DecidableEq, Repr

/-- Generated protobuf code for `RpcMeta`. -/
structure MetaCodec where
  serialize : RpcMeta → Option Bytes
  parse : Bytes → Option RpcMeta

/-- Parsing inverts serialization. -/
def MetaCodec.Inverts (codec : MetaCodec) : Prop :=
  ∀ m bytes, codec.serialize m = some bytes → codec.parse bytes = some m

-- == header

def kMagic : UInt32 := 0x414E5452
def kRpcHeaderBytes : Nat := 16
def kDefaultMaxRpcFrameBytes : UInt64 := 16 * 1024 * 1024
def kRpcWireVersion : UInt8 := 1
def kWireVersionShift : UInt32 := 24
def kWireFeatureMask : UInt32 := 0x00FFFFFF
def kKnownWireFeatures : UInt32 := 0

/-- `RpcHeader`. -/
structure RpcHeader where
  magic : UInt32 := kMagic
  bodyLen : UInt32 := 0
  metaLen : UInt32 := 0
  flags : UInt32 := 0
deriving DecidableEq, Repr

/-- `[ protocol version: 8 ][ feature flags: 24 ]`. -/
def makeWireFlags (version : UInt8) (features : UInt32) : UInt32 :=
  (version.toUInt32 <<< kWireVersionShift) ||| (features &&& kWireFeatureMask)

def wireVersion (flags : UInt32) : UInt8 :=
  (flags >>> kWireVersionShift).toUInt8

def wireFeatures (flags : UInt32) : UInt32 :=
  flags &&& kWireFeatureMask

/-- `FrameParseStatus`. -/
inductive FrameParseStatus where
  | success
  | needMoreData
  | errorMagicMismatch
  | errorUnsupportedVersion
  | errorUnsupportedFlags
  | errorFrameTooLarge
  | errorInvalidLength
  | errorCorruptedFrame
deriving DecidableEq, Repr

/-- `FrameParseResult`. The defaults are the value-initialised members
the source writes as `{}`. -/
structure FrameParseResult where
  status : FrameParseStatus := .needMoreData
  totalFrameBytes : UInt64 := 0
  header : RpcHeader := {}
  rpcMeta : RpcMeta := {}
  bodyIobuf : Bytes := []
  attachmentIobuf : Bytes := []
deriving DecidableEq, Repr

-- == byte order

/-- `LoadUint32BE`. -/
def loadUint32BE (bytes : Bytes) (offset : Nat) : UInt32 :=
  ((bytes.getD offset 0).toUInt32 <<< 24)
    ||| ((bytes.getD (offset + 1) 0).toUInt32 <<< 16)
    ||| ((bytes.getD (offset + 2) 0).toUInt32 <<< 8)
    ||| (bytes.getD (offset + 3) 0).toUInt32

/-- `StoreUint32BE`. -/
def storeUint32BE (bytes : Bytes) (offset : Nat) (value : UInt32) : Bytes :=
  (((bytes.set offset (value >>> 24).toUInt8).set
      (offset + 1) (value >>> 16).toUInt8).set
      (offset + 2) (value >>> 8).toUInt8).set
      (offset + 3) value.toUInt8

/-- `AppendWireHeader`: a zeroed 16-byte array, four stores, one
append. -/
def appendWireHeader (header : RpcHeader) (out : Bytes) : Bytes :=
  let bytes : Bytes := List.replicate kRpcHeaderBytes 0
  let bytes := storeUint32BE bytes 0 header.magic
  let bytes := storeUint32BE bytes 4 header.bodyLen
  let bytes := storeUint32BE bytes 8 header.metaLen
  let bytes := storeUint32BE bytes 12 header.flags
  out ++ bytes

/-- `FitsUint32`. -/
def fitsUint32 (value : Nat) : Bool :=
  value ≤ 4294967295

-- == the packer

/-- What a packer call leaves behind: its result, the caller's meta and
the output buffer. -/
structure PackResult where
  ok : Bool
  rpcMeta : RpcMeta
  out : Bytes
deriving DecidableEq, Repr

/-- `PackSerializedFrame`. The attachment is a nullable pointer. -/
def packSerializedFrame (codec : MetaCodec) (m₀ : RpcMeta)
    (body : Bytes) (attachment : Option Bytes) (out : Bytes)
    (maxFrameBytes : UInt64) : PackResult :=
  let attachmentSize := (attachment.getD []).length
  if !fitsUint32 attachmentSize || !fitsUint32 body.length
      || attachmentSize > 4294967295 - body.length then
    ⟨false, m₀, out⟩
  else
    let m₁ :=
      { m₀ with attachmentSize := UInt32.ofNat attachmentSize }
    match codec.serialize m₁ with
    | none => ⟨false, m₁, out⟩
    | some metaBuf =>
        if metaBuf.isEmpty || !fitsUint32 metaBuf.length then
          ⟨false, m₁, out⟩
        else
          let payloadSize : UInt64 := UInt64.ofNat metaBuf.length
            + UInt64.ofNat body.length + UInt64.ofNat attachmentSize
          if payloadSize > maxFrameBytes
              || UInt64.ofNat kRpcHeaderBytes > maxFrameBytes - payloadSize then
            ⟨false, m₁, out⟩
          else
            let header : RpcHeader :=
              { metaLen := UInt32.ofNat metaBuf.length
                bodyLen := UInt32.ofNat (body.length + attachmentSize)
                flags := makeWireFlags kRpcWireVersion 0 }
            let out := appendWireHeader header out ++ metaBuf
            let out := if body.isEmpty then out else out ++ body
            let out := if attachmentSize ≠ 0
              then out ++ attachment.getD [] else out
            ⟨true, m₁, out⟩

/-- `PackRpcFrame` on a raw body. -/
def packRpcFrame (codec : MetaCodec) (m₀ : RpcMeta) (rawBody : Bytes)
    (attachment : Option Bytes) (outBuf : Bytes) (maxFrameBytes : UInt64) :
    PackResult :=
  packSerializedFrame codec m₀ rawBody attachment outBuf maxFrameBytes

-- == the parser

/-- The header fields of the first 16 bytes. -/
def readHeader (buf : Bytes) : RpcHeader :=
  let headerBytes := buf.take kRpcHeaderBytes
  { magic := loadUint32BE headerBytes 0
    bodyLen := loadUint32BE headerBytes 4
    metaLen := loadUint32BE headerBytes 8
    flags := loadUint32BE headerBytes 12 }

/-- `TryParseRpcFrame`: parse one frame without consuming `buf`. -/
def tryParseRpcFrame (codec : MetaCodec) (buf : Bytes)
    (maxFrameBytes : UInt64) : FrameParseResult :=
  if buf.length < kRpcHeaderBytes then
    { status := .needMoreData }
  else
    let header := readHeader buf
    if header.magic ≠ kMagic then
      { status := .errorMagicMismatch }
    else if wireVersion header.flags ≠ kRpcWireVersion then
      { status := .errorUnsupportedVersion, header := header }
    else if wireFeatures header.flags &&& ~~~kKnownWireFeatures ≠ 0 then
      { status := .errorUnsupportedFlags, header := header }
    else if header.metaLen = 0 then
      { status := .errorInvalidLength, header := header }
    else
      let metaSize : UInt64 := header.metaLen.toUInt64
      if metaSize > 0xFFFFFFFFFFFFFFFF - header.bodyLen.toUInt64 then
        { status := .errorInvalidLength, header := header }
      else
        let payloadSize := metaSize + header.bodyLen.toUInt64
        if payloadSize > maxFrameBytes
            ∨ UInt64.ofNat kRpcHeaderBytes > maxFrameBytes - payloadSize then
          { status := .errorFrameTooLarge, header := header }
        else
          let totalNeeded := UInt64.ofNat kRpcHeaderBytes + payloadSize
          if buf.length < totalNeeded.toNat then
            { status := .needMoreData, totalFrameBytes := totalNeeded,
              header := header }
          else
            let metaBuf :=
              (buf.drop kRpcHeaderBytes).take header.metaLen.toNat
            match codec.parse metaBuf with
            | none =>
                { status := .errorCorruptedFrame,
                  totalFrameBytes := totalNeeded, header := header }
            | some parsed =>
                let attachmentSize := parsed.attachmentSize
                if attachmentSize > header.bodyLen then
                  { status := .errorInvalidLength,
                    totalFrameBytes := totalNeeded, header := header }
                else
                  let protoBodyLen := header.bodyLen - attachmentSize
                  let bodyOffset := kRpcHeaderBytes + header.metaLen.toNat
                  { status := .success
                    totalFrameBytes := totalNeeded
                    header := header
                    rpcMeta := parsed
                    bodyIobuf :=
                      if protoBodyLen ≠ 0 then
                        (buf.drop bodyOffset).take protoBodyLen.toNat
                      else []
                    attachmentIobuf :=
                      if attachmentSize ≠ 0 then
                        (buf.drop (bodyOffset + protoBodyLen.toNat)).take
                          attachmentSize.toNat
                      else [] }

end AntRpc.Protocol
