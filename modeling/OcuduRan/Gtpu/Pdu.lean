/-
GTP-U headers (lib/gtpu/gtpu_pdu.cpp, TS 29.281 section 5): writing them, and dissecting any bytes that arrive.

A PDU starts with a base header of eight octets. With an extension, a sequence number or an N-PDU number four optional
octets follow, and behind them a chain of extension headers: a length octet that counts units of four octets, a
container, and the type of the next one. Allocations succeed: a failed one only makes gtpu_write_header refuse.

The out-parameter of gtpu_dissect_pdu is a fresh object, as in its callers.
-/
import OcuduRan.Support.BitDecoder

namespace OcuduRan.Gtpu

open BitStream
open Support (BufferView BitDecoder)

def gtpuBaseHeaderLen : ℕ := 8
def gtpuExtendedHeaderLen : ℕ := 12

def gtpuFlagsVersionV1 : UInt8 := 0x01
def gtpuFlagsGtpProtocol : UInt8 := 0x01

def gtpuMsgEchoRequest : UInt8 := 1
def gtpuMsgEchoResponse : UInt8 := 2
def gtpuMsgErrorIndication : UInt8 := 26
def gtpuMsgEndMarker : UInt8 := 254
def gtpuMsgDataPdu : UInt8 := 255

def gtpuMaxNumHeaderExtensions : ℕ := 10

/-- an enumeration over uint8_t: every octet can be cast to it -/
structure GtpuExtensionHeaderType where
  code : UInt8
deriving DecidableEq, Repr

namespace GtpuExtensionHeaderType

def noMoreExtensionHeaders : GtpuExtensionHeaderType := ⟨0b00000000⟩
def reserved0 : GtpuExtensionHeaderType := ⟨0b00000001⟩
def reserved1 : GtpuExtensionHeaderType := ⟨0b00000010⟩
def longPdcpPduNumber : GtpuExtensionHeaderType := ⟨0b00000011⟩
def longPdcpPduNumberLegacy : GtpuExtensionHeaderType := ⟨0b10000010⟩
def nrRanContainer : GtpuExtensionHeaderType := ⟨0b10000100⟩
def pduSessionContainer : GtpuExtensionHeaderType := ⟨0b10000101⟩
def pdcpPduNumber : GtpuExtensionHeaderType := ⟨0b11000000⟩
def reserved2 : GtpuExtensionHeaderType := ⟨0b11000001⟩
def reserved3 : GtpuExtensionHeaderType := ⟨0b11000010⟩

end GtpuExtensionHeaderType

def gtpuExtensionHeaderComprehensionCheck (type : GtpuExtensionHeaderType) : Bool :=
  if type ∈ [.noMoreExtensionHeaders, .longPdcpPduNumber, .longPdcpPduNumberLegacy, .nrRanContainer,
    .pduSessionContainer, .pdcpPduNumber] then true
  else if type ∈ [.reserved0, .reserved1, .reserved2, .reserved3] then false
  else
    let comp := type.code.toNat >>> 6
    comp ≠ 0b10 && comp ≠ 0b11

structure GtpuExtensionHeader where
  extensionHeaderType : GtpuExtensionHeaderType
  container : BufferView
deriving DecidableEq, Repr

/-- a static_vector of extension headers -/
structure ExtList where
  toList : List GtpuExtensionHeader
  length_le : toList.length ≤ gtpuMaxNumHeaderExtensions
deriving DecidableEq, Repr

namespace ExtList

def empty : ExtList := ⟨[], Nat.zero_le _⟩

/-- push_back, if the list is not full -/
def pushBack (l : ExtList) (ext : GtpuExtensionHeader) : Option ExtList :=
  if h : l.toList.length < gtpuMaxNumHeaderExtensions then
    some ⟨l.toList ++ [ext], by rw [List.length_append]; exact h⟩
  else none

end ExtList

structure GtpuFlags where
  version : UInt8 := 1
  protocolType : UInt8 := 0
  extHdr : Bool := false
  seqNumber : Bool := false
  nPdu : Bool := false
deriving DecidableEq, Repr

structure GtpuHeader where
  flags : GtpuFlags := {}
  messageType : UInt8 := 0
  length : UInt16 := 0
  teid : UInt32 := 0
  seqNumber : UInt16 := 0
  nPdu : UInt8 := 0
  nextExtHdrType : GtpuExtensionHeaderType := .noMoreExtensionHeaders
  extList : ExtList := .empty
deriving DecidableEq, Repr

structure GtpuDissectedPdu where
  buf : List UInt8
  hdr : GtpuHeader
  hdrLen : ℕ
deriving DecidableEq, Repr

def gtpuSupportedFlagsCheck (flags : GtpuFlags) : Bool :=
  if flags.version ≠ gtpuFlagsVersionV1 then false
  else if flags.protocolType ≠ gtpuFlagsGtpProtocol then false
  else if flags.nPdu then false
  else true

def gtpuSupportedMsgTypeCheck (messageType : UInt8) : Bool :=
  messageType ∈ [gtpuMsgDataPdu, gtpuMsgEchoRequest, gtpuMsgEchoResponse, gtpuMsgErrorIndication, gtpuMsgEndMarker]

/-! ## Writing -/

def gtpuGetLength (header : GtpuHeader) (sdu : List UInt8) : UInt16 :=
  let len := UInt16.ofNat sdu.length
  let len := if header.extList.toList ≠ [] ∨ header.flags.seqNumber ∨ header.flags.nPdu then len + 4 else len
  header.extList.toList.foldl (fun len ext => len + 2 + UInt16.ofNat ext.container.length) len

/-- the type that stands in front of these extension headers -/
def nextType : List GtpuExtensionHeader → GtpuExtensionHeaderType
  | [] => .noMoreExtensionHeaders
  | ext :: _ => ext.extensionHeaderType

def gtpuWriteExtHeader (encoder : List Bool) (ext : GtpuExtensionHeader) (next : GtpuExtensionHeaderType) :
    Except (Fault Unit) (List Bool) :=
  -- an uint8_t
  let payload := (1 + ext.container.length + 1) % 2 ^ 8
  if payload % 4 = 0 then
    .ok (encoder ++ natBits 8 (payload / 4) ++ bitsOf ext.container.bytes ++ natBits 8 next.code.toNat)
  else .error .assertion

def gtpuWriteExtHeaders (encoder : List Bool) : List GtpuExtensionHeader → Except (Fault Unit) (List Bool)
  | [] => .ok encoder
  | ext :: exts =>
    match gtpuWriteExtHeader encoder ext (nextType exts) with
    | .ok encoder => gtpuWriteExtHeaders encoder exts
    | .error e => .error e

/-- what is packed in front of the extension headers -/
def gtpuPackHeader (pdu : List UInt8) (header : GtpuHeader) : List Bool :=
  let exts := header.extList.toList
  natBits 3 header.flags.version.toNat ++ natBits 1 header.flags.protocolType.toNat ++ natBits 1 0 ++
    natBits 1 (if exts = [] then 0 else 1) ++ natBits 1 (if header.flags.seqNumber then 1 else 0) ++
    natBits 1 (if header.flags.nPdu then 1 else 0) ++
    natBits 8 header.messageType.toNat ++ natBits 16 (gtpuGetLength header pdu).toNat ++ natBits 32 header.teid.toNat ++
    if exts ≠ [] ∨ header.flags.seqNumber ∨ header.flags.nPdu then
      natBits 16 header.seqNumber.toNat ++ natBits 8 header.nPdu.toNat ++ natBits 8 (nextType exts).code.toNat
    else []

/-- gtpu_write_header: the PDU with its header in front, or refused -/
def gtpuWriteHeader (pdu : List UInt8) (header : GtpuHeader) : Except (Fault Unit) (List UInt8) :=
  if !gtpuSupportedFlagsCheck header.flags then .error (.code ())
  else if !gtpuSupportedMsgTypeCheck header.messageType then .error (.code ())
  else
    match gtpuWriteExtHeaders (gtpuPackHeader pdu header) header.extList.toList with
    | .ok encoder => .ok (toBytes encoder ++ pdu)
    | .error e => .error e

/-! ## Dissecting -/

def gtpuUnpackExtHeaderType (d : BitDecoder) : GtpuExtensionHeaderType × BitDecoder :=
  let tmp := d.unpack 8
  (⟨UInt8.ofNat tmp.val⟩, tmp.next)

/-- length * 4 - 2 as an uint16_t -/
def extPayload (length : UInt8) : ℕ := (length.toNat * 4 + 2 ^ 16 - 2) % 2 ^ 16

/-- the extension header, the type of the next one, the decoder -/
def gtpuReadExtHeader (type : GtpuExtensionHeaderType) (d : BitDecoder) :
    GtpuExtensionHeader × GtpuExtensionHeaderType × BitDecoder :=
  let length := d.unpack 8
  let container := length.next.unpackAlignedBytes (extPayload (UInt8.ofNat length.val))
  let next := gtpuUnpackExtHeaderType container.2
  (⟨type, container.1⟩, next.1, next.2)

/-- the do-while loop; a full list ends it -/
def gtpuReadExtLoop : ℕ → ExtList → GtpuExtensionHeaderType → BitDecoder → Option (ExtList × BitDecoder)
  | 0, _, _, _ => none
  | fuel + 1, l, type, d =>
    if !gtpuExtensionHeaderComprehensionCheck type then none
    else
      let ext := gtpuReadExtHeader type d
      match l.pushBack ext.1 with
      | none => none
      | some l =>
        if ext.2.1 ≠ .noMoreExtensionHeaders then gtpuReadExtLoop fuel l ext.2.1 ext.2.2 else some (l, ext.2.2)

def gtpuUnpackFlags (d : BitDecoder) : GtpuFlags × BitDecoder :=
  let version := d.unpack 3
  let protocolType := version.next.unpack 1
  let spare := protocolType.next.unpack 1
  let extHdr := spare.next.unpack 1
  let seqNumber := extHdr.next.unpack 1
  let nPdu := seqNumber.next.unpack 1
  (⟨UInt8.ofNat version.val, UInt8.ofNat protocolType.val, decide (extHdr.val ≠ 0), decide (seqNumber.val ≠ 0),
    decide (nPdu.val ≠ 0)⟩, nPdu.next)

/-- the optional fields; refused if they do not fit or announce an extension that cannot be skipped -/
def gtpuUnpackOptional (buf : List UInt8) (hdr : GtpuHeader) (d : BitDecoder) : Option (GtpuHeader × BitDecoder) :=
  if hdr.flags.extHdr ∨ hdr.flags.seqNumber ∨ hdr.flags.nPdu then
    if buf.length < gtpuExtendedHeaderLen then none
    else
      let seqNumber := d.unpack 16
      let nPdu := seqNumber.next.unpack 8
      let next := gtpuUnpackExtHeaderType nPdu.next
      if !gtpuExtensionHeaderComprehensionCheck next.1 then none
      else some ({ hdr with
          seqNumber := UInt16.ofNat seqNumber.val
          nPdu := UInt8.ofNat nPdu.val
          nextExtHdrType := next.1 }, next.2)
  else some (hdr, d)

def gtpuUnpackExtensions (hdr : GtpuHeader) (d : BitDecoder) : Option (GtpuHeader × BitDecoder) :=
  if hdr.flags.extHdr then
    if hdr.nextExtHdrType = .noMoreExtensionHeaders then none
    else
      match gtpuReadExtLoop (gtpuMaxNumHeaderExtensions + 1) hdr.extList hdr.nextExtHdrType d with
      | some (l, d) => some ({ hdr with extList := l }, d)
      | none => none
  else some (hdr, d)

/-- the fields behind the flags -/
def gtpuUnpackBase (flags : GtpuFlags) (d : BitDecoder) : GtpuHeader × BitDecoder :=
  let messageType := d.unpack 8
  let length := messageType.next.unpack 16
  let teid := length.next.unpack 32
  ({ flags := flags, messageType := UInt8.ofNat messageType.val, length := UInt16.ofNat length.val,
     teid := UInt32.ofNat teid.val }, teid.next)

def gtpuDissectPdu (rawPdu : List UInt8) : Option GtpuDissectedPdu :=
  if rawPdu.length < gtpuBaseHeaderLen then none
  else
    let flags := gtpuUnpackFlags (.ofBuffer rawPdu)
    if !gtpuSupportedFlagsCheck flags.1 then none
    else
      let base := gtpuUnpackBase flags.1 flags.2
      let expectedLength := UInt16.ofNat (rawPdu.length - gtpuBaseHeaderLen)
      if base.1.length ≠ expectedLength then none
      else
        match gtpuUnpackOptional rawPdu base.1 base.2 with
        | none => none
        | some (hdr, d) =>
          match gtpuUnpackExtensions hdr d with
          | none => none
          | some (hdr, d) => some ⟨rawPdu, hdr, d.nofBytes⟩

def gtpuExtractMsg (pdu : GtpuDissectedPdu) : List UInt8 := pdu.buf.drop pdu.hdrLen

end OcuduRan.Gtpu
