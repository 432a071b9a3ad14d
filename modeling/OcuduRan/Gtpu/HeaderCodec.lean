/-
GTP-U headers that gtpu_write_header has written, read back by gtpu_dissect_pdu.

- `header_codec_iff`: a written header comes back, with its containers and the payload behind it, if and only if every
  extension header of it is `Readable`; and of any PDU that is accepted the parts tile the header if and only if its
  chain of extension headers is whole.
- `Readable`: the type is one that the reader understands and does not end the chain, and the container has at most 250
  octets, since the writer computes the size of an extension header in an uint8_t.

Witness that both fail otherwise: `wrapped_and_empty_extension_headers`.
-/
import OcuduRan.Gtpu.PduFormat

namespace OcuduRan.Gtpu

open BitStream GtpuExtensionHeader List ExtList
open Support (BufferView BitDecoder)
open Support.BitDecoder (after)

/-! ## On the wire -/

/-- the extension headers on the wire -/
def extBytes : List GtpuExtensionHeader → List UInt8
  | [] => []
  | ext :: exts =>
    UInt8.ofNat ((1 + ext.container.length + 1) % 2 ^ 8 / 4) ::
      (ext.container.bytes ++ (nextType exts).code :: extBytes exts)

/-- container lengths that a header may have -/
structure Sized (ext : GtpuExtensionHeader) : Prop where
  units : ext.container.length % 4 = 2
  short : ext.container.length ≤ 1018

instance (ext : GtpuExtensionHeader) : Decidable (Sized ext) :=
  decidable_of_iff (ext.container.length % 4 = 2 ∧ ext.container.length ≤ 1018)
  ⟨fun h => ⟨h.1, h.2⟩, fun h => ⟨h.1, h.2⟩⟩

section Written

variable {pdu : List UInt8} {header : GtpuHeader} {exts : List GtpuExtensionHeader}

theorem toNat_lengthOctet (n : ℕ) : (UInt8.ofNat (n % 2 ^ 8 / 4)).toNat = n % 2 ^ 8 / 4 := by
  refine UInt8.toNat_ofNat_of_lt' ?_
  show _ < 256
  omega

theorem gtpuWriteExtHeaders_eq (encoder : List Bool) (h : ∀ ext ∈ exts, Sized ext) :
    gtpuWriteExtHeaders encoder exts = .ok (encoder ++ bitsOf (extBytes exts)) := by
  induction exts generalizing encoder with
  | nil => simp [gtpuWriteExtHeaders, extBytes]
  | cons ext exts ih =>
    have hunits := (h ext mem_cons_self).units
    have haligned : (1 + ext.container.length + 1) % 2 ^ 8 % 4 = 0 := by omega
    have hone : gtpuWriteExtHeader encoder ext (nextType exts) = .ok (encoder ++
        natBits 8 ((1 + ext.container.length + 1) % 2 ^ 8 / 4) ++ bitsOf ext.container.bytes ++
          natBits 8 (nextType exts).code.toNat) := if_pos haligned
    unfold gtpuWriteExtHeaders
    rw [hone]
    simp only
    rw [ih _ fun e he => h e (mem_cons_of_mem ext he), extBytes, bitsOf_cons, toNat_lengthOctet, bitsOf_append,
      bitsOf_cons]
    simp only [append_assoc]

theorem length_gtpuPackHeader (pdu : List UInt8) (header : GtpuHeader) : (gtpuPackHeader pdu header).length =
      if header.extList.toList ≠ [] ∨ header.flags.seqNumber ∨ header.flags.nPdu then 96 else 64 := by
  unfold gtpuPackHeader
  simp only [length_append, length_natBits]
  split_ifs <;> simp

theorem dvd_length_gtpuPackHeader (pdu : List UInt8) (header : GtpuHeader) :
    8 ∣ (gtpuPackHeader pdu header).length := by
  rw [length_gtpuPackHeader]
  split_ifs <;> decide

/-- an accepted header, and the bits of its PDU -/
structure Accepted (pdu : List UInt8) (header : GtpuHeader) (written : List UInt8) : Prop where
  version : header.flags.version = gtpuFlagsVersionV1
  protocol : header.flags.protocolType = gtpuFlagsGtpProtocol
  nPdu : header.flags.nPdu = false
  written_eq : written = toBytes (gtpuPackHeader pdu header) ++ (extBytes header.extList.toList ++ pdu)

theorem accepted_of_gtpuWriteHeader {written : List UInt8} (hsized : ∀ ext ∈ header.extList.toList, Sized ext)
    (h : gtpuWriteHeader pdu header = .ok written) : Accepted pdu header written := by
  unfold gtpuWriteHeader at h
  split_ifs at h with hflags hmsg
  rw [gtpuWriteExtHeaders_eq _ hsized] at h
  have hcheck : gtpuSupportedFlagsCheck header.flags = true := by simpa using hflags
  unfold gtpuSupportedFlagsCheck at hcheck
  split_ifs at hcheck with hversion hprotocol hnpdu
  refine ⟨not_not.1 hversion, not_not.1 hprotocol, Bool.eq_false_iff.2 hnpdu, ?_⟩
  rw [← Except.ok.inj h, toBytes_append (dvd_length_gtpuPackHeader pdu header), toBytes_bitsOf, append_assoc]

theorem length_extBytes_cons (ext : GtpuExtensionHeader) (exts : List GtpuExtensionHeader) :
    (extBytes (ext :: exts)).length = ext.container.length + 2 + (extBytes exts).length := by
  simp only [extBytes, length_cons, length_append, BufferView.length]
  omega

theorem foldl_length (exts : List GtpuExtensionHeader) (len : UInt16) :
    exts.foldl (fun len ext => len + 2 + UInt16.ofNat ext.container.length) len =
      len + UInt16.ofNat (extBytes exts).length := by
  induction exts generalizing len with
  | nil => simp [extBytes]
  | cons ext exts ih =>
    rw [foldl_cons, ih, length_extBytes_cons, Nat.add_comm ext.container.length, Nat.add_assoc, UInt16.ofNat_add,
      UInt16.ofNat_add]
    simp only [UInt16.add_assoc]
    rfl

/-- the length field: everything behind the base header -/
theorem gtpuGetLength_eq (pdu : List UInt8) (header : GtpuHeader) :
    gtpuGetLength header pdu = UInt16.ofNat ((gtpuPackHeader pdu header).length / 8 - 8 +
      (extBytes header.extList.toList ++ pdu).length) := by
  unfold gtpuGetLength
  rw [foldl_length, length_gtpuPackHeader, length_append]
  split_ifs
  · rw [UInt16.ofNat_add, UInt16.ofNat_add]
    show UInt16.ofNat pdu.length + 4 + _ = 4 + _
    rw [UInt16.add_comm (UInt16.ofNat pdu.length), UInt16.add_assoc, UInt16.add_comm (UInt16.ofNat pdu.length)]
  · rw [UInt16.ofNat_add, UInt16.ofNat_add]
    show _ = 0 + _
    rw [UInt16.zero_add, UInt16.add_comm]

/-! ## Read back -/

/-- type and contents of an extension header, wherever its container lies -/
def GtpuExtensionHeader.content (ext : GtpuExtensionHeader) : GtpuExtensionHeaderType × List UInt8 :=
  (ext.extensionHeaderType, ext.container.bytes)

theorem GtpuExtensionHeader.bytes_of_content {a b : GtpuExtensionHeader} (h : a.content = b.content) :
    a.container.bytes = b.container.bytes := congrArg Prod.snd h

/-- an extension header that the reader takes and finds the end of -/
structure Readable (ext : GtpuExtensionHeader) : Prop where
  understood : gtpuExtensionHeaderComprehensionCheck ext.extensionHeaderType = true
  not_last : ext.extensionHeaderType ≠ .noMoreExtensionHeaders
  short : ext.container.length ≤ 250

/-- what comes back of a header in front of `pdu`. The E flag says whether there are extension headers, and without
optional fields sequence number and N-PDU number are not on the wire -/
structure Returned (pdu : List UInt8) (header : GtpuHeader) (dissected : GtpuDissectedPdu) : Prop where
  flags : dissected.hdr.flags = { header.flags with extHdr := decide (header.extList.toList ≠ []) }
  messageType : dissected.hdr.messageType = header.messageType
  length : dissected.hdr.length = gtpuGetLength header pdu
  teid : dissected.hdr.teid = header.teid
  optional : HasOptional dissected.hdr.flags →
    dissected.hdr.seqNumber = header.seqNumber ∧ dissected.hdr.nPdu = header.nPdu
  extensions : dissected.hdr.extList.toList.map content =
    header.extList.toList.map content
  payload : gtpuExtractMsg dissected = pdu

def RoundTrips (pdu : List UInt8) (header : GtpuHeader) (written : List UInt8) : Prop :=
  ∃ dissected, gtpuDissectPdu written = some dissected ∧ Returned pdu header dissected

section Chain

variable {buf rest : List UInt8} {i fuel : ℕ} {l l' : ExtList} {d' : BitDecoder} {ext : GtpuExtensionHeader}

theorem getD_of_drop {b : UInt8} (h : buf.drop i = b :: rest) :
    buf.getD i 0 = b ∧ i < buf.length ∧ buf.drop (i + 1) = rest := by
  have hlt : i < buf.length := by
    by_contra hge
    rw [drop_eq_nil_of_le (not_lt.1 hge)] at h
    cases h
  rw [drop_eq_getElem_cons hlt] at h
  obtain ⟨hb, hrest⟩ := cons.inj h
  refine ⟨?_, hlt, hrest⟩
  rw [getD_eq_getElem?_getD, getElem?_eq_getElem hlt, hb]
  rfl

/-- a container below 254 octets is followed by its type where the length octet says -/
theorem read_short (hsized : Sized ext) (hshort : ext.container.length ≤ 250)
    (h : buf.drop i = extBytes (ext :: exts) ++ rest) (type : GtpuExtensionHeaderType) :
    ∃ first, gtpuReadExtHeader type (after buf (8 * i)) =
      (⟨type, ⟨first, ext.container.bytes⟩⟩, nextType exts, after buf (8 * (i + (ext.container.length + 2)))) ∧
      buf.drop (i + (ext.container.length + 2)) = extBytes exts ++ rest := by
  have hunits := hsized.units
  obtain ⟨hlength, -, hdrop₁⟩ := getD_of_drop h
  have htail : buf.drop (i + 1) = ext.container.bytes ++ (nextType exts).code :: (extBytes exts ++ rest) :=
    hdrop₁.trans (append_assoc _ _ _)
  have hoctet : (buf.getD i 0).toNat = (ext.container.length + 2) / 4 := by
    have hsize : (1 + ext.container.length + 1) % 2 ^ 8 / 4 = (ext.container.length + 2) / 4 := by omega
    rw [hlength, hsize]
    refine UInt8.toNat_ofNat_of_lt' ?_
    show _ < 256
    omega
  have hunit : 4 * (buf.getD i 0).toNat = ext.container.length + 2 := by omega
  have hnext : buf.drop (i + 1 + ext.container.length) = (nextType exts).code :: (extBytes exts ++ rest) := by
    rw [← drop_drop, htail]
    exact drop_left' rfl
  obtain ⟨htype, hlt, hdrop⟩ := getD_of_drop hnext
  have hwhole : Whole buf i := by
    refine ⟨fun hz => ?_, by omega⟩
    rw [hz] at hunit
    change 4 * 0 = _ at hunit
    omega
  have hview : (buf.drop (i + 1)).take (ext.container.length + 2 - 2) = ext.container.bytes := by
    rw [htail]
    exact take_left' rfl
  refine ⟨i + 1, ?_, ?_⟩
  · rw [hwhole.gtpuReadExtHeader_eq, hunit, hview,
      show i + (ext.container.length + 2) - 1 = i + 1 + ext.container.length by omega, htype]
  · rw [show i + (ext.container.length + 2) = i + 1 + ext.container.length + 1 by omega, hdrop]

/-- the size of a container that was read -/
theorem length_container_read (h : i ≤ buf.length) (type : GtpuExtensionHeaderType) :
    (gtpuReadExtHeader type (after buf (8 * i))).1.container.bytes.length = 0 ∨
      (gtpuReadExtHeader type (after buf (8 * i))).1.container.bytes.length = extPayload (buf.getD i 0) := by
  obtain ⟨ok, hread⟩ := unpack_octet_or_end h
  have hk : min (i + 1) buf.length ≤ buf.length := min_le_right _ _
  generalize min (i + 1) buf.length = k at hread hk
  rcases hv : (after buf (8 * k)).unpackAlignedBytes (extPayload (buf.getD i 0)) with ⟨v, d⟩
  have hres := @gtpuReadExtHeader_of type _ _ _ _ ok _ v _ hread hv rfl
  rw [hres]
  show v.bytes.length = 0 ∨ v.bytes.length = extPayload (buf.getD i 0)
  by_cases hz : extPayload (buf.getD i 0) = 0
  · rw [hz, BitDecoder.after_octet] at hv
    obtain ⟨rfl, -⟩ := Prod.mk.inj hv
    exact .inl rfl
  · by_cases hroom : k + extPayload (buf.getD i 0) ≤ buf.length
    · rw [BitDecoder.unpackAlignedBytes_octet hz hroom] at hv
      obtain ⟨rfl, -⟩ := Prod.mk.inj hv
      refine .inr ?_
      rw [length_take, length_drop]
      omega
    · rw [BitDecoder.unpackAlignedBytes_short hk (not_le.1 hroom)] at hv
      obtain ⟨rfl, -⟩ := Prod.mk.inj hv
      exact .inl rfl

/-- from 254 octets on the length octet wraps, and the container read is another one -/
theorem short_of_read (hsized : Sized ext) (h : buf.drop i = extBytes (ext :: exts) ++ rest)
    {type : GtpuExtensionHeaderType}
    (hread : (gtpuReadExtHeader type (after buf (8 * i))).1.container.bytes = ext.container.bytes) :
    ext.container.length ≤ 250 := by
  have hle := hsized.short
  obtain ⟨hlength, hlt, -⟩ := getD_of_drop h
  have hpayload : extPayload (buf.getD i 0) ≤ 250 ∨ extPayload (buf.getD i 0) = 65534 := by
    rw [hlength]
    unfold extPayload
    rw [toNat_lengthOctet]
    omega
  have hlen := length_container_read hlt.le type
  rw [hread] at hlen
  change ext.container.length = 0 ∨ ext.container.length = _ at hlen
  omega

theorem gtpuReadExtLoop_step {d d₁ : BitDecoder} {type next : GtpuExtensionHeaderType} {l₁ : ExtList}
    (hcheck : gtpuExtensionHeaderComprehensionCheck type = true) (hread : gtpuReadExtHeader type d = (ext, next, d₁))
    (hpush : l.pushBack ext = some l₁) : gtpuReadExtLoop (fuel + 1) l type d =
      if next ≠ .noMoreExtensionHeaders then gtpuReadExtLoop fuel l₁ next d₁ else some (l₁, d₁) := by
  conv_lhs => unfold gtpuReadExtLoop
  simp only [hcheck, Bool.not_true, Bool.false_eq_true, if_false, hread, hpush]

theorem ExtList.exists_pushBack (ext : GtpuExtensionHeader) (h : l.toList.length < gtpuMaxNumHeaderExtensions) :
    ∃ l₁, l.pushBack ext = some l₁ := ⟨_, dif_pos h⟩

/-- the loop reads a chain of readable headers back -/
theorem gtpuReadExtLoop_readable (hsized : ∀ e ∈ ext :: exts, Sized e) (hread : ∀ e ∈ ext :: exts, Readable e)
    (hfuel : exts.length < fuel) (hroom : l.toList.length + (ext :: exts).length ≤ gtpuMaxNumHeaderExtensions)
    (h : buf.drop i = extBytes (ext :: exts) ++ rest) :
    ∃ l', gtpuReadExtLoop fuel l ext.extensionHeaderType (after buf (8 * i)) =
        some (l', after buf (8 * (i + (extBytes (ext :: exts)).length))) ∧ l'.toList.map content =
        l.toList.map content ++ (ext :: exts).map content := by
  induction exts generalizing ext fuel l i with
  | nil =>
    obtain ⟨fuel, rfl⟩ := Nat.exists_eq_succ_of_ne_zero (Nat.ne_of_gt hfuel)
    have hext := hread ext mem_cons_self
    obtain ⟨first, hone, -⟩ := read_short (hsized ext mem_cons_self) hext.short h ext.extensionHeaderType
    obtain ⟨l₁, hpush⟩ := exists_pushBack ⟨ext.extensionHeaderType, ⟨first, ext.container.bytes⟩⟩
      (show l.toList.length < _ by simp at hroom; omega)
    refine ⟨l₁, ?_, ?_⟩
    · rw [gtpuReadExtLoop_step hext.understood hone hpush, length_extBytes_cons]
      rfl
    · rw [pushBack_eq hpush, map_append]
      rfl
  | cons ext' exts ih =>
    obtain ⟨fuel, rfl⟩ := Nat.exists_eq_succ_of_ne_zero (Nat.ne_of_gt (Nat.zero_lt_of_lt hfuel))
    have hext := hread ext mem_cons_self
    obtain ⟨first, hone, hdrop⟩ := read_short (hsized ext mem_cons_self) hext.short h ext.extensionHeaderType
    obtain ⟨l₁, hpush⟩ := exists_pushBack ⟨ext.extensionHeaderType, ⟨first, ext.container.bytes⟩⟩
      (show l.toList.length < _ by simp at hroom; omega)
    have hl₁ := pushBack_eq hpush
    obtain ⟨l', hloop, hl'⟩ := @ih _ fuel l₁ ext' (fun e he => hsized e (mem_cons_of_mem ext he))
      (fun e he => hread e (mem_cons_of_mem ext he)) (Nat.lt_of_succ_lt_succ hfuel)
      (by rw [hl₁]; simp at hroom ⊢; omega) hdrop
    refine ⟨l', ?_, ?_⟩
    · have hmore : nextType (ext' :: exts) ≠ .noMoreExtensionHeaders :=
        (hread ext' (mem_cons_of_mem ext mem_cons_self)).not_last
      rw [gtpuReadExtLoop_step hext.understood hone hpush, if_pos hmore]
      refine hloop.trans ?_
      rw [length_extBytes_cons ext, Nat.add_assoc]
    · rw [hl', hl₁, map_append, append_assoc]
      rfl

theorem gtpuReadExtLoop_keeps {d : BitDecoder} {type : GtpuExtensionHeaderType}
    (h : gtpuReadExtLoop fuel l type d = some (l', d')) : ∃ more, l'.toList = l.toList ++ more := by
  induction fuel generalizing l type d with
  | zero => cases h
  | succ fuel ih =>
    obtain ⟨-, l₁, hpush, ⟨-, rfl, -⟩ | ⟨-, hloop⟩⟩ := gtpuReadExtLoop_succ h
    · exact ⟨_, pushBack_eq hpush⟩
    · obtain ⟨more, hmore⟩ := ih hloop
      exact ⟨_, by rw [hmore, pushBack_eq hpush, append_assoc]⟩

variable (hsized : ∀ e ∈ ext :: exts, Sized e) (hfirst : ext.extensionHeaderType ≠ .noMoreExtensionHeaders)
  (h : buf.drop i = extBytes (ext :: exts) ++ rest)
  (hloop : gtpuReadExtLoop fuel l ext.extensionHeaderType (after buf (8 * i)) = some (l', d'))
  (hsame : l'.toList.map content =
    l.toList.map content ++ (ext :: exts).map content)
include hsized hfirst h hloop hsame

/-- the first header of a chain that the loop reads back, and the turns behind it -/
theorem readable_head : Readable ext ∧ ∃ fuel' l₁, l₁.toList.map content = l.toList.map content ++ [ext.content] ∧
      (nextType exts = .noMoreExtensionHeaders ∧ l' = l₁ ∨ nextType exts ≠ .noMoreExtensionHeaders ∧
        gtpuReadExtLoop fuel' l₁ (nextType exts) (after buf (8 * (i + (ext.container.length + 2)))) =
        some (l', d')) := by
  cases fuel with
  | zero => cases hloop
  | succ fuel =>
    obtain ⟨hcheck, l₁, hpush, hturn⟩ := gtpuReadExtLoop_succ hloop
    have hl₁ := pushBack_eq hpush
    obtain ⟨more, hmore⟩ : ∃ more, l'.toList = l₁.toList ++ more := by
      obtain ⟨-, rfl, -⟩ | ⟨-, hrest⟩ := hturn
      · exact ⟨[], (append_nil _).symm⟩
      · exact gtpuReadExtLoop_keeps hrest
    have hcontent : (gtpuReadExtHeader ext.extensionHeaderType (after buf (8 * i))).1.content = ext.content := by
      rw [hmore, hl₁, map_append, map_append, append_assoc] at hsame
      exact (cons.inj (append_cancel_left hsame)).1
    have hone := hsized ext mem_cons_self
    have hshort := short_of_read hone h (bytes_of_content hcontent)
    obtain ⟨first, hread, -⟩ := read_short hone hshort h ext.extensionHeaderType
    refine ⟨⟨hcheck, hfirst, hshort⟩, fuel, l₁, ?_, ?_⟩
    · rw [hl₁, map_append, map_singleton, hcontent]
    · rw [hread] at hturn
      exact hturn.imp (fun hend => ⟨hend.1, hend.2.1⟩) id

/-- a chain that the loop reads back is readable -/
theorem readable_of_gtpuReadExtLoop : ∀ e ∈ ext :: exts, Readable e := by
  induction exts generalizing ext fuel l i with
  | nil =>
    obtain ⟨hext, -⟩ := readable_head hsized hfirst h hloop hsame
    intro e he
    rw [mem_singleton.1 he]
    exact hext
  | cons ext' exts ih =>
    obtain ⟨hext, fuel, l₁, hl₁, hturn⟩ := readable_head hsized hfirst h hloop hsame
    obtain ⟨-, -, hdrop⟩ := read_short (hsized ext mem_cons_self) hext.short h ext.extensionHeaderType
    obtain ⟨-, rfl⟩ | ⟨hmore, hloop⟩ := hturn
    · -- the loop has ended and the list is too short
      have hlen := congrArg length (hl₁.symm.trans hsame)
      simp at hlen
    · intro e he
      rcases mem_cons.1 he with rfl | he
      · exact hext
      · refine ih (fun e he => hsized e (mem_cons_of_mem ext he)) hmore hdrop hloop ?_ e he
        rw [hsame, hl₁, append_assoc]
        rfl

end Chain

/-! ## The fields in front -/

/-- the flags of a written header -/
def wireFlags (header : GtpuHeader) : GtpuFlags := { header.flags with extHdr := decide (header.extList.toList ≠ []) }

/-- base header of a written PDU -/
def wireBase (pdu : List UInt8) (header : GtpuHeader) : GtpuHeader :=
  { flags := wireFlags header, messageType := header.messageType, length := gtpuGetLength header pdu,
    teid := header.teid }

/-- with the optional fields -/
def wireOptional (pdu : List UInt8) (header : GtpuHeader) : GtpuHeader :=
  { wireBase pdu header with
    seqNumber := header.seqNumber, nPdu := header.nPdu, nextExtHdrType := nextType header.extList.toList }

def optionalBits (header : GtpuHeader) : List Bool :=
  if header.extList.toList ≠ [] ∨ header.flags.seqNumber ∨ header.flags.nPdu then
    natBits 16 header.seqNumber.toNat ++ (natBits 8 header.nPdu.toNat ++
    natBits 8 (nextType header.extList.toList).code.toNat)
  else []

variable {written : List UInt8}

namespace Accepted

section

variable (h : Accepted pdu header written)
include h

theorem bits : bitsOf written = gtpuPackHeader pdu header ++ bitsOf (extBytes header.extList.toList ++ pdu) := by
  obtain ⟨n, hn⟩ := dvd_length_gtpuPackHeader pdu header
  have hpad : 8 * (((gtpuPackHeader pdu header).length + 7) / 8) - (gtpuPackHeader pdu header).length = 0 := by omega
  rw [h.written_eq, bitsOf_append, bitsOf_toBytes, hpad, replicate_zero, append_nil]

theorem packHeader_eq : gtpuPackHeader pdu header = natBits 3 1 ++ (natBits 1 1 ++ (natBits 1 0 ++
      (natBits 1 (if header.extList.toList = [] then 0 else 1) ++
      (natBits 1 (if header.flags.seqNumber then 1 else 0) ++
        (natBits 1 0 ++ (natBits 8 header.messageType.toNat ++ (natBits 16 (gtpuGetLength header pdu).toNat ++
          (natBits 32 header.teid.toNat ++ optionalBits header)))))))) := by
  have hversion : header.flags.version.toNat = 1 := by rw [h.version]; rfl
  have hprotocol : header.flags.protocolType.toNat = 1 := by rw [h.protocol]; rfl
  unfold gtpuPackHeader optionalBits
  simp only [hversion, hprotocol, h.nPdu, Bool.false_eq_true, if_false, append_assoc]

theorem gtpuUnpackFlags_eq : gtpuUnpackFlags (.ofBuffer written) = (wireFlags header, after written 8) ∧
      (bitsOf written).drop 8 = natBits 8 header.messageType.toNat ++ (natBits 16 (gtpuGetLength header pdu).toNat ++
        (natBits 32 header.teid.toNat ++ (optionalBits header ++ bitsOf (extBytes header.extList.toList ++ pdu)))) := by
  have hstart : BitDecoder.ofBuffer written = after written 0 := rfl
  have hbits : (bitsOf written).drop 0 = _ := h.bits
  rw [h.packHeader_eq] at hbits
  simp only [append_assoc] at hbits
  obtain ⟨hversion, hbits⟩ := BitDecoder.unpack_natBits (by decide) (by decide) hbits
  obtain ⟨hprotocol, hbits⟩ := BitDecoder.unpack_natBits (by decide) (by decide) hbits
  obtain ⟨hspare, hbits⟩ := BitDecoder.unpack_natBits (by decide) (by decide) hbits
  obtain ⟨hext, hbits⟩ := BitDecoder.unpack_natBits (by decide) (by split_ifs <;> decide) hbits
  obtain ⟨hseq, hbits⟩ := BitDecoder.unpack_natBits (by decide) (by split_ifs <;> decide) hbits
  obtain ⟨hnpdu, hbits⟩ := BitDecoder.unpack_natBits (by decide) (by decide) hbits
  refine ⟨?_, hbits⟩
  have hflags : wireFlags header = ⟨1, 1, decide (header.extList.toList ≠ []), header.flags.seqNumber, false⟩ := by
    simp only [wireFlags, h.version, h.protocol, h.nPdu]
    rfl
  unfold gtpuUnpackFlags
  simp only [hstart, hversion, hprotocol, hspare, hext, hseq, hnpdu, hflags, Prod.mk.injEq, GtpuFlags.mk.injEq]
  refine ⟨⟨rfl, rfl, ?_, ?_, rfl⟩, trivial⟩
  · by_cases hnil : header.extList.toList = [] <;> simp [hnil]
  · cases header.flags.seqNumber <;> rfl

theorem gtpuUnpackBase_eq :
    gtpuUnpackBase (wireFlags header) (after written 8) = (wireBase pdu header, after written 64) ∧
      (bitsOf written).drop 64 = optionalBits header ++ bitsOf (extBytes header.extList.toList ++ pdu) := by
  obtain ⟨-, hbits⟩ := h.gtpuUnpackFlags_eq
  obtain ⟨hmsg, hbits⟩ := BitDecoder.unpack_natBits (by decide) (UInt8.toNat_lt _) hbits
  obtain ⟨hlength, hbits⟩ := BitDecoder.unpack_natBits (by decide) (UInt16.toNat_lt _) hbits
  obtain ⟨hteid, hbits⟩ := BitDecoder.unpack_natBits (by decide) (UInt32.toNat_lt _) hbits
  refine ⟨?_, hbits⟩
  unfold gtpuUnpackBase wireBase
  simp only [hmsg, hlength, hteid, UInt8.ofNat_toNat, UInt16.ofNat_toNat, UInt32.ofNat_toNat]

theorem length_eq :
    written.length = (gtpuPackHeader pdu header).length / 8 + (extBytes header.extList.toList ++ pdu).length := by
  obtain ⟨n, hn⟩ := dvd_length_gtpuPackHeader pdu header
  rw [h.written_eq, length_append, length_toBytes]
  omega

theorem drop_header {n : ℕ} (hpack : (gtpuPackHeader pdu header).length = 8 * n) :
    written.drop n = extBytes header.extList.toList ++ pdu := by
  rw [h.written_eq]
  refine drop_left' ?_
  rw [length_toBytes, hpack]
  omega

/-- up to the optional fields a written header is accepted -/
theorem gtpuDissectPdu_iff {dissected : GtpuDissectedPdu} : gtpuDissectPdu written = some dissected ↔
    ∃ hdr d hdr' d', gtpuUnpackOptional written (wireBase pdu header) (after written 64) = some (hdr, d) ∧
      gtpuUnpackExtensions hdr d = some (hdr', d') ∧ dissected = ⟨written, hdr', d'.nofBytes⟩ := by
  have hlen := h.length_eq
  have hpack := length_gtpuPackHeader pdu header
  have hlong : ¬written.length < gtpuBaseHeaderLen := by
    rw [hlen, hpack]
    unfold gtpuBaseHeaderLen
    split_ifs <;> omega
  have hcheck : gtpuSupportedFlagsCheck (wireFlags header) = true := by
    unfold gtpuSupportedFlagsCheck wireFlags
    simp [h.version, h.protocol, h.nPdu]
  have hlength : (wireBase pdu header).length = UInt16.ofNat (written.length - gtpuBaseHeaderLen) := by
    show gtpuGetLength header pdu = _
    rw [gtpuGetLength_eq, hlen]
    congr 1
    unfold gtpuBaseHeaderLen
    rw [hpack]
    split_ifs <;> omega
  unfold gtpuDissectPdu
  simp only [if_neg hlong, h.gtpuUnpackFlags_eq.1, h.gtpuUnpackBase_eq.1, hcheck, hlength, Bool.not_true,
    Bool.false_eq_true, if_false, ne_eq, not_true_eq_false]
  cases hopt : gtpuUnpackOptional written (wireBase pdu header) (after written 64) with
  | none => simp
  | some res =>
    obtain ⟨hdr, d⟩ := res
    cases hext : gtpuUnpackExtensions hdr d with
    | none => simp [hext]
    | some res => simp [hext, Prod.ext_iff, eq_comm]

/-- the optional fields, if there are any -/
theorem gtpuUnpackOptional_eq (hopt : header.extList.toList ≠ [] ∨ header.flags.seqNumber = true) :
    gtpuUnpackOptional written (wireBase pdu header) (after written 64) =
      (if gtpuExtensionHeaderComprehensionCheck (nextType header.extList.toList) then
        some (wireOptional pdu header, after written (8 * gtpuExtendedHeaderLen))
      else none) ∧ written.drop gtpuExtendedHeaderLen = extBytes header.extList.toList ++ pdu := by
  have hopt' : header.extList.toList ≠ [] ∨ header.flags.seqNumber = true ∨ header.flags.nPdu = true := by
    rcases hopt with hext | hseq
    · exact .inl hext
    · exact .inr (.inl hseq)
  have hpack : (gtpuPackHeader pdu header).length = 96 := by
    rw [length_gtpuPackHeader, if_pos hopt']
  have hlen := h.length_eq
  rw [hpack] at hlen
  have hflags : HasOptional (wireBase pdu header).flags := by
    rcases hopt with hext | hseq
    · exact .inl (decide_eq_true hext)
    · exact .inr (.inl hseq)
  have hroom : ¬written.length < gtpuExtendedHeaderLen := by
    unfold gtpuExtendedHeaderLen
    omega
  obtain ⟨-, hbits⟩ := h.gtpuUnpackBase_eq
  unfold optionalBits at hbits
  rw [if_pos hopt'] at hbits
  simp only [append_assoc] at hbits
  obtain ⟨hseq, hbits⟩ := BitDecoder.unpack_natBits (by decide) (UInt16.toNat_lt _) hbits
  obtain ⟨hnpdu, hbits⟩ := BitDecoder.unpack_natBits (by decide) (UInt8.toNat_lt _) hbits
  obtain ⟨hnext, hbits⟩ := BitDecoder.unpack_natBits (by decide) (UInt8.toNat_lt _) hbits
  refine ⟨?_, h.drop_header hpack⟩
  have htype : (⟨(nextType header.extList.toList).code⟩ : GtpuExtensionHeaderType) = nextType header.extList.toList :=
    rfl
  unfold gtpuUnpackOptional gtpuUnpackExtHeaderType
  simp only [hseq, hnpdu, hnext, UInt8.ofNat_toNat, UInt16.ofNat_toNat, if_neg hroom, htype]
  refine (if_pos hflags).trans ?_
  cases gtpuExtensionHeaderComprehensionCheck (nextType header.extList.toList) <;> rfl

end

/-- what comes back once the extension headers do -/
theorem returned {d : BitDecoder} {l : ExtList} (hlist : l.toList.map content = header.extList.toList.map content)
    (hmsg : written.drop d.nofBytes = pdu) :
    Returned pdu header ⟨written, { wireOptional pdu header with extList := l }, d.nofBytes⟩ :=
  ⟨rfl, rfl, rfl, rfl, fun _ => ⟨rfl, rfl⟩, hlist, hmsg⟩

/-- without extension headers the optional fields are all there is -/
theorem roundTrips_of_nil (h : Accepted pdu header written) (hnil : header.extList.toList = []) :
    RoundTrips pdu header written := by
  have hskip {hdr : GtpuHeader} (hhdr : hdr.flags = wireFlags header) (d : BitDecoder) :
      gtpuUnpackExtensions hdr d = some (hdr, d) := if_neg (by rw [hhdr]; simp [wireFlags, hnil])
  have hlist : empty.toList.map content =
      header.extList.toList.map content := by
    rw [hnil]
    rfl
  by_cases hseq : header.flags.seqNumber = true
  · obtain ⟨hopt, hdrop⟩ := h.gtpuUnpackOptional_eq (.inr hseq)
    rw [if_pos (by rw [hnil]; decide)] at hopt
    refine ⟨_, h.gtpuDissectPdu_iff.2 ⟨_, _, _, _, hopt, hskip rfl _, rfl⟩, ?_⟩
    refine @returned pdu header written _ empty hlist ?_
    rw [BitDecoder.nofBytes_octet, hdrop, hnil]
    rfl
  · have hno : ¬HasOptional (wireBase pdu header).flags := by
      simp [HasOptional, wireBase, wireFlags, hnil, hseq, h.nPdu]
    have hopt : gtpuUnpackOptional written (wireBase pdu header) (after written 64) =
        some (wireBase pdu header, after written (8 * gtpuBaseHeaderLen)) := if_neg hno
    refine ⟨_, h.gtpuDissectPdu_iff.2 ⟨_, _, _, _, hopt, hskip rfl _, rfl⟩, rfl, rfl, rfl, rfl,
      fun hyes => absurd hyes hno, hlist, ?_⟩
    show written.drop (after written (8 * gtpuBaseHeaderLen)).nofBytes = pdu
    have hpack : (gtpuPackHeader pdu header).length = 8 * gtpuBaseHeaderLen := by
      rw [length_gtpuPackHeader, if_neg (by simp [hnil, hseq, h.nPdu])]
      rfl
    rw [BitDecoder.nofBytes_octet, h.drop_header hpack, hnil]
    rfl

/-- with extension headers, if and only if the reader finds its way through them -/
theorem roundTrips_iff (h : Accepted pdu header written) (hsized : ∀ ext ∈ header.extList.toList, Sized ext) :
    RoundTrips pdu header written ↔ ∀ ext ∈ header.extList.toList, Readable ext := by
  rcases hexts : header.extList.toList with _ | ⟨ext, exts⟩
  · exact iff_of_true (h.roundTrips_of_nil hexts) fun _ he => absurd he not_mem_nil
  have hne : header.extList.toList ≠ [] := by
    rw [hexts]
    exact cons_ne_nil _ _
  have hflag : (wireOptional pdu header).flags.extHdr = true := decide_eq_true hne
  obtain ⟨hopt, hdrop⟩ := h.gtpuUnpackOptional_eq (.inl hne)
  have hnext : nextType header.extList.toList = ext.extensionHeaderType := by
    rw [hexts]
    rfl
  rw [hnext] at hopt
  rw [hexts] at hdrop hsized
  have htype : (wireOptional pdu header).nextExtHdrType = ext.extensionHeaderType := hnext
  have hempty : (wireOptional pdu header).extList = .empty := rfl
  constructor
  · rintro ⟨dissected, hdis, hret⟩
    obtain ⟨hdr, d, hdr', d', hopt', hext, rfl⟩ := h.gtpuDissectPdu_iff.1 hdis
    rw [hopt] at hopt'
    split_ifs at hopt' with hcheck
    obtain ⟨rfl, rfl⟩ := Prod.mk.inj (Option.some.inj hopt')
    unfold gtpuUnpackExtensions at hext
    rw [if_pos hflag, htype, hempty] at hext
    split_ifs at hext with hfirst
    cases hloop : gtpuReadExtLoop (gtpuMaxNumHeaderExtensions + 1) .empty ext.extensionHeaderType
        (after written (8 * gtpuExtendedHeaderLen)) with
    | none => simp [hloop] at hext
    | some res =>
      simp only [hloop, Option.some.injEq, Prod.mk.injEq] at hext
      have hsame := hret.extensions
      rw [← hext.1, hexts] at hsame
      exact readable_of_gtpuReadExtLoop hsized hfirst hdrop hloop hsame
  · intro hread
    have hfew := header.extList.length_le
    rw [hexts] at hfew
    obtain ⟨l', hloop, hl'⟩ := @gtpuReadExtLoop_readable exts written pdu gtpuExtendedHeaderLen
      (gtpuMaxNumHeaderExtensions + 1) .empty ext hsized hread (by simp at hfew; omega)
      (by simpa [empty] using hfew) hdrop
    have hfirst := hread ext mem_cons_self
    rw [if_pos hfirst.understood] at hopt
    have hext : gtpuUnpackExtensions (wireOptional pdu header) (after written (8 * gtpuExtendedHeaderLen)) =
        some ({ wireOptional pdu header with extList := l' },
          after written (8 * (gtpuExtendedHeaderLen + (extBytes (ext :: exts)).length))) := by
      rw [← htype, ← hempty] at hloop
      have hmore : (wireOptional pdu header).nextExtHdrType ≠ .noMoreExtensionHeaders := by
        rw [htype]
        exact hfirst.not_last
      unfold gtpuUnpackExtensions
      rw [if_pos hflag, if_neg hmore, hloop]
    refine ⟨_, h.gtpuDissectPdu_iff.2 ⟨_, _, _, _, hopt, hext, rfl⟩, returned ?_ ?_⟩
    · rw [hl', hexts]
      rfl
    · rw [BitDecoder.nofBytes_octet, ← drop_drop, hdrop]
      exact drop_left' rfl

end Accepted

end Written

/-! ## The codec -/

/-- headers come back, and what is accepted tiles, exactly under these conditions -/
theorem header_codec_iff (pdu written raw : List UInt8) (header : GtpuHeader) (dissected : GtpuDissectedPdu) :
    (gtpuWriteHeader pdu header = .ok written → (∀ ext ∈ header.extList.toList, Sized ext) →
      (RoundTrips pdu header written ↔ ∀ ext ∈ header.extList.toList, Readable ext)) ∧
    (gtpuDissectPdu raw = some dissected → dissected.hdrLen ≤ raw.length ∧
      (Tiles raw dissected ↔ (eFlag raw = true → WholeChain raw gtpuExtendedHeaderLen))) :=
  ⟨fun hwritten hsized => (accepted_of_gtpuWriteHeader hsized hwritten).roundTrips_iff hsized, tiles_iff_wholeChain⟩

/-- a header with one extension header -/
def nrRanHeader (container : List UInt8) : GtpuHeader :=
  { flags := { protocolType := gtpuFlagsGtpProtocol }, messageType := gtpuMsgDataPdu, teid := 1,
    extList := ⟨[⟨.nrRanContainer, ⟨0, container⟩⟩], by simp [gtpuMaxNumHeaderExtensions]⟩ }

/-- the PDU with a container of six octets and one octet of payload -/
def sixOctets : List UInt8 := [0x34, 0xff, 0, 13, 0, 0, 0, 1, 0, 0, 0, 0x84, 2, 1, 2, 3, 4, 5, 6, 0, 0xaa]

theorem header_codec_six_octets :
    gtpuWriteHeader [0xaa] (nrRanHeader [1, 2, 3, 4, 5, 6]) = .ok sixOctets ∧ ∃ dissected,
      gtpuDissectPdu sixOctets = some dissected ∧ Returned [0xaa] (nrRanHeader [1, 2, 3, 4, 5, 6]) dissected ∧
        Tiles sixOctets dissected := by
  have hwritten : gtpuWriteHeader [0xaa] (nrRanHeader [1, 2, 3, 4, 5, 6]) = .ok sixOctets := by decide +kernel
  obtain ⟨dissected, hdissected⟩ := Option.isSome_iff_exists.1
    (show (gtpuDissectPdu sixOctets).isSome = true by decide +kernel)
  obtain ⟨hback, htiles⟩ := header_codec_iff [0xaa] sixOctets sixOctets (nrRanHeader [1, 2, 3, 4, 5, 6]) dissected
  obtain ⟨dissected', hdissected', hret⟩ := (hback hwritten (by decide)).2
    (forall_mem_singleton.2 ⟨by decide, by decide, by decide⟩)
  obtain rfl : dissected = dissected' := Option.some.inj (hdissected.symm.trans hdissected')
  have htiled := (htiles hdissected).2.2 fun _ => .last ⟨by decide, by decide⟩ (by decide)
  exact ⟨hwritten, dissected, hdissected, hret, htiled⟩

/-- the length octet of a container of 254 octets is zero, and the reader gives an empty container; a length octet of
zero and a chain that ends with the PDU are accepted from anyone -/
theorem wrapped_and_empty_extension_headers :
    ((gtpuWriteHeader [] (nrRanHeader (List.replicate 254 0))).toOption.bind gtpuDissectPdu).map
        (fun d => (d.hdr.extList.toList.map fun ext => ext.container.length, d.hdrLen)) = some ([0], 14) ∧
      (gtpuDissectPdu [0x34, 0xff, 0, 6, 0, 0, 0, 1, 0, 0, 0, 0x84, 0, 0]).map
        (fun d => (d.hdr.extList.toList.map fun ext => ext.container.length, d.hdrLen)) = some ([0], 14) ∧
      (gtpuDissectPdu [0x34, 0xff, 0, 5, 0, 0, 0, 1, 0, 0, 0, 0x84, 7]).map
        (fun d => (d.hdr.extList.toList.map fun ext => ext.container.length, d.hdrLen)) = some ([0], 13) := by
  decide +kernel

end OcuduRan.Gtpu
