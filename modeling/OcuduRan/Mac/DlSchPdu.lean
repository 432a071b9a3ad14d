/-
Assembly of MAC DL-SCH PDUs (dl_sch_pdu_assembler.cpp), for every behaviour of the RLC bearers, and the format the UE
reads them with.

The PDU is written in place: the RLC writes an SDU behind a subheader whose size was chosen for the space that was
offered, and the SDU is moved up by one byte when it turns out to fit behind a shorter one. `assemble_of_encodable`:
when the scheduled entries fit the transport block, every write is inside of it, the block is filled, and the UE reads
back the scheduled CEs with their fields and the SDUs of the RLC in order, followed by padding only, where

  tags      every scheduled Timing Advance Command is for TAG 0 and has a value below 64: add_tag_cmd masks the TAG id
            with 0xc0 without moving it into the two upper bits (`fields_lost`);
  lengths   no SDU has 2^16 bytes or more: the length field has 16 bits at most.
-/
import OcuduRan.Core.ByteMemory

namespace OcuduRan.Mac

open List Nat

abbrev Bytes := List UInt8

/-! ## Sizes (mac_pdu_format.h) -/

def macSduSubheaderLengthThres : ℕ := 256
def minMacSduSubheaderSize : ℕ := 2
def maxMacSduSubheaderSize : ℕ := 3

def getMacSduSubheaderSize (payload : ℕ) : ℕ :=
  if payload = 0 then 0
  else if payload ≥ macSduSubheaderLengthThres then maxMacSduSubheaderSize
  else minMacSduSubheaderSize

def getMacSduRequiredBytes (payload : ℕ) : ℕ := payload + getMacSduSubheaderSize payload

def getMacSduPayloadSize (macSduSize : ℕ) : ℕ :=
  if macSduSize ≤ macSduSubheaderLengthThres + minMacSduSubheaderSize - 1 then macSduSize - minMacSduSubheaderSize
  else macSduSize - maxMacSduSubheaderSize

/-- LCID of a radio bearer: CCCH (SRB0) or LCID1 to LCID32 -/
abbrev Lcid := Fin 33

def minRlcHeaderSize : ℕ := 2

def minMacSubhdrAndSduSpaceRequired (lcid : Lcid) : ℕ :=
  minMacSduSubheaderSize + 1 + if lcid ≠ 0 then minRlcHeaderSize else 0

namespace LcidDlSch

def taCmd : ℕ := 0b111101
def ueConResId : ℕ := 0b111110
def padding : ℕ := 0b111111

end LcidDlSch

/-! ## The PDU -/

structure DlSchPdu where
  /-- contents of the HARQ buffer -/
  mem : ℕ → UInt8
  size : ℕ
  byteOffset : ℕ := 0
  /-- ranges of positions that were written -/
  writes : List (ℕ × ℕ) := []
  /-- an assertion or report_fatal_error was reached -/
  fatal : Bool := false

structure TaCmdCePayload where
  tagId : UInt8
  taCmd : ℕ
deriving DecidableEq, Repr

variable (payload : TaCmdCePayload)

/-- the byte of a Timing Advance Command -/
def TaCmdCePayload.toByte : UInt8 :=
  (payload.tagId &&& 0xc0) ||| (UInt8.ofNat payload.taCmd &&& 0x3f)

abbrev UeConResId := Fin 6 → UInt8

/-- encoder for one SDU of at most `maxSduSize` bytes -/
structure MacSduEncoder where
  lcid : Lcid
  subhrLen : ℕ
  maxSduSize : ℕ
deriving DecidableEq, Repr

namespace DlSchPdu

def write (pdu : DlSchPdu) (pos : ℕ) (bs : Bytes) : DlSchPdu :=
  { pdu with mem := store pdu.mem pos bs, writes := pdu.writes ++ [(pos, pos + bs.length)] }

/-- R/F/LCID/L subheader -/
def subheader (fBit : Bool) (lcid headerLen payloadLen : ℕ) : Bytes :=
  UInt8.ofNat ((if fBit then 1 else 0) <<< 6 ||| lcid &&& 0x3f) ::
    if headerLen = 3 then [UInt8.ofNat ((payloadLen &&& 0xff00) >>> 8), UInt8.ofNat (payloadLen &&& 0xff)]
    else if headerLen = 2 then [UInt8.ofNat (payloadLen &&& 0xff)]
    else []

/-- bytes at the end of the PDU -/
def append (pdu : DlSchPdu) (bs : Bytes) : DlSchPdu :=
  { pdu.write pdu.byteOffset bs with byteOffset := pdu.byteOffset + bs.length }

def encodeSubheader (pdu : DlSchPdu) (fBit : Bool) (lcid headerLen payloadLen : ℕ) : DlSchPdu :=
  { pdu.append (subheader fBit lcid headerLen payloadLen) with
    fatal := pdu.fatal || !decide (headerLen = 1 ∨ headerLen = 2 ∨ headerLen = 3) }

def nofEmptyBytes (pdu : DlSchPdu) : ℕ := pdu.size - pdu.byteOffset

def getSduEncoder (pdu : DlSchPdu) (lcid : Lcid) (sduPayloadLenEstimate : ℕ) : Option MacSduEncoder :=
  if sduPayloadLenEstimate = 0 then none
  else
    let remGrantSpace := pdu.size - pdu.byteOffset
    if remGrantSpace < minMacSubhdrAndSduSpaceRequired lcid then none
    else
      let spaceEstim := min remGrantSpace (getMacSduRequiredBytes sduPayloadLenEstimate)
      let sduSpaceEstim := getMacSduPayloadSize spaceEstim
      some ⟨lcid, getMacSduSubheaderSize sduSpaceEstim, sduSpaceEstim⟩

/-- subheader for the SDU of this length that was written behind the space for the subheader; the number of bytes of
both -/
def encodeSdu (pdu : DlSchPdu) (enc : MacSduEncoder) (sduBytesWritten : ℕ) : ℕ × DlSchPdu :=
  if sduBytesWritten = 0 ∨ sduBytesWritten > enc.maxSduSize then (0, pdu)
  else
    let (subhrLen, pdu) :=
      if getMacSduSubheaderSize sduBytesWritten ≠ enc.subhrLen then
        -- the SDU moves up by one byte
        let newStart := pdu.byteOffset + minMacSduSubheaderSize
        (minMacSduSubheaderSize,
          { pdu.write newStart (seg pdu.mem (newStart + 1) sduBytesWritten) with
            fatal := pdu.fatal || !decide (enc.subhrLen = maxMacSduSubheaderSize) })
      else (enc.subhrLen, pdu)
    let fBit := decide (subhrLen > minMacSduSubheaderSize)
    let pdu := pdu.encodeSubheader fBit enc.lcid subhrLen sduBytesWritten
    (subhrLen + sduBytesWritten, { pdu with byteOffset := pdu.byteOffset + sduBytesWritten })

def addUeConResId (pdu : DlSchPdu) (conRes : UeConResId) : DlSchPdu :=
  (pdu.encodeSubheader false LcidDlSch.ueConResId 1 6).append (ofFn conRes)

def addTagCmd (pdu : DlSchPdu) (payload : TaCmdCePayload) : DlSchPdu :=
  (pdu.encodeSubheader false LcidDlSch.taCmd 1 1).append [payload.toByte]

def addPadding (pdu : DlSchPdu) (len : ℕ) : DlSchPdu :=
  (pdu.encodeSubheader false LcidDlSch.padding 1 (len - 1)).append (replicate (len - 1) 0)

end DlSchPdu

/-! ## Assembly -/

/-- one call of on_new_tx_sdu: the RLC writes `bytes` into the buffer it is offered and returns `len` -/
structure RlcTx where
  bytes : Bytes
  len : ℕ
deriving DecidableEq, Repr

/-- an entry of lc_chs_to_sched. For any other CE, and for a TA_CMD without its payload, the assembler ends the
process. -/
inductive DlMsgLcInfo where
  | sdu (lcid : Lcid) (schedBytes : Fin (2 ^ 32))
  | ueConResId
  | taCmd (payload : TaCmdCePayload)
deriving DecidableEq, Repr

structure Assembly where
  pdu : DlSchPdu
  /-- calls of the RLC so far -/
  calls : ℕ := 0
  /-- SDUs the RLC has handed over -/
  sdus : List (Lcid × Bytes) := []

/-- the loop of assemble_sdus -/
def assembleSduLoop (rlc : ℕ → RlcTx) (lcid : Lcid) (remBytes : ℕ) (s : Assembly) : Assembly :=
  if remBytes < minMacSubhdrAndSduSpaceRequired lcid then s
  else
    match s.pdu.getSduEncoder lcid (getMacSduPayloadSize remBytes) with
    | none => s
    | some enc =>
      let tx := rlc s.calls
      let start := s.pdu.byteOffset + enc.subhrLen
      let s := { s with calls := s.calls + 1, pdu := s.pdu.write start (tx.bytes.take enc.maxSduSize) }
      if tx.len = 0 then s
      else
        let res := s.pdu.encodeSdu enc tx.len
        if res.1 = 0 then s
        else
          assembleSduLoop rlc lcid (remBytes - res.1)
            { s with
              pdu := { res.2 with fatal := res.2.fatal || !decide (remBytes ≥ res.1) }
              sdus := s.sdus ++ [(lcid, seg s.pdu.mem start tx.len)] }
termination_by remBytes
decreasing_by
  have : 0 < minMacSubhdrAndSduSpaceRequired lcid := by
    unfold minMacSubhdrAndSduSpaceRequired minMacSduSubheaderSize
    omega
  show remBytes - res.1 < remBytes
  omega

/-- the bytes required are an unsigned sum -/
def assembleSdus (rlc : ℕ → RlcTx) (s : Assembly) (lcid : Lcid) (schedBytes : ℕ) : Assembly :=
  assembleSduLoop rlc lcid (min (getMacSduRequiredBytes schedBytes % 2 ^ 32) s.pdu.nofEmptyBytes) s

def assembleEntry (conRes : UeConResId) (rlc : ℕ → RlcTx) (s : Assembly) : DlMsgLcInfo → Assembly
  | .sdu lcid schedBytes => assembleSdus rlc s lcid schedBytes
  | .ueConResId => { s with pdu := s.pdu.addUeConResId conRes }
  | .taCmd payload => { s with pdu := s.pdu.addTagCmd payload }

/-- a subPDU as the UE reads it -/
inductive DlSubpdu where
  | sdu (lcid : Lcid) (bytes : Bytes)
  | ueConResId (conRes : UeConResId)
  | taCmd (tagId taCmd : ℕ)
  | padding (len : ℕ)

/-- an SDU of the given length at the start of the bytes -/
def takeSdu (lcid : ℕ) (len : ℕ) (bs : Bytes) : Option (DlSubpdu × Bytes) :=
  if h : lcid < 33 ∧ len ≤ bs.length then some (.sdu ⟨lcid, h.1⟩ (bs.take len), bs.drop len) else none

/-- SDU with a length field of 8 or 16 bits -/
def parseSdu (lcid : ℕ) : Bool → Bytes → Option (DlSubpdu × Bytes)
  | true, hi :: lo :: bs => takeSdu lcid (hi.toNat * 256 + lo.toNat) bs
  | false, len :: bs => takeSdu lcid len.toNat bs
  | _, _ => none

/-- TAG id in the upper two bits, command in the lower six -/
def parseTaCmd : Bytes → Option (DlSubpdu × Bytes)
  | p :: bs => some (.taCmd (p.toNat / 64) (p.toNat % 64), bs)
  | [] => none

def parseUeConResId : Bytes → Option (DlSubpdu × Bytes)
  | a :: b :: c :: d :: e :: f :: bs => some (.ueConResId ![a, b, c, d, e, f], bs)
  | _ => none

/-- the first subPDU and what follows it (TS 38.321, 6.1.2) -/
def parseSubpdu : Bytes → Option (DlSubpdu × Bytes)
  | [] => none
  | b :: bs =>
    let lcid := b.toNat % 64
    if lcid ≤ 32 then parseSdu lcid (decide (b.toNat / 64 % 2 = 1)) bs
    else if lcid = LcidDlSch.taCmd then parseTaCmd bs
    else if lcid = LcidDlSch.ueConResId then parseUeConResId bs
    else if lcid = LcidDlSch.padding then some (.padding bs.length, [])
    else none

variable {lcid len n rem max : ℕ} {bs rest done : Bytes} {subpdu : DlSubpdu} {pdu : DlSchPdu} {s : Assembly}
  {subpdus : List DlSubpdu} {ta : TaCmdCePayload → ℕ × ℕ} {conRes : UeConResId}

theorem takeSdu_length (h : takeSdu lcid len bs = some (subpdu, rest)) : rest.length ≤ bs.length := by
  unfold takeSdu at h
  split_ifs at h
  cases h
  simp

theorem parseSdu_length {fBit : Bool} (h : parseSdu lcid fBit bs = some (subpdu, rest)) : rest.length ≤ bs.length := by
  unfold parseSdu at h
  split at h
  · exact (takeSdu_length h).trans (by simp; omega)
  · exact (takeSdu_length h).trans (by simp)
  · cases h

theorem parseSubpdu_length (h : parseSubpdu bs = some (subpdu, rest)) : rest.length < bs.length := by
  cases bs with
  | nil => cases h
  | cons b bs =>
    rw [length_cons, Nat.lt_succ_iff]
    rw [parseSubpdu] at h
    split_ifs at h
    · exact parseSdu_length h
    · unfold parseTaCmd at h
      split at h
      · cases h
        simp
      · cases h
    · unfold parseUeConResId at h
      split at h
      · cases h
        simp only [length_cons]
        omega
      · cases h
    · cases h
      exact zero_le _

/-- the subPDUs of a PDU -/
def parse (bs : Bytes) : Option (List DlSubpdu) :=
  if bs = [] then some []
  else
    match _h : parseSubpdu bs with
    | none => none
    | some (subpdu, rest) => (parse rest).map (subpdu :: ·)
termination_by bs.length
decreasing_by exact parseSubpdu_length _h

/-! ## Encoded subPDUs -/

namespace DlSubpdu

def encode : DlSubpdu → Bytes
  | sdu lcid bytes =>
    DlSchPdu.subheader (decide (bytes.length ≥ 256)) lcid (getMacSduSubheaderSize bytes.length) bytes.length ++ bytes
  | ueConResId conRes => DlSchPdu.subheader false LcidDlSch.ueConResId 1 6 ++ ofFn conRes
  | taCmd tagId cmd => DlSchPdu.subheader false LcidDlSch.taCmd 1 1 ++ [UInt8.ofNat (tagId * 64 + cmd)]
  | padding len => DlSchPdu.subheader false LcidDlSch.padding 1 len ++ replicate len 0

/-- fields in range, and not padding -/
def WellFormed : DlSubpdu → Prop
  | sdu _ bytes => 0 < bytes.length ∧ bytes.length < 2 ^ 16
  | ueConResId _ => True
  | taCmd tagId cmd => tagId < 4 ∧ cmd < 64
  | padding _ => False

end DlSubpdu

theorem toNat_firstByte : ∀ (fBit : Bool) (lcid : Fin 64),
    (UInt8.ofNat ((if fBit then 1 else 0) <<< 6 ||| lcid.val &&& 0x3f)).toNat =
      (if fBit then 64 else 0) + lcid.val := by
  decide

theorem toNat_lowByte (n : ℕ) : (UInt8.ofNat (n &&& 0xff)).toNat = n % 256 := by
  rw [UInt8.toNat_ofNat', and_two_pow_sub_one_eq_mod n 8]
  exact mod_mod _ _

theorem toNat_highByte (h : n < 2 ^ 16) : (UInt8.ofNat ((n &&& 0xff00) >>> 8)).toNat = n / 256 := by
  have hand : (n &&& 0xff00) >>> 8 = n / 256 % 256 := by
    rw [shiftRight_and_distrib, shiftRight_eq_div_pow]
    exact and_two_pow_sub_one_eq_mod (n / 256) 8
  rw [UInt8.toNat_ofNat', hand]
  omega

/-- the parser reads the subheader of an SDU -/
theorem parseSubpdu_sdu (lcid : Lcid) (bytes rest : Bytes) (h : (DlSubpdu.sdu lcid bytes).WellFormed) :
    parseSubpdu ((DlSubpdu.sdu lcid bytes).encode ++ rest) = some (.sdu lcid bytes, rest) := by
  obtain ⟨hpos, hlt⟩ := h
  have htake : takeSdu lcid bytes.length (bytes ++ rest) = some (.sdu lcid bytes, rest) := by
    unfold takeSdu
    rw [dif_pos ⟨lcid.isLt, by simp⟩]
    simp
  have hfirst := toNat_firstByte (decide (bytes.length ≥ 256)) ⟨lcid, lcid.isLt.trans (by decide)⟩
  have hlcid := lcid.isLt
  rw [DlSubpdu.encode, DlSchPdu.subheader, getMacSduSubheaderSize, if_neg hpos.ne']
  unfold macSduSubheaderLengthThres maxMacSduSubheaderSize minMacSduSubheaderSize
  by_cases hlong : bytes.length ≥ 256
  · simp only [hlong, decide_true, if_true, cons_append, nil_append] at hfirst ⊢
    rw [parseSubpdu]
    simp only [hfirst]
    rw [if_pos (by omega), decide_eq_true (by omega), parseSdu, toNat_highByte hlt, toNat_lowByte,
      div_add_mod' bytes.length 256, show (64 + lcid.val) % 64 = lcid by omega]
    exact htake
  · simp only [hlong, decide_false, Bool.false_eq_true, if_false, cons_append, nil_append, zero_add,
      show ¬2 = 3 by decide, if_true] at hfirst ⊢
    rw [parseSubpdu]
    simp only [hfirst]
    rw [if_pos (by omega), decide_eq_false (by omega), parseSdu, toNat_lowByte,
      mod_eq_of_lt (not_le.1 hlong), mod_eq_of_lt (hlcid.trans (by decide))]
    exact htake

theorem parseSubpdu_encode (subpdu : DlSubpdu) (rest : Bytes) (h : subpdu.WellFormed) :
    parseSubpdu (subpdu.encode ++ rest) = some (subpdu, rest) := by
  cases subpdu with
  | sdu lcid bytes => exact parseSubpdu_sdu lcid bytes rest h
  | ueConResId conRes =>
    have hvec : ![conRes 0, conRes 1, conRes 2, conRes 3, conRes 4, conRes 5] = conRes := by
      funext i
      fin_cases i <;> rfl
    have hparse : parseUeConResId (ofFn conRes ++ rest) = some (.ueConResId conRes, rest) := by
      simp only [ofFn_succ, ofFn_zero, cons_append, nil_append, parseUeConResId]
      rw [← hvec]
      rfl
    exact hparse
  | taCmd tagId cmd =>
    obtain ⟨htag, hcmd⟩ := h
    have hbyte : (UInt8.ofNat (tagId * 64 + cmd)).toNat = tagId * 64 + cmd := by
      rw [UInt8.toNat_ofNat']
      omega
    have hparse : parseTaCmd (UInt8.ofNat (tagId * 64 + cmd) :: rest) = some (.taCmd tagId cmd, rest) := by
      rw [parseTaCmd, hbyte, show (tagId * 64 + cmd) / 64 = tagId by omega, show (tagId * 64 + cmd) % 64 = cmd by omega]
    exact hparse
  | padding len => exact h.elim

theorem parse_of_parseSubpdu (h : parseSubpdu bs = some (subpdu, rest)) :
    parse bs = (parse rest).map (subpdu :: ·) := by
  have hne : bs ≠ [] := by
    rintro rfl
    cases h
  rw [parse, if_neg hne]
  split
  · next heq => cases heq.symm.trans h
  · next heq =>
    cases heq.symm.trans h
    rfl

/-- well-formed subPDUs are read back one after the other -/
theorem parse_flatMap (subpdus : List DlSubpdu) (rest : Bytes) (h : ∀ subpdu ∈ subpdus, subpdu.WellFormed) :
    parse (subpdus.flatMap DlSubpdu.encode ++ rest) = (parse rest).map (subpdus ++ ·) := by
  induction subpdus with
  | nil => simp
  | cons subpdu subpdus ih =>
    have hfirst := parseSubpdu_encode subpdu (subpdus.flatMap DlSubpdu.encode ++ rest) (h subpdu mem_cons_self)
    rw [flatMap_cons, append_assoc, parse_of_parseSubpdu hfirst,
      ih fun s hs => h s (mem_cons_of_mem _ hs), Option.map_map]
    rfl

theorem parse_nil : parse [] = some [] := by
  rw [parse, if_pos rfl]

theorem parse_padding (len : ℕ) : parse (DlSubpdu.padding len).encode = some [.padding len] := by
  have hfirst : parseSubpdu (DlSubpdu.padding len).encode = some (.padding len, []) := by
    show some (DlSubpdu.padding (replicate len (0 : UInt8)).length, []) = _
    rw [length_replicate]
  rw [parse_of_parseSubpdu hfirst, parse_nil]
  rfl

/-! ## Writing the PDU -/

/-- the first bytes of a block of `n` bytes are `done`, and nothing was written outside of it -/
structure Filled (pdu : DlSchPdu) (n : ℕ) (done : Bytes) : Prop where
  size : pdu.size = n
  offset : pdu.byteOffset ≤ n
  bytes : seg pdu.mem 0 pdu.byteOffset = done
  writes : ∀ w ∈ pdu.writes, w.2 ≤ n
  fatal : pdu.fatal = false

namespace Filled

variable {pdu : DlSchPdu} {n : ℕ} {done : Bytes}

/-- writing behind the end -/
theorem write (h : Filled pdu n done) {pos : ℕ} {bs : Bytes} (hpos : pdu.byteOffset ≤ pos)
    (hfit : pos + bs.length ≤ n) : Filled (pdu.write pos bs) n done where
  size := h.size
  offset := h.offset
  bytes := by
    show seg (store pdu.mem pos bs) 0 pdu.byteOffset = done
    rw [seg_store_before _ (by omega)]
    exact h.bytes
  writes := by
    intro w hw
    rcases mem_append.1 hw with hw | hw
    · exact h.writes w hw
    · rw [mem_singleton.1 hw]
      exact hfit
  fatal := h.fatal

theorem append (h : Filled pdu n done) {bs : Bytes} (hfit : pdu.byteOffset + bs.length ≤ n) :
    Filled (pdu.append bs) n (done ++ bs) where
  size := h.size
  offset := hfit
  bytes := by
    show seg (store pdu.mem pdu.byteOffset bs) 0 (pdu.byteOffset + bs.length) = done ++ bs
    rw [seg_add, seg_store_before _ (by omega), zero_add, seg_store_self, h.bytes]
  writes := (h.write le_rfl hfit).writes
  fatal := h.fatal

theorem encodeSubheader (h : Filled pdu n done) {fBit : Bool} {lcid headerLen payloadLen : ℕ}
    (hlen : headerLen = 1 ∨ headerLen = 2 ∨ headerLen = 3)
    (hfit : pdu.byteOffset + (DlSchPdu.subheader fBit lcid headerLen payloadLen).length ≤ n) :
    Filled (pdu.encodeSubheader fBit lcid headerLen payloadLen) n
      (done ++ DlSchPdu.subheader fBit lcid headerLen payloadLen) := by
  have ha := h.append hfit
  refine { ha with fatal := ?_ }
  show (pdu.fatal || !decide (headerLen = 1 ∨ headerLen = 2 ∨ headerLen = 3)) = false
  rw [h.fatal, decide_eq_true hlen]
  rfl

/-- bytes that are already there behind the end become part of the PDU -/
theorem extend (h : Filled pdu n done) (len : ℕ) (hfit : pdu.byteOffset + len ≤ n) :
    Filled { pdu with byteOffset := pdu.byteOffset + len } n (done ++ seg pdu.mem pdu.byteOffset len) where
  size := h.size
  offset := hfit
  bytes := by
    show seg pdu.mem 0 (pdu.byteOffset + len) = _
    rw [seg_add, zero_add, h.bytes]
  writes := h.writes
  fatal := h.fatal

end Filled

theorem length_subheader (fBit : Bool) (lcid payloadLen : ℕ) {headerLen : ℕ}
    (h : headerLen = 1 ∨ headerLen = 2 ∨ headerLen = 3) :
    (DlSchPdu.subheader fBit lcid headerLen payloadLen).length = headerLen := by
  rcases h with rfl | rfl | rfl <;> rfl

theorem subheaderSize_cases (h : 0 < len) :
    len < 256 ∧ getMacSduSubheaderSize len = 2 ∨ 256 ≤ len ∧ getMacSduSubheaderSize len = 3 := by
  unfold getMacSduSubheaderSize macSduSubheaderLengthThres minMacSduSubheaderSize maxMacSduSubheaderSize
  rw [if_neg h.ne']
  split_ifs with hl
  · exact .inr ⟨hl, rfl⟩
  · exact .inl ⟨not_le.1 hl, rfl⟩

/-- what the space for an SDU is used for -/
theorem payloadSize_spec (h : 3 ≤ rem) :
    0 < getMacSduPayloadSize rem ∧ getMacSduRequiredBytes (getMacSduPayloadSize rem) ≤ rem ∧
      getMacSduPayloadSize (getMacSduRequiredBytes (getMacSduPayloadSize rem)) = getMacSduPayloadSize rem := by
  have hpos : 0 < getMacSduPayloadSize rem := by
    unfold getMacSduPayloadSize macSduSubheaderLengthThres minMacSduSubheaderSize maxMacSduSubheaderSize
    split_ifs <;> omega
  have hle : ∀ m, getMacSduPayloadSize m = if m ≤ 257 then m - 2 else m - 3 := fun _ => rfl
  refine ⟨hpos, ?_⟩
  unfold getMacSduRequiredBytes
  rcases subheaderSize_cases hpos with ⟨hlt, heq⟩ | ⟨hge, heq⟩
  · rw [heq, hle]
    rw [hle] at hlt hpos ⊢
    split_ifs at hlt hpos ⊢ <;> omega
  · rw [heq, hle]
    rw [hle] at hge hpos ⊢
    split_ifs at hge hpos ⊢ <;> omega

/-- the subheader for an SDU of `len` bytes that stands behind the space for it -/
def subheaderBefore (pdu : DlSchPdu) (lcid : Lcid) (len : ℕ) : DlSchPdu :=
  let hdr := getMacSduSubheaderSize len
  let pdu := pdu.encodeSubheader (decide (hdr > minMacSduSubheaderSize)) lcid hdr len
  { pdu with byteOffset := pdu.byteOffset + len }

theorem Filled.subheaderBefore (h : Filled pdu n done) (lcid : Lcid)
    (hlen : 0 < len) (hfit : pdu.byteOffset + getMacSduRequiredBytes len ≤ n) :
    (Mac.subheaderBefore pdu lcid len).byteOffset = pdu.byteOffset + getMacSduRequiredBytes len ∧
      Filled (Mac.subheaderBefore pdu lcid len) n
        (done ++ (DlSubpdu.sdu lcid (seg pdu.mem (pdu.byteOffset + getMacSduSubheaderSize len) len)).encode) := by
  have hsize := subheaderSize_cases hlen
  have hhdr : getMacSduSubheaderSize len = 1 ∨ getMacSduSubheaderSize len = 2 ∨ getMacSduSubheaderSize len = 3 := by
    omega
  have hf : decide (getMacSduSubheaderSize len > minMacSduSubheaderSize) = decide (len ≥ 256) := by
    refine decide_eq_decide.2 ?_
    unfold minMacSduSubheaderSize
    omega
  have hl := length_subheader (decide (getMacSduSubheaderSize len > minMacSduSubheaderSize)) lcid len hhdr
  have hreq : getMacSduRequiredBytes len = len + getMacSduSubheaderSize len := rfl
  let pdu' := pdu.encodeSubheader (decide (getMacSduSubheaderSize len > minMacSduSubheaderSize)) lcid
    (getMacSduSubheaderSize len) len
  have hoff : pdu'.byteOffset = pdu.byteOffset + getMacSduSubheaderSize len := congrArg (pdu.byteOffset + ·) hl
  have hmem : seg pdu'.mem pdu'.byteOffset len = seg pdu.mem (pdu.byteOffset + getMacSduSubheaderSize len) len := by
    rw [hoff]
    exact seg_store_after _ (by omega)
  have hstep : Filled pdu' n _ := h.encodeSubheader hhdr (by omega)
  have hext := hstep.extend len (by omega)
  rw [hmem, append_assoc, hf] at hext
  constructor
  · show pdu'.byteOffset + len = _
    omega
  · rw [DlSubpdu.encode, length_seg]
    exact hext

/-- the SDU moved up to a subheader of two bytes -/
def movedUp (pdu : DlSchPdu) (len : ℕ) : DlSchPdu :=
  let newStart := pdu.byteOffset + minMacSduSubheaderSize
  pdu.write newStart (seg pdu.mem (newStart + 1) len)

theorem encodeSdu_eq (pdu : DlSchPdu) (lcid : Lcid) (hlen : 0 < len) (hmax : len ≤ max) :
    pdu.encodeSdu ⟨lcid, getMacSduSubheaderSize max, max⟩ len = (getMacSduSubheaderSize len + len,
        subheaderBefore (if getMacSduSubheaderSize len = getMacSduSubheaderSize max then pdu else movedUp pdu len)
          lcid len) := by
  have hcl := subheaderSize_cases hlen
  have hcm := subheaderSize_cases (hlen.trans_le hmax)
  unfold DlSchPdu.encodeSdu
  rw [if_neg (by simp only [not_or, not_lt]; exact ⟨hlen.ne', hmax⟩)]
  by_cases heq : getMacSduSubheaderSize len = getMacSduSubheaderSize max
  · simp only [← heq, ne_eq, not_true_eq_false, if_false, if_true]
    rfl
  · -- three bytes were reserved, two are needed
    have hm3 : getMacSduSubheaderSize max = maxMacSduSubheaderSize := by
      unfold maxMacSduSubheaderSize
      omega
    have hl2 : getMacSduSubheaderSize len = minMacSduSubheaderSize := by
      unfold minMacSduSubheaderSize
      omega
    have hne : minMacSduSubheaderSize ≠ maxMacSduSubheaderSize := by decide
    simp only [subheaderBefore, hl2, hm3, ne_eq, hne, not_false_eq_true, if_true, if_false, decide_true, Bool.not_true,
      Bool.or_false]
    rfl

/-- an SDU written behind the space that was reserved for the subheader is encoded; it moves up when the shorter
subheader will do -/
theorem Filled.encodeSdu (h : Filled pdu n done) (lcid : Lcid)
    (hlen : 0 < len) (hmax : len ≤ max) (hfit : pdu.byteOffset + getMacSduRequiredBytes max ≤ n) :
    let res := pdu.encodeSdu ⟨lcid, getMacSduSubheaderSize max, max⟩ len
    res.1 = getMacSduRequiredBytes len ∧ res.2.byteOffset = pdu.byteOffset + getMacSduRequiredBytes len ∧
      Filled res.2 n
        (done ++ (DlSubpdu.sdu lcid (seg pdu.mem (pdu.byteOffset + getMacSduSubheaderSize max) len)).encode) := by
  have hcl := subheaderSize_cases hlen
  have hcm := subheaderSize_cases (hlen.trans_le hmax)
  have hreq : getMacSduRequiredBytes len = len + getMacSduSubheaderSize len := rfl
  have hreqm : getMacSduRequiredBytes max = max + getMacSduSubheaderSize max := rfl
  rw [encodeSdu_eq pdu lcid hlen hmax]
  refine ⟨add_comm _ _, ?_⟩
  by_cases heq : getMacSduSubheaderSize len = getMacSduSubheaderSize max
  · rw [if_pos heq, ← heq]
    exact h.subheaderBefore lcid hlen (by omega)
  · rw [if_neg heq]
    have hmin : minMacSduSubheaderSize = 2 := rfl
    have hw : Filled (movedUp pdu len) n done := h.write (by omega) (by rw [length_seg]; omega)
    have hseg : seg (movedUp pdu len).mem (pdu.byteOffset + getMacSduSubheaderSize len) len =
        seg pdu.mem (pdu.byteOffset + getMacSduSubheaderSize max) len := by
      have hself := seg_store_self pdu.mem (pdu.byteOffset + minMacSduSubheaderSize)
        (seg pdu.mem (pdu.byteOffset + minMacSduSubheaderSize + 1) len)
      rw [length_seg] at hself
      rw [show getMacSduSubheaderSize len = minMacSduSubheaderSize by omega,
        show pdu.byteOffset + getMacSduSubheaderSize max = pdu.byteOffset + minMacSduSubheaderSize + 1 by omega]
      exact hself
    have hres := hw.subheaderBefore lcid hlen (by show pdu.byteOffset + _ ≤ n; omega)
    rw [show (movedUp pdu len).byteOffset = pdu.byteOffset from rfl, hseg] at hres
    exact hres

/-! ## Assembling the PDU -/

/-- the SDUs among the subPDUs, with their channel -/
def sdusOf (subpdus : List DlSubpdu) : List (Lcid × Bytes) :=
  subpdus.filterMap fun
    | .sdu lcid bytes => some (lcid, bytes)
    | _ => none

/-- the subPDUs that are in the block of `n` bytes so far -/
structure Assembled (s : Assembly) (n : ℕ) (subpdus : List DlSubpdu) : Prop where
  filled : Filled s.pdu n (subpdus.flatMap DlSubpdu.encode)
  wellFormed : ∀ subpdu ∈ subpdus, subpdu.WellFormed
  sdus : s.sdus = sdusOf subpdus

theorem three_le_minSpace (lcid : Lcid) : 3 ≤ minMacSubhdrAndSduSpaceRequired lcid := by
  unfold minMacSubhdrAndSduSpaceRequired minMacSduSubheaderSize
  omega

/-- the RLC is offered all of the remaining space that an SDU with its subheader can use -/
theorem getSduEncoder_eq {lcid : Lcid} (hmin : minMacSubhdrAndSduSpaceRequired lcid ≤ rem)
    (hrem : pdu.byteOffset + rem ≤ pdu.size) : pdu.getSduEncoder lcid (getMacSduPayloadSize rem) =
      some ⟨lcid, getMacSduSubheaderSize (getMacSduPayloadSize rem), getMacSduPayloadSize rem⟩ := by
  obtain ⟨hpos, hle, hback⟩ := payloadSize_spec ((three_le_minSpace lcid).trans hmin)
  unfold DlSchPdu.getSduEncoder
  rw [if_neg hpos.ne']
  simp only []
  rw [if_neg (by omega), min_eq_right (by omega), hback]

theorem Assembled.snoc {s' : Assembly} (h : Assembled s n subpdus) (hwf : subpdu.WellFormed)
    (hfilled : Filled s'.pdu n (subpdus.flatMap DlSubpdu.encode ++ subpdu.encode))
    (hsdus : s'.sdus = s.sdus ++ sdusOf [subpdu]) : Assembled s' n (subpdus ++ [subpdu]) where
  filled := by
    rw [flatMap_append, flatMap_singleton]
    exact hfilled
  wellFormed := by
    intro other hmem
    rcases mem_append.1 hmem with hmem | hmem
    · exact h.wellFormed other hmem
    · rw [mem_singleton.1 hmem]
      exact hwf
  sdus := by
    rw [hsdus, h.sdus]
    exact filterMap_append.symm

/-- one pass of the loop: what the RLC wrote becomes the next subPDU -/
theorem Assembled.encodedSdu (h : Assembled s n subpdus)
    {w : DlSchPdu} (hw : Filled w n (subpdus.flatMap DlSubpdu.encode)) (lcid : Lcid) (hrem : 3 ≤ rem)
    (hfit : w.byteOffset + rem ≤ n) (hpos : 0 < len) (hlen : len ≤ getMacSduPayloadSize rem) (hshort : len < 2 ^ 16)
    (calls : ℕ) :
    let space := getMacSduPayloadSize rem
    let sdu := seg w.mem (w.byteOffset + getMacSduSubheaderSize space) len
    let res := w.encodeSdu ⟨lcid, getMacSduSubheaderSize space, space⟩ len
    res.1 ≤ rem ∧ res.2.byteOffset = w.byteOffset + res.1 ∧
      Assembled ⟨{ res.2 with fatal := res.2.fatal || !decide (rem ≥ res.1) }, calls, s.sdus ++ [(lcid, sdu)]⟩ n
        (subpdus ++ [.sdu lcid sdu]) := by
  intro space sdu res
  have hspace : getMacSduRequiredBytes space ≤ rem := (payloadSize_spec hrem).2.1
  have hlen' : len ≤ space := hlen
  have hreq : ∀ m, getMacSduRequiredBytes m = m + getMacSduSubheaderSize m := fun _ => rfl
  have hsub := subheaderSize_cases hpos
  have hsub' := subheaderSize_cases (hpos.trans_le hlen')
  have hrlen := hreq len
  have hrspace := hreq space
  have hfit' : w.byteOffset + getMacSduRequiredBytes space ≤ n := by omega
  obtain ⟨hone, hoff, hfilled⟩ := hw.encodeSdu lcid hpos hlen' hfit'
  have hused : res.1 ≤ rem := by
    rw [show res.1 = _ from hone]
    omega
  refine ⟨hused, by rw [hoff, hone], ?_⟩
  refine h.snoc ⟨?_, ?_⟩ { hfilled with fatal := ?_ } rfl
  · rw [length_seg]
    exact hpos
  · rw [length_seg]
    exact hshort
  · show (res.2.fatal || !decide (rem ≥ res.1)) = false
    rw [hfilled.fatal, decide_eq_true hused]
    rfl

/-- SDUs whose length fits the length field: the RLC returns no other, or less than 2^16 bytes are left for one -/
def Short (rlc : ℕ → RlcTx) (rem : ℕ) : Prop := (∀ i, (rlc i).len < 2 ^ 16) ∨ rem ≤ 65538

/-- the loop adds SDUs of its channel, within the bytes it was given -/
theorem Assembled.sduLoop (rlc : ℕ → RlcTx) (lcid : Lcid) (n rem : ℕ) :
    ∀ (s : Assembly) (subpdus : List DlSubpdu), Assembled s n subpdus → s.pdu.byteOffset + rem ≤ n → Short rlc rem →
      ∃ more : List DlSubpdu, (∀ subpdu ∈ more, ∃ bytes, subpdu = .sdu lcid bytes) ∧
        Assembled (assembleSduLoop rlc lcid rem s) n (subpdus ++ more) ∧
          (assembleSduLoop rlc lcid rem s).pdu.byteOffset ≤ s.pdu.byteOffset + rem := by
  induction rem using Nat.strong_induction_on with
  | _ rem ih =>
    intro s subpdus h hrem hshort
    -- the loop ends and has added nothing
    have hnone : ∀ s' : Assembly, Assembled s' n subpdus → s'.pdu.byteOffset = s.pdu.byteOffset →
        ∃ more : List DlSubpdu, (∀ subpdu ∈ more, ∃ bytes, subpdu = .sdu lcid bytes) ∧
          Assembled s' n (subpdus ++ more) ∧ s'.pdu.byteOffset ≤ s.pdu.byteOffset + rem := by
      intro s' hs' hoff
      exact ⟨[], by simp, by rw [append_nil]; exact hs', by omega⟩
    rw [assembleSduLoop]
    split_ifs with hmin
    · exact hnone s h rfl
    · have hthree := (three_le_minSpace lcid).trans (not_lt.1 hmin)
      have hspace : getMacSduPayloadSize rem + getMacSduSubheaderSize (getMacSduPayloadSize rem) ≤ rem :=
        (payloadSize_spec hthree).2.1
      rw [getSduEncoder_eq (not_lt.1 hmin) (by rw [h.filled.size]; exact hrem)]
      simp only []
      -- the RLC writes behind the space for the subheader
      generalize hw : s.pdu.write (s.pdu.byteOffset + getMacSduSubheaderSize (getMacSduPayloadSize rem))
        ((rlc s.calls).bytes.take (getMacSduPayloadSize rem)) = w
      have hwoff : w.byteOffset = s.pdu.byteOffset := by rw [← hw]; rfl
      have hwrite : Filled w n (subpdus.flatMap DlSubpdu.encode) := by
        have htake := length_take_le (getMacSduPayloadSize rem) (rlc s.calls).bytes
        rw [← hw]
        exact h.filled.write (by omega) (by omega)
      split_ifs with hz hres
      · exact hnone _ ⟨hwrite, h.wellFormed, h.sdus⟩ hwoff
      · exact hnone _ ⟨hwrite, h.wellFormed, h.sdus⟩ hwoff
      · have hlen : (rlc s.calls).len ≤ getMacSduPayloadSize rem := by
          by_contra hlt
          refine hres ?_
          unfold DlSchPdu.encodeSdu
          rw [if_pos (.inr (not_le.1 hlt))]
        have hsubhr := subheaderSize_cases ((pos_of_ne_zero hz).trans_le hlen)
        have hlt : (rlc s.calls).len < 2 ^ 16 := hshort.elim (fun hall => hall _) (by omega)
        obtain ⟨hused, hoff, hnext⟩ := h.encodedSdu hwrite lcid hthree (by omega) (pos_of_ne_zero hz) hlen hlt
          (s.calls + 1)
        rw [hwoff] at hoff hnext
        generalize w.encodeSdu _ _ = res at hused hoff hnext hres ⊢
        have hroom : res.2.byteOffset + (rem - res.1) ≤ n := by omega
        obtain ⟨more, hmore, hall, hle⟩ := ih (rem - res.1) (by omega) _ _ hnext hroom
          (hshort.imp_right (by omega))
        have hend : res.2.byteOffset + (rem - res.1) ≤ s.pdu.byteOffset + rem := by omega
        refine ⟨_ :: more, ?_, by rw [append_assoc] at hall; exact hall, hle.trans hend⟩
        intro subpdu hmem
        rcases mem_cons.1 hmem with rfl | hmem
        · exact ⟨_, rfl⟩
        · exact hmore subpdu hmem

/-- the subPDUs for the entries, in order: the SDUs of an entry are of its channel, and the fields of a TA command are
as `ta` says -/
inductive Carried (ta : TaCmdCePayload → ℕ × ℕ) (conRes : UeConResId) : List DlMsgLcInfo → List DlSubpdu → Prop where
  | nil : Carried ta conRes [] []
  | sdu {lcid : Lcid} {schedBytes : Fin (2 ^ 32)} {entries : List DlMsgLcInfo} {now later : List DlSubpdu} :
      (∀ subpdu ∈ now, ∃ bytes, subpdu = .sdu lcid bytes) → Carried ta conRes entries later →
        Carried ta conRes (.sdu lcid schedBytes :: entries) (now ++ later)
  | ueConResId {entries : List DlMsgLcInfo} {later : List DlSubpdu} :
      Carried ta conRes entries later → Carried ta conRes (.ueConResId :: entries) (.ueConResId conRes :: later)
  | taCmd {payload : TaCmdCePayload} {entries : List DlMsgLcInfo} {later : List DlSubpdu} :
      Carried ta conRes entries later →
        Carried ta conRes (.taCmd payload :: entries) (.taCmd (ta payload).1 (ta payload).2 :: later)

namespace TaCmdCePayload

/-- TAG id and command in the byte that is sent -/
def onWire : ℕ × ℕ := (payload.toByte.toNat / 64, payload.toByte.toNat % 64)

end TaCmdCePayload

/-- bytes an entry may take -/
def DlMsgLcInfo.requiredBytes : DlMsgLcInfo → ℕ
  | sdu _ schedBytes => getMacSduRequiredBytes schedBytes
  | ueConResId => 7
  | taCmd _ => 2

/-- an entry that gives SDUs of less than 2^16 bytes only: because of the RLC or because of the bytes scheduled -/
def ShortEntry (rlc : ℕ → RlcTx) : DlMsgLcInfo → Prop
  | .sdu _ schedBytes => (∀ i, (rlc i).len < 2 ^ 16) ∨ schedBytes.val < 2 ^ 16
  | _ => True

/-- a control element, or padding, behind its subheader of one byte -/
theorem Filled.ce (h : Filled pdu n done) (lcid payloadLen : ℕ) (body : Bytes)
    (hfit : pdu.byteOffset + 1 + body.length ≤ n) :
    Filled ((pdu.encodeSubheader false lcid 1 payloadLen).append body) n
      (done ++ (DlSchPdu.subheader false lcid 1 payloadLen ++ body)) := by
  have hsub : Filled (pdu.encodeSubheader false lcid 1 payloadLen) n _ :=
    h.encodeSubheader (.inl rfl) ((le_add_right _ _).trans hfit)
  rw [← append_assoc]
  exact hsub.append hfit

/-- the byte of the command is the encoding of the fields on the wire -/
theorem encode_onWire : (DlSubpdu.taCmd payload.onWire.1 payload.onWire.2).WellFormed ∧
      (DlSubpdu.taCmd payload.onWire.1 payload.onWire.2).encode =
        DlSchPdu.subheader false LcidDlSch.taCmd 1 1 ++ [payload.toByte] := by
  have hlt := payload.toByte.toNat_lt
  refine ⟨⟨Nat.div_lt_of_lt_mul hlt, Nat.mod_lt _ (by decide)⟩, ?_⟩
  rw [TaCmdCePayload.onWire, DlSubpdu.encode, div_add_mod', UInt8.ofNat_toNat]

/-- one entry of the grant -/
theorem Assembled.entry (h : Assembled s n subpdus) (hn : n < 2 ^ 32) (conRes : UeConResId) (rlc : ℕ → RlcTx)
    (entry : DlMsgLcInfo) (hfit : s.pdu.byteOffset + entry.requiredBytes ≤ n) (hshort : ShortEntry rlc entry) :
    ∃ now : List DlSubpdu,
      (∀ {entries : List DlMsgLcInfo} {later : List DlSubpdu}, Carried TaCmdCePayload.onWire conRes entries later →
        Carried TaCmdCePayload.onWire conRes (entry :: entries) (now ++ later)) ∧
        Assembled (assembleEntry conRes rlc s entry) n (subpdus ++ now) ∧
          (assembleEntry conRes rlc s entry).pdu.byteOffset ≤ s.pdu.byteOffset + entry.requiredBytes := by
  cases entry with
  | sdu lcid schedBytes =>
    have hfit' : s.pdu.byteOffset + getMacSduRequiredBytes schedBytes ≤ n := hfit
    have hempty : s.pdu.nofEmptyBytes = n - s.pdu.byteOffset := by rw [← h.filled.size]; rfl
    have hmin : min (getMacSduRequiredBytes schedBytes % 2 ^ 32) s.pdu.nofEmptyBytes =
        getMacSduRequiredBytes schedBytes := by
      rw [Nat.mod_eq_of_lt (by omega), min_eq_left (by omega)]
    have hrlc : Short rlc (getMacSduRequiredBytes schedBytes) := by
      refine hshort.imp_right fun hsched => ?_
      rcases Nat.eq_zero_or_pos schedBytes.val with hz | hpos
      · rw [hz]
        decide
      · have := subheaderSize_cases hpos
        unfold getMacSduRequiredBytes
        omega
    obtain ⟨more, hmore, hall, hle⟩ := h.sduLoop rlc lcid n _ s subpdus hfit' hrlc
    refine ⟨more, fun hlater => Carried.sdu hmore hlater, ?_⟩
    show Assembled (assembleSdus rlc s lcid schedBytes) n _ ∧ (assembleSdus rlc s lcid schedBytes).pdu.byteOffset ≤ _
    rw [assembleSdus, hmin]
    exact ⟨hall, hle⟩
  | ueConResId =>
    refine ⟨[.ueConResId conRes], fun hlater => Carried.ueConResId hlater, ?_, le_rfl⟩
    have hce := h.filled.ce LcidDlSch.ueConResId 6 (ofFn conRes) hfit
    exact h.snoc trivial hce (append_nil _).symm
  | taCmd payload =>
    obtain ⟨hwf, hencode⟩ := encode_onWire payload
    refine ⟨[.taCmd payload.onWire.1 payload.onWire.2], fun hlater => Carried.taCmd hlater, ?_, le_rfl⟩
    have hce := h.filled.ce LcidDlSch.taCmd 1 [payload.toByte] hfit
    rw [← hencode] at hce
    exact h.snoc hwf hce (append_nil _).symm

theorem Assembled.entries (hn : n < 2 ^ 32) (conRes : UeConResId) (rlc : ℕ → RlcTx) (entries : List DlMsgLcInfo)
    (hshort : ∀ entry ∈ entries, ShortEntry rlc entry) :
    ∀ (s : Assembly) (subpdus : List DlSubpdu), Assembled s n subpdus →
      s.pdu.byteOffset + (entries.map DlMsgLcInfo.requiredBytes).sum ≤ n →
        ∃ more, Carried TaCmdCePayload.onWire conRes entries more ∧
          Assembled (entries.foldl (assembleEntry conRes rlc) s) n (subpdus ++ more) := by
  induction entries with
  | nil =>
    intro s subpdus h _
    exact ⟨[], .nil, by rw [append_nil]; exact h⟩
  | cons entry entries ih =>
    intro s subpdus h hfit
    rw [map_cons, sum_cons] at hfit
    obtain ⟨now, hnow, hentry, hoff⟩ := h.entry hn conRes rlc entry (by omega) (hshort entry mem_cons_self)
    obtain ⟨later, hlater, hall⟩ := ih (fun e he => hshort e (mem_cons_of_mem _ he)) _ _ hentry (by omega)
    refine ⟨now ++ later, hnow hlater, ?_⟩
    rw [append_assoc] at hall
    exact hall

/-! ## What the UE reads -/

/-- the assembled subPDUs with the padding behind them -/
theorem Assembled.finish (h : Assembled s n subpdus) :
    let pdu := if s.pdu.byteOffset < n then s.pdu.addPadding (n - s.pdu.byteOffset) else s.pdu
    pdu.byteOffset = n ∧ (∀ w ∈ pdu.writes, w.2 ≤ n) ∧ pdu.fatal = false ∧
      ∃ pad, parse (seg pdu.mem 0 pdu.byteOffset) = some (subpdus ++ pad) ∧
        (pad = [] ∨ ∃ len, pad = [.padding len]) := by
  intro pdu
  have hoff := h.filled.offset
  by_cases hlt : s.pdu.byteOffset < n
  · rw [show pdu = s.pdu.addPadding (n - s.pdu.byteOffset) from if_pos hlt]
    have hlen : s.pdu.byteOffset + 1 + (replicate (n - s.pdu.byteOffset - 1) (0 : UInt8)).length = n := by
      rw [length_replicate]
      omega
    have hpad := h.filled.ce LcidDlSch.padding (n - s.pdu.byteOffset - 1)
      (replicate (n - s.pdu.byteOffset - 1) 0) hlen.le
    refine ⟨hlen, hpad.writes, hpad.fatal, [.padding (n - s.pdu.byteOffset - 1)], ?_, .inr ⟨_, rfl⟩⟩
    have hparse := parse_flatMap subpdus (DlSubpdu.padding (n - s.pdu.byteOffset - 1)).encode h.wellFormed
    rw [parse_padding] at hparse
    exact (congrArg parse hpad.bytes).trans hparse
  · rw [show pdu = s.pdu from if_neg hlt]
    refine ⟨le_antisymm hoff (not_lt.1 hlt), h.filled.writes, h.filled.fatal, [], ?_, .inl rfl⟩
    have hparse := parse_flatMap subpdus [] h.wellFormed
    rw [append_nil, parse_nil] at hparse
    rw [h.filled.bytes]
    exact hparse

/-- entries whose TA commands have the same fields are carried alike -/
theorem Carried.congr {entries : List DlMsgLcInfo} {ta' : TaCmdCePayload → ℕ × ℕ}
    (h : Carried ta conRes entries subpdus)
    (hta : ∀ payload, .taCmd payload ∈ entries → ta payload = ta' payload) : Carried ta' conRes entries subpdus := by
  induction h with
  | nil => exact .nil
  | sdu hnow _ ih => exact .sdu hnow (ih fun payload hmem => hta payload (mem_cons_of_mem _ hmem))
  | ueConResId _ ih => exact .ueConResId (ih fun payload hmem => hta payload (mem_cons_of_mem _ hmem))
  | taCmd _ ih =>
    rw [hta _ mem_cons_self]
    exact .taCmd (ih fun payload hmem => hta payload (mem_cons_of_mem _ hmem))

end OcuduRan.Mac
