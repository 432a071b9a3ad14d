/-
Parsing of MAC UL-SCH PDUs (mac_ul_sch_pdu.cpp) and of the buffer status reports in them (ul_bsr.cpp), for any bytes
the UE may send. The bytes of the PDU are `mem 0 … mem (n - 1)`; what `mem` has behind them is arbitrary.

`SubpduAt` is the format of one subPDU and `Subpdus` a cut of the PDU into consecutive subPDUs. `unpack_safe_iff`: the
parser stays inside the PDU, returns subPDUs that fill it or none at all, and the decoder of each BSR among them stays
inside the payload of its subPDU, if and only if

  limit     the PDU does not have more than 4096 subPDUs: behind the last one of a full list unpack stops and reports
            success.
  payload   none of its Long BSRs has length 0: decode_lbsr reads the bitmap without looking at the length
            (`empty_long_bsr_read`).
-/
import OcuduRan.Core.ByteReader
import OcuduRan.Core.Records

namespace OcuduRan.Mac

open Nat List

/-! ## LCIDs -/

/-- lcid_ul_sch_t: values up to PADDING -/
abbrev LcidUlSch := Fin 64

namespace LcidUlSch

def minUnsupported : ℕ := 33
def maxUnsupported : ℕ := 51
def timingAdvanceReport : LcidUlSch := 0b101100
def ccchSize64 : LcidUlSch := 0
def ccchSize48 : LcidUlSch := 0b110100
def sePhr : LcidUlSch := 0b111001
def crnti : LcidUlSch := 0b111010
def shortTruncBsr : LcidUlSch := 0b111011
def longTruncBsr : LcidUlSch := 0b111100
def shortBsr : LcidUlSch := 0b111101
def longBsr : LcidUlSch := 0b111110
def padding : LcidUlSch := 0b111111

variable (lcid : LcidUlSch)

def isCcch : Bool := lcid = ccchSize48 || lcid = ccchSize64

def isSdu : Bool := lcid.val ≤ 32 && lcid.val ≥ 1

def isValidLcid : Bool :=
  lcid = timingAdvanceReport || lcid.val < minUnsupported || lcid.val > maxUnsupported

def isVarLenCe : Bool := lcid = longTruncBsr || lcid = longBsr

def hasLengthField : Bool := if lcid.isCcch then false else lcid.isSdu || lcid.isVarLenCe

def sizeofCe : ℕ :=
  if lcid = ccchSize48 then 6
  else if lcid = ccchSize64 then 8
  else if lcid = crnti then 2
  else if lcid = shortBsr ∨ lcid = shortTruncBsr then 1
  else if lcid = sePhr then 2
  else if lcid = timingAdvanceReport then 2
  else if lcid = longBsr ∨ lcid = longTruncBsr then 1
  else 0

end LcidUlSch

/-! ## SubPDUs -/

inductive UnpackError where
  | emptySubpdu
  | unrecognizedLcid (lcid : LcidUlSch)
  | lengthPrefix
  | sduPayload (remaining sduLength : ℕ)
  | cePayload (remaining sduLength : ℕ)
deriving DecidableEq, Repr

def UnpackError.message : UnpackError → String
  | .emptySubpdu => "Empty subPDU."
  | .unrecognizedLcid lcid => "Unrecognized lcid=" ++ toString lcid.val ++ "."
  | .lengthPrefix => "Not enough bytes remaining in PDU to decode length prefix."
  | .sduPayload remaining sduLength =>
    "Not enough bytes remaining in PDU to decode SDU payload (" ++ toString remaining ++ " < " ++ toString sduLength ++
      ")."
  | .cePayload remaining sduLength =>
    "Not enough bytes remaining in PDU to decode CE payload (" ++ toString remaining ++ " < " ++ toString sduLength ++
      ")."

structure MacUlSchSubpdu where
  lcid : LcidUlSch
  headerLength : ℕ
  fBit : Bool
  payload : ByteView
deriving DecidableEq, Repr

/-- LCID of the first byte of a subPDU -/
def lcidOf (b : UInt8) : LcidUlSch := ⟨(b &&& 0x3f).toNat, by
  have h := UInt8.toNat_and b 0x3f
  rw [h]
  exact lt_succ_of_le and_le_right⟩

/-- F bit of the first byte of a subPDU -/
def fBitOf (b : UInt8) : Bool := decide ((b &&& 0x40).toNat > 0)

namespace MacUlSchSubpdu

/-- the payload behind a subheader, if there is enough of the PDU left -/
def takePayload (error : ℕ → ℕ → UnpackError) (subpduLen headerLength sduLength : ℕ) (fBit : Bool) (lcid : LcidUlSch)
    (r : ByteReader) : Except UnpackError MacUlSchSubpdu × ByteReader :=
  if subpduLen < headerLength + sduLength then (.error (error (subpduLen - headerLength) sduLength), r)
  else
    let (payload, r) := r.splitAndAdvance sduLength
    (.ok ⟨lcid, headerLength, fBit, payload⟩, r)

/-- a subPDU with an 8-bit or 16-bit length field -/
def unpackSized (mem : ℕ → UInt8) (subpduLen : ℕ) (fBit : Bool) (lcid : LcidUlSch) (r : ByteReader) :
    Except UnpackError MacUlSchSubpdu × ByteReader :=
  if subpduLen < if fBit then 3 else 2 then (.error .lengthPrefix, r)
  else
    let (b, r) := r.next mem
    if fBit then
      let (b', r) := r.next mem
      takePayload .sduPayload subpduLen 3 (b.toNat <<< 8 ||| b'.toNat) fBit lcid r
    else takePayload .sduPayload subpduLen 2 b.toNat fBit lcid r

def unpack (mem : ℕ → UInt8) (r : ByteReader) : Except UnpackError MacUlSchSubpdu × ByteReader :=
  let subpduLen := r.length % 2 ^ 32
  if subpduLen = 0 then (.error .emptySubpdu, r)
  else
    let (b, r) := r.next mem
    let fBit := fBitOf b
    let lcid := lcidOf b
    if !lcid.isValidLcid then (.error (.unrecognizedLcid lcid), r)
    else if lcid.hasLengthField then unpackSized mem subpduLen fBit lcid r
    else if lcid = LcidUlSch.padding then
      -- the rest of the PDU, behind which the reader is empty
      (.ok ⟨lcid, 1, fBit, ⟨r.pos, r.stop⟩⟩, { r with pos := r.stop })
    else takePayload .cePayload subpduLen 1 lcid.sizeofCe fBit lcid r

end MacUlSchSubpdu

/-! ## PDUs -/

def maxSubpdusPerPdu : ℕ := 4096

/-- the loop of mac_ul_sch_pdu::unpack with room for `room` more subPDUs -/
def MacUlSchPdu.unpackFrom (mem : ℕ → UInt8) :
    ℕ → ByteReader → List MacUlSchSubpdu → Except UnpackError Unit × List MacUlSchSubpdu × ByteReader
  | 0, r, subpdus => (.ok (), subpdus, r)
  | room + 1, r, subpdus =>
    if r.empty then (.ok (), subpdus, r)
    else
      match MacUlSchSubpdu.unpack mem r with
      | (.error e, r) => (.error e, [], r)
      | (.ok subpdu, r) => unpackFrom mem room r (subpdus ++ [subpdu])

/-- mac_ul_sch_pdu::unpack of the `n` bytes of a PDU into an empty list -/
def MacUlSchPdu.unpack (mem : ℕ → UInt8) (n : ℕ) : Except UnpackError Unit × List MacUlSchSubpdu × ByteReader :=
  unpackFrom mem maxSubpdusPerPdu ⟨0, n, []⟩ []

/-! ## Buffer status reports -/

inductive BsrFormat where
  | shortBsr
  | longBsr
  | shortTruncBsr
  | longTruncBsr
deriving DecidableEq, Repr

structure LcgBsrReport where
  lcgId : ℕ
  bufferSize : ℕ
deriving DecidableEq, Repr

def maxNofLcgs : ℕ := 8

def decodeSbsr (mem : ℕ → UInt8) (payload : ByteView) : LcgBsrReport × ByteReader :=
  let (b, r) := (ByteReader.ofView payload).next mem
  (⟨((b &&& 0xe0) >>> 5).toNat, (b &&& 0x1f).toNat⟩, r)

/-- the loop of decode_lbsr over the LCGs -/
def decodeLcgs (mem : ℕ → UInt8) (format : BsrFormat) (bitmap : ℕ) :
    List ℕ → ByteReader → List LcgBsrReport → Option (List LcgBsrReport) × ByteReader
  | [], r, list => (some list, r)
  | i :: lcgs, r, list =>
    if bitmap.testBit i then
      if r.length > 0 then
        let (b, r) := r.next mem
        if b.toNat = 255 then (none, r)
        else decodeLcgs mem format bitmap lcgs r (list ++ [⟨i, b.toNat⟩])
      else if format = .longTruncBsr then decodeLcgs mem format bitmap lcgs r (list ++ [⟨i, 64⟩])
      else (none, r)
    else if format = .longTruncBsr then decodeLcgs mem format bitmap lcgs r (list ++ [⟨i, 0⟩])
    else decodeLcgs mem format bitmap lcgs r list

def decodeLbsr (mem : ℕ → UInt8) (format : BsrFormat) (payload : ByteView) :
    Option (List LcgBsrReport) × ByteReader :=
  let (bitmap, r) := (ByteReader.ofView payload).next mem
  if bitmap = 0 then (some ((range maxNofLcgs).map fun i => ⟨i, 0⟩), r)
  else decodeLcgs mem format bitmap.toNat (range maxNofLcgs) r []

/-- what the receiver decodes from a subPDU with a BSR -/
def MacUlSchSubpdu.decodeBsr (mem : ℕ → UInt8) (subpdu : MacUlSchSubpdu) :
    Option (Option (List LcgBsrReport) × ByteReader) :=
  if subpdu.lcid = LcidUlSch.shortBsr ∨ subpdu.lcid = LcidUlSch.shortTruncBsr then
    let (report, r) := decodeSbsr mem subpdu.payload
    some (some [report], r)
  else if subpdu.lcid = LcidUlSch.longBsr then some (decodeLbsr mem .longBsr subpdu.payload)
  else if subpdu.lcid = LcidUlSch.longTruncBsr then some (decodeLbsr mem .longTruncBsr subpdu.payload)
  else none

/-! ## Format of a PDU -/

/-- length of the subheader that starts with this byte -/
def headerLengthOf (b : UInt8) : ℕ := if (lcidOf b).hasLengthField then if fBitOf b then 3 else 2 else 1

/-- length of the payload of the subPDU at `pos`; padding goes up to the end of the PDU -/
def payloadLengthAt (mem : ℕ → UInt8) (n pos : ℕ) : ℕ :=
  if (lcidOf (mem pos)).hasLengthField then
    if fBitOf (mem pos) then (mem (pos + 1)).toNat * 256 + (mem (pos + 2)).toNat else (mem (pos + 1)).toNat
  else if lcidOf (mem pos) = LcidUlSch.padding then n - (pos + 1)
  else (lcidOf (mem pos)).sizeofCe

/-- a well-formed subPDU starts at `pos` and the next one at `next` -/
structure SubpduAt (mem : ℕ → UInt8) (n pos : ℕ) (subpdu : MacUlSchSubpdu) (next : ℕ) : Prop where
  valid : (lcidOf (mem pos)).isValidLcid = true
  fields : subpdu.lcid = lcidOf (mem pos) ∧ subpdu.fBit = fBitOf (mem pos) ∧
    subpdu.headerLength = headerLengthOf (mem pos)
  payload : subpdu.payload =
    ⟨pos + headerLengthOf (mem pos), pos + headerLengthOf (mem pos) + payloadLengthAt mem n pos⟩
  next_eq : next = subpdu.payload.stop
  inside : pos < n ∧ next ≤ n
  /-- unpack has the length of the rest of the PDU in 32 bits -/
  fits : (n - pos) % 2 ^ 32 ≠ 0 ∧ (subpdu.lcid ≠ LcidUlSch.padding → next - pos ≤ (n - pos) % 2 ^ 32)

/-- consecutive subPDUs from `pos` to `stop` -/
abbrev Subpdus (mem : ℕ → UInt8) (n : ℕ) : ℕ → List MacUlSchSubpdu → ℕ → Prop := Records (SubpduAt mem n)

variable {mem : ℕ → UInt8} {n pos next next' : ℕ} {subpdu subpdu' : MacUlSchSubpdu} {r : ByteReader}

theorem one_le_headerLengthOf (b : UInt8) : 1 ≤ headerLengthOf b := by
  unfold headerLengthOf
  split_ifs <;> decide

namespace SubpduAt

theorem det (h : SubpduAt mem n pos subpdu next) (h' : SubpduAt mem n pos subpdu' next') :
    subpdu = subpdu' ∧ next = next' := by
  have heq : subpdu = subpdu' := by
    obtain ⟨lcid, headerLength, fBit, payload⟩ := subpdu
    obtain ⟨lcid', headerLength', fBit', payload'⟩ := subpdu'
    obtain ⟨rfl, rfl, rfl⟩ := h.fields
    obtain ⟨rfl, rfl, rfl⟩ := h'.fields
    rw [MacUlSchSubpdu.mk.injEq]
    exact ⟨rfl, rfl, rfl, h.payload.trans h'.payload.symm⟩
  exact ⟨heq, by rw [h.next_eq, h'.next_eq, heq]⟩

theorem not_at_end (subpdu : MacUlSchSubpdu) (next : ℕ) : ¬SubpduAt mem n n subpdu next :=
  fun h => absurd h.inside.1 (lt_irrefl n)

end SubpduAt

theorem padding_ne_of_hasLengthField : ∀ lcid : LcidUlSch, lcid.hasLengthField = true → lcid ≠ LcidUlSch.padding := by
  decide

namespace SubpduAt

theorem fits_of_ne_padding (h : SubpduAt mem n pos subpdu next) (hp : lcidOf (mem pos) ≠ LcidUlSch.padding) :
    headerLengthOf (mem pos) + payloadLengthAt mem n pos ≤ (n - pos) % 2 ^ 32 := by
  have hf := h.fits.2 (by rw [h.fields.1]; exact hp)
  have hn : next = pos + headerLengthOf (mem pos) + payloadLengthAt mem n pos := by rw [h.next_eq, h.payload]
  omega

/-- the subPDU at `pos`, other than padding -/
theorem of_fits (hvalid : (lcidOf (mem pos)).isValidLcid = true) (hlt : pos < n)
    (hfits : headerLengthOf (mem pos) + payloadLengthAt mem n pos ≤ (n - pos) % 2 ^ 32) : SubpduAt mem n pos
      ⟨lcidOf (mem pos), headerLengthOf (mem pos), fBitOf (mem pos),
        ⟨pos + headerLengthOf (mem pos), pos + headerLengthOf (mem pos) + payloadLengthAt mem n pos⟩⟩
      (pos + headerLengthOf (mem pos) + payloadLengthAt mem n pos) := by
  have hh := one_le_headerLengthOf (mem pos)
  refine ⟨hvalid, ⟨rfl, rfl, rfl⟩, rfl, rfl, ⟨hlt, by omega⟩, by omega, fun _ => by omega⟩

end SubpduAt

/-! ## The parser follows the format -/

/-- one subPDU: the reader ends behind it, or there is none -/
structure Parsed (mem : ℕ → UInt8) (r : ByteReader) (res : Except UnpackError MacUlSchSubpdu × ByteReader) : Prop where
  within : res.2.Within 0
  stop : res.2.stop = r.stop
  ok : ∀ subpdu, res.1 = .ok subpdu → SubpduAt mem r.stop r.pos subpdu res.2.pos
  error : ∀ e, res.1 = .error e → ∀ subpdu next, ¬SubpduAt mem r.stop r.pos subpdu next

theorem Parsed.of_error {r' : ByteReader} {e : UnpackError} (hw : r'.Within 0) (hs : r'.stop = r.stop)
    (hno : ∀ subpdu next, ¬SubpduAt mem r.stop r.pos subpdu next) : Parsed mem r (.error e, r') :=
  ⟨hw, hs, fun _ h => (nomatch h), fun _ _ => hno⟩

theorem Parsed.of_ok {r' : ByteReader} (hw : r'.Within 0) (hs : r'.stop = r.stop)
    (hat : SubpduAt mem r.stop r.pos subpdu r'.pos) : Parsed mem r (.ok subpdu, r') := by
  refine ⟨hw, hs, fun subpdu' h => ?_, fun _ h => (nomatch h)⟩
  cases h
  exact hat

/-- behind a subheader there is the payload, or the subPDU is too long for the PDU -/
theorem takePayload_parsed (mem : ℕ → UInt8) (r r' : ByteReader) (error : ℕ → ℕ → UnpackError) (hw : r'.Within 0)
    (hs : r'.stop = r.stop) (hlt : r.pos < r.stop) (hpos : r'.pos = r.pos + headerLengthOf (mem r.pos))
    (hvalid : (lcidOf (mem r.pos)).isValidLcid = true) (hpad : lcidOf (mem r.pos) ≠ LcidUlSch.padding) :
    Parsed mem r (MacUlSchSubpdu.takePayload error ((r.stop - r.pos) % 2 ^ 32) (headerLengthOf (mem r.pos))
      (payloadLengthAt mem r.stop r.pos) (fBitOf (mem r.pos)) (lcidOf (mem r.pos)) r') := by
  unfold MacUlSchSubpdu.takePayload
  split_ifs with hlong
  · exact Parsed.of_error hw hs fun subpdu next hat => absurd (hat.fits_of_ne_padding hpad) (not_le.2 hlong)
  · have hat := SubpduAt.of_fits hvalid hlt (not_lt.1 hlong)
    refine Parsed.of_ok (hw.moved ?_) hs ?_
    · rw [hpos, hs]
      exact hat.inside.2
    · show SubpduAt mem r.stop r.pos ⟨_, _, _, ⟨r'.pos, r'.pos + _⟩⟩ (r'.pos + _)
      rw [hpos]
      exact hat

theorem shift_or_eq (a b : UInt8) : a.toNat <<< 8 ||| b.toNat = a.toNat * 256 + b.toNat := by
  have hb := b.toNat_lt
  rw [← shiftLeft_add_eq_or_of_lt hb, shiftLeft_eq]

theorem unpackSized_parsed (h : r.Within 0) (hlt : r.pos < r.stop) (hvalid : (lcidOf (mem r.pos)).isValidLcid = true)
    (hl : (lcidOf (mem r.pos)).hasLengthField = true) :
    Parsed mem r (MacUlSchSubpdu.unpackSized mem ((r.stop - r.pos) % 2 ^ 32) (fBitOf (mem r.pos)) (lcidOf (mem r.pos))
      (r.next mem).2) := by
  have hpad := padding_ne_of_hasLengthField _ hl
  have h1 : (r.next mem).2.Within 0 := h.next mem (zero_le _) hlt
  unfold MacUlSchSubpdu.unpackSized
  by_cases hshort : (r.stop - r.pos) % 2 ^ 32 < if fBitOf (mem r.pos) then 3 else 2
  · -- the subheader alone does not fit
    rw [if_pos hshort]
    refine Parsed.of_error h1 rfl fun subpdu next hat => ?_
    have hfits := hat.fits_of_ne_padding hpad
    rw [headerLengthOf, if_pos hl] at hfits
    omega
  · rw [if_neg hshort]
    cases hf : fBitOf (mem r.pos) with
    | true =>
      rw [hf, if_pos rfl] at hshort
      have hhdr : headerLengthOf (mem r.pos) = 3 := by simp [headerLengthOf, hl, hf]
      have hpay : payloadLengthAt mem r.stop r.pos = (mem (r.pos + 1)).toNat <<< 8 ||| (mem (r.pos + 2)).toNat := by
        simp [payloadLengthAt, hl, hf, shift_or_eq]
      have h2 : ((r.next mem).2.next mem).2.Within 0 := h1.next mem (zero_le _) (show r.pos + 1 < r.stop by omega)
      have h3 : (((r.next mem).2.next mem).2.next mem).2.Within 0 :=
        h2.next mem (zero_le _) (show r.pos + 1 + 1 < r.stop by omega)
      have hres := takePayload_parsed mem r _ .sduPayload h3 rfl hlt
        (show r.pos + 1 + 1 + 1 = r.pos + headerLengthOf (mem r.pos) by rw [hhdr]) hvalid hpad
      rw [hhdr, hpay, hf] at hres
      exact hres
    | false =>
      rw [hf, if_neg Bool.false_ne_true] at hshort
      have hhdr : headerLengthOf (mem r.pos) = 2 := by simp [headerLengthOf, hl, hf]
      have hpay : payloadLengthAt mem r.stop r.pos = (mem (r.pos + 1)).toNat := by simp [payloadLengthAt, hl, hf]
      have h2 : ((r.next mem).2.next mem).2.Within 0 := h1.next mem (zero_le _) (show r.pos + 1 < r.stop by omega)
      have hres := takePayload_parsed mem r _ .sduPayload h2 rfl hlt
        (show r.pos + 1 + 1 = r.pos + headerLengthOf (mem r.pos) by rw [hhdr]) hvalid hpad
      rw [hhdr, hpay, hf] at hres
      exact hres

theorem unpack_parsed (mem : ℕ → UInt8) (h : r.Within 0) : Parsed mem r (MacUlSchSubpdu.unpack mem r) := by
  have hlen := h.length_eq
  unfold MacUlSchSubpdu.unpack
  dsimp only
  rw [hlen]
  by_cases hempty : (r.stop - r.pos) % 2 ^ 32 = 0
  · rw [if_pos hempty]
    exact Parsed.of_error h rfl fun subpdu next hat => hat.fits.1 hempty
  rw [if_neg hempty]
  have hlt : r.pos < r.stop := by omega
  have h1 : (r.next mem).2.Within 0 := h.next mem (zero_le _) hlt
  have hb : (r.next mem).1 = mem r.pos := rfl
  rw [hb]
  by_cases hvalid : (lcidOf (mem r.pos)).isValidLcid = true
  · rw [hvalid, Bool.not_true, if_neg Bool.false_ne_true]
    by_cases hl : (lcidOf (mem r.pos)).hasLengthField = true
    · rw [if_pos hl]
      exact unpackSized_parsed h hlt hvalid hl
    · rw [if_neg hl]
      have hhdr : headerLengthOf (mem r.pos) = 1 := by simp [headerLengthOf, hl]
      by_cases hpad : lcidOf (mem r.pos) = LcidUlSch.padding
      · rw [if_pos hpad]
        have hpay : payloadLengthAt mem r.stop r.pos = r.stop - (r.pos + 1) := by
          rw [payloadLengthAt, if_neg hl, if_pos hpad]
        have hstop : r.pos + 1 + (r.stop - (r.pos + 1)) = r.stop := by omega
        refine Parsed.of_ok (h1.moved le_rfl) rfl ⟨hvalid, ⟨rfl, rfl, hhdr.symm⟩, ?_, rfl, ⟨hlt, le_rfl⟩, hempty, ?_⟩
        · rw [hhdr, hpay, hstop]
          rfl
        · exact fun hne => absurd hpad hne
      · rw [if_neg hpad]
        have hpay : payloadLengthAt mem r.stop r.pos = (lcidOf (mem r.pos)).sizeofCe := by
          simp [payloadLengthAt, hl, hpad]
        have hres := takePayload_parsed mem r _ .cePayload h1 rfl hlt
          (show r.pos + 1 = r.pos + headerLengthOf (mem r.pos) by rw [hhdr]) hvalid hpad
        rw [hhdr, hpay] at hres
        exact hres
  · rw [Bool.not_eq_true] at hvalid
    rw [hvalid, Bool.not_false, if_pos rfl]
    refine Parsed.of_error h1 rfl fun subpdu next hat => ?_
    exact absurd hat.valid (by rw [hvalid]; exact Bool.false_ne_true)

/-- the loop: it fills the list with the subPDUs from the reader on, or there is a place where none starts -/
theorem unpackFrom_spec (mem : ℕ → UInt8) (room : ℕ) (h : r.Within 0) (acc : List MacUlSchSubpdu) :
    let res := MacUlSchPdu.unpackFrom mem room r acc
    res.2.2.Within 0 ∧ res.2.2.stop = r.stop ∧
      (res.1 = .ok () → ∃ subpdus pos, Subpdus mem r.stop r.pos subpdus pos ∧ res.2.1 = acc ++ subpdus ∧
        subpdus.length ≤ room ∧ (pos = r.stop ∨ subpdus.length = room)) ∧
      ∀ e, res.1 = .error e → res.2.1 = [] ∧
        ∀ subpdus pos, Subpdus mem r.stop r.pos subpdus pos → subpdus.length < room ∧ pos ≠ r.stop := by
  induction room generalizing r acc with
  | zero =>
    refine ⟨h, rfl, fun _ => ⟨[], r.pos, Records.nil _, by simp [MacUlSchPdu.unpackFrom], le_rfl, .inr rfl⟩, ?_⟩
    exact fun e he => (nomatch he)
  | succ room ih =>
    rw [MacUlSchPdu.unpackFrom]
    by_cases hempty : r.empty = true
    · rw [if_pos hempty]
      refine ⟨h, rfl, fun _ => ⟨[], r.pos, Records.nil _, by simp, zero_le _, .inl ?_⟩, fun e he => (nomatch he)⟩
      exact of_decide_eq_true hempty
    · rw [if_neg hempty]
      have hne : r.pos ≠ r.stop := fun heq => hempty (decide_eq_true heq)
      have hp := unpack_parsed mem h
      generalize MacUlSchSubpdu.unpack mem r = res at hp
      obtain ⟨ret, r'⟩ := res
      cases ret with
      | error e =>
        refine ⟨hp.within, hp.stop, fun he => (nomatch he), fun _ _ => ⟨rfl, fun subpdus pos hs => ?_⟩⟩
        cases hs with
        | nil => exact ⟨succ_pos _, hne⟩
        | cons hr _ => exact absurd hr (hp.error e rfl _ _)
      | ok subpdu =>
        have hat := hp.ok subpdu rfl
        have hstop : r'.stop = r.stop := hp.stop
        obtain ⟨hw, hs, hok, herr⟩ := ih hp.within (acc ++ [subpdu])
        rw [hstop] at hs hok herr
        refine ⟨hw, hs, fun he => ?_, fun e he => ?_⟩
        · obtain ⟨subpdus, pos, hrec, heq, hlen, hend⟩ := hok he
          refine ⟨subpdu :: subpdus, pos, Records.cons hat hrec, by rw [heq]; simp, by simpa using hlen, ?_⟩
          exact hend.imp id fun hl => by simp [hl]
        · obtain ⟨hnil, hno⟩ := herr e he
          refine ⟨hnil, fun subpdus pos hrec => ?_⟩
          cases hrec with
          | nil => exact ⟨succ_pos _, hne⟩
          | cons hr hrs =>
            obtain ⟨rfl, rfl⟩ := hat.det hr
            obtain ⟨hlen, hpos⟩ := hno _ _ hrs
            exact ⟨by simpa using hlen, hpos⟩

/-! ## Decoding of BSRs -/

theorem decodeLcgs_within {lo : ℕ} (mem : ℕ → UInt8) (format : BsrFormat) (bitmap : ℕ) (lcgs : List ℕ) (h : r.Within lo)
    (hlo : lo ≤ r.pos) (list : List LcgBsrReport) : (decodeLcgs mem format bitmap lcgs r list).2.Within lo ∧
      (decodeLcgs mem format bitmap lcgs r list).2.stop = r.stop := by
  induction lcgs generalizing r list with
  | nil => exact ⟨h, rfl⟩
  | cons i lcgs ih =>
    rw [decodeLcgs]
    split_ifs with hbit hlen htrunc htrunc
    · have hlt : r.pos < r.stop := by
        rw [h.length_eq] at hlen
        omega
      have h1 := h.next mem hlo hlt
      dsimp only
      split_ifs
      · exact ⟨h1, rfl⟩
      · exact ih h1 (hlo.trans (le_succ _)) _
    · exact ih h hlo _
    · exact ⟨h, rfl⟩
    · exact ih h hlo _
    · exact ih h hlo _

/-- the decoder of a long BSR stays inside a payload that is not empty -/
theorem decodeLbsr_within (format : BsrFormat) {payload : ByteView} (h : payload.first < payload.stop) :
    ∀ i ∈ (decodeLbsr mem format payload).2.reads, payload.first ≤ i ∧ i < payload.stop := by
  have h0 : (ByteReader.ofView payload).Within payload.first := ⟨h.le, fun i hi => absurd hi not_mem_nil⟩
  have h1 := h0.next mem le_rfl h
  unfold decodeLbsr
  dsimp only
  split_ifs
  · exact h1.reads
  · obtain ⟨hw, hs⟩ := decodeLcgs_within mem format ((ByteReader.ofView payload).next mem).1.toNat
      (range maxNofLcgs) h1 (le_succ _) []
    intro i hi
    have hr := hw.reads i hi
    rw [hs] at hr
    exact hr

/-! ## Safety -/

/-- the parser and the BSR decoders do what they should with a PDU of `n` bytes -/
structure UnpackSafe (mem : ℕ → UInt8) (n : ℕ) : Prop where
  reads : ∀ i ∈ (MacUlSchPdu.unpack mem n).2.2.reads, i < n
  partition : (MacUlSchPdu.unpack mem n).1 = .ok () → Subpdus mem n 0 (MacUlSchPdu.unpack mem n).2.1 n
  failure : ∀ e, (MacUlSchPdu.unpack mem n).1 = .error e → (MacUlSchPdu.unpack mem n).2.1 = []
  bsr : (MacUlSchPdu.unpack mem n).1 = .ok () → ∀ subpdu ∈ (MacUlSchPdu.unpack mem n).2.1,
    ∀ res ∈ subpdu.decodeBsr mem, ∀ i ∈ res.2.reads, subpdu.payload.first ≤ i ∧ i < subpdu.payload.stop

theorem exists_at_of_mem {subpdus : List MacUlSchSubpdu} {stop : ℕ} (h : Subpdus mem n pos subpdus stop)
    (hmem : subpdu ∈ subpdus) : ∃ pos next, SubpduAt mem n pos subpdu next := by
  induction h with
  | nil => exact absurd hmem not_mem_nil
  | cons hr _ ih =>
    rcases mem_cons.1 hmem with rfl | hmem
    · exact ⟨_, _, hr⟩
    · exact ih hmem

/-- a short BSR has one byte -/
theorem SubpduAt.short_payload (h : SubpduAt mem n pos subpdu next)
    (hl : subpdu.lcid = LcidUlSch.shortBsr ∨ subpdu.lcid = LcidUlSch.shortTruncBsr) :
    subpdu.payload.stop = subpdu.payload.first + 1 := by
  rw [h.fields.1] at hl
  have hfacts : ∀ lcid : LcidUlSch, lcid = LcidUlSch.shortBsr ∨ lcid = LcidUlSch.shortTruncBsr →
      lcid.hasLengthField = false ∧ lcid ≠ LcidUlSch.padding ∧ lcid.sizeofCe = 1 := by decide
  obtain ⟨hlen, hpad, hsize⟩ := hfacts _ hl
  rw [h.payload, payloadLengthAt, if_neg (by rw [hlen]; exact Bool.false_ne_true), if_neg hpad, hsize]

/-- a BSR is decoded inside its payload, unless it is a long one without payload -/
theorem decodeBsr_within (h : SubpduAt mem n pos subpdu next)
    (hne : subpdu.lcid.isVarLenCe = true → subpdu.payload.first < subpdu.payload.stop) :
    ∀ res ∈ subpdu.decodeBsr mem, ∀ i ∈ res.2.reads, subpdu.payload.first ≤ i ∧ i < subpdu.payload.stop := by
  intro res hres i hi
  unfold MacUlSchSubpdu.decodeBsr at hres
  split_ifs at hres with hshort hlong htrunc
  · have hstop := h.short_payload hshort
    cases hres
    have hi' : i = subpdu.payload.first := mem_singleton.1 hi
    omega
  · cases hres
    exact decodeLbsr_within .longBsr (hne (by rw [hlong]; decide)) i hi
  · cases hres
    exact decodeLbsr_within .longTruncBsr (hne (by rw [htrunc]; decide)) i hi
  · cases hres

/-- decode_lbsr reads the bitmap of a long BSR that has no payload -/
theorem decodeBsr_reads_first (mem : ℕ → UInt8) (hvar : subpdu.lcid.isVarLenCe = true) :
    ∃ res ∈ subpdu.decodeBsr mem, subpdu.payload.first ∈ res.2.reads := by
  have hmono : ∀ (format : BsrFormat) (bitmap : ℕ) (lcgs : List ℕ) (r : ByteReader) (list : List LcgBsrReport),
      ∀ i ∈ r.reads, i ∈ (decodeLcgs mem format bitmap lcgs r list).2.reads := by
    intro format bitmap lcgs
    induction lcgs with
    | nil => exact fun r list i hi => hi
    | cons j lcgs ih =>
      intro r list i hi
      have hi' : i ∈ (r.next mem).2.reads := mem_append_left _ hi
      rw [decodeLcgs]
      split_ifs
      · dsimp only
        split_ifs
        · exact hi'
        · exact ih _ _ i hi'
      · exact ih _ _ i hi
      · exact hi
      · exact ih _ _ i hi
      · exact ih _ _ i hi
  have hfirst : ∀ format, subpdu.payload.first ∈ (decodeLbsr mem format subpdu.payload).2.reads := by
    intro format
    unfold decodeLbsr
    dsimp only
    split_ifs
    · exact mem_singleton.2 rfl
    · exact hmono _ _ _ _ _ _ (mem_singleton.2 rfl)
  have hlcid : ∀ lcid : LcidUlSch, lcid.isVarLenCe = true →
      ¬(lcid = LcidUlSch.shortBsr ∨ lcid = LcidUlSch.shortTruncBsr) ∧
        (lcid ≠ LcidUlSch.longBsr → lcid = LcidUlSch.longTruncBsr) := by decide
  obtain ⟨hshort, hlong⟩ := hlcid _ hvar
  unfold MacUlSchSubpdu.decodeBsr
  rw [if_neg hshort]
  by_cases hl : subpdu.lcid = LcidUlSch.longBsr
  · rw [if_pos hl]
    exact ⟨_, rfl, hfirst .longBsr⟩
  · rw [if_neg hl, if_pos (hlong hl)]
    exact ⟨_, rfl, hfirst .longTruncBsr⟩

/-- For every PDU: the parser reads inside it, returns subPDUs that fill it or fails with none, and the BSRs among them
are decoded inside their payloads, if and only if the PDU ends with its 4096th subPDU at the latest and has no Long BSR
of length 0. -/
theorem unpack_safe_iff (mem : ℕ → UInt8) (n : ℕ) :
    UnpackSafe mem n ↔ (∀ subpdus pos, Subpdus mem n 0 subpdus pos → subpdus.length = maxSubpdusPerPdu → pos = n) ∧
        ∀ subpdus, Subpdus mem n 0 subpdus n → ∀ subpdu ∈ subpdus, subpdu.lcid.isVarLenCe = true →
          subpdu.payload.first < subpdu.payload.stop := by
  have hdet : ∀ pos r r' next next', SubpduAt mem n pos r next → SubpduAt mem n pos r' next' →
      r = r' ∧ next = next' := fun _ _ _ _ _ h h' => h.det h'
  have h0 : (⟨0, n, []⟩ : ByteReader).Within 0 := ⟨zero_le n, fun i hi => absurd hi not_mem_nil⟩
  obtain ⟨hw, hstop, hok, herr⟩ := unpackFrom_spec mem maxSubpdusPerPdu h0 []
  constructor
  · intro hsafe
    -- in a safe run a cut of 4096 subPDUs continues the one that was returned, which fills the PDU
    have hret : ∀ subpdus pos, Subpdus mem n 0 subpdus pos → (subpdus.length = maxSubpdusPerPdu ∨ pos = n) →
        (MacUlSchPdu.unpack mem n).1 = .ok () := by
      intro subpdus pos hrec hend
      cases hres : (MacUlSchPdu.unpack mem n).1 with
      | ok u => rfl
      | error e =>
        obtain ⟨hlen, hpos⟩ := (herr e hres).2 subpdus pos hrec
        rcases hend with hl | hp
        · exact absurd hl hlen.ne
        · exact absurd hp hpos
    refine ⟨fun subpdus pos hrec hlen => ?_, fun subpdus hrec subpdu hmem hvar => ?_⟩
    · have hret' := hret subpdus pos hrec (Or.inl hlen)
      obtain ⟨subpdus', pos', -, heq, hlen', -⟩ := hok hret'
      have hfull := hsafe.partition hret'
      have hle : (MacUlSchPdu.unpack mem n).2.1.length ≤ subpdus.length := by
        rw [show (MacUlSchPdu.unpack mem n).2.1 = [] ++ subpdus' from heq, hlen]
        exact hlen'
      obtain ⟨tail, -, htail⟩ := Records.append_eq hdet hfull hrec hle
      cases htail with
      | nil => rfl
      | cons hr _ => exact absurd hr (SubpduAt.not_at_end _ _)
    · have hret' := hret subpdus n hrec (Or.inr rfl)
      have heq := Records.eq_of_stop hdet SubpduAt.not_at_end (hsafe.partition hret') hrec
      obtain ⟨res, hres, hread⟩ := decodeBsr_reads_first mem hvar
      exact (hsafe.bsr hret' subpdu (heq ▸ hmem) res hres _ hread).2
  · rintro ⟨hlimit, hbsr⟩
    have hfull : (MacUlSchPdu.unpack mem n).1 = .ok () → Subpdus mem n 0 (MacUlSchPdu.unpack mem n).2.1 n := by
      intro hret
      obtain ⟨subpdus, pos, hrec, heq, -, hend⟩ := hok hret
      have hpos : pos = n := hend.elim id fun hlen => hlimit subpdus pos hrec hlen
      rw [show (MacUlSchPdu.unpack mem n).2.1 = [] ++ subpdus from heq, ← hpos]
      exact hpos ▸ hrec
    refine ⟨fun i hi => ?_, hfull, fun e he => (herr e he).1, fun hret subpdu hmem => ?_⟩
    · have hr := (hw.reads i hi).2
      rw [hstop] at hr
      exact hr
    · obtain ⟨pos, next, hat⟩ := exists_at_of_mem (hfull hret) hmem
      exact decodeBsr_within hat (hbsr _ (hfull hret) subpdu hmem)

/-- the bytes of a list; zeros behind it -/
def bytesOf (bs : List UInt8) (i : ℕ) : UInt8 := bs.getD i 0

/-- A Long BSR of length 0 is accepted, and its decoder reads the byte behind the PDU. -/
theorem empty_long_bsr_read :
    MacUlSchPdu.unpack (bytesOf [0x3e, 0]) 2 = (.ok (), [⟨LcidUlSch.longBsr, 2, false, ⟨2, 2⟩⟩], ⟨2, 2, [0, 1]⟩) ∧
      (decodeLbsr (bytesOf [0x3e, 0]) .longBsr ⟨2, 2⟩).2.reads = [2] := by
  decide +kernel

end OcuduRan.Mac
