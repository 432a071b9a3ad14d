/-
What gtpu_dissect_pdu makes of any bytes.

- `tiles_iff_wholeChain`: of an accepted PDU the header length stays inside the PDU. Base header, optional fields and
  extension headers tile the header if and only if the chain of extension headers is whole.
- `WholeChain`: no length octet is zero and no extension header goes beyond the end of the PDU. The reader does not look
  at either: it takes an empty container and goes on with the octet behind the length.
-/
import OcuduRan.Gtpu.Pdu
import OcuduRan.Core.Records

namespace OcuduRan.Gtpu

open BitStream
open Support (BufferView BitDecoder)
open Support.BitDecoder (after)

/-! ## Extension headers at octet boundaries -/

section Octets

variable {buf : List UInt8} {i j : ℕ} {type : GtpuExtensionHeaderType}

/-- an octet, or zero at the end -/
theorem unpack_octet_or_end (h : i ≤ buf.length) :
    ∃ ok, (after buf (8 * i)).unpack 8 = ⟨ok, (buf.getD i 0).toNat, after buf (8 * min (i + 1) buf.length)⟩ := by
  rcases h.lt_or_eq with hlt | rfl
  · refine ⟨true, ?_⟩
    rw [BitDecoder.unpack_octet hlt, min_eq_left hlt]
  · refine ⟨false, ?_⟩
    rw [BitDecoder.unpack_end (by decide), min_eq_right (Nat.le_succ _), List.getD_eq_getElem?_getD,
    List.getElem?_eq_none le_rfl]
    rfl

theorem gtpuUnpackExtHeaderType_octet (h : i ≤ buf.length) :
    gtpuUnpackExtHeaderType (after buf (8 * i)) = (⟨buf.getD i 0⟩, after buf (8 * min (i + 1) buf.length)) := by
  obtain ⟨ok, hread⟩ := unpack_octet_or_end h
  unfold gtpuUnpackExtHeaderType
  rw [hread]
  simp only [UInt8.ofNat_toNat]

theorem gtpuReadExtHeader_of {d d₁ d₂ d₃ : BitDecoder} {ok : Bool} {length : UInt8} {v : BufferView}
    {next : GtpuExtensionHeaderType} (hlength : d.unpack 8 = ⟨ok, length.toNat, d₁⟩)
    (hview : d₁.unpackAlignedBytes (extPayload length) = (v, d₂)) (hnext : gtpuUnpackExtHeaderType d₂ = (next, d₃)) :
    gtpuReadExtHeader type d = (⟨type, v⟩, next, d₃) := by
  unfold gtpuReadExtHeader
  simp only [hlength, UInt8.ofNat_toNat, hview, hnext]

/-- an extension header with a length octet and all of its octets in the PDU -/
structure Whole (buf : List UInt8) (i : ℕ) : Prop where
  length_ne : buf.getD i 0 ≠ 0
  fits : i + 4 * (buf.getD i 0).toNat ≤ buf.length

theorem Whole.length_pos (h : Whole buf i) : 0 < (buf.getD i 0).toNat := by
  refine Nat.pos_of_ne_zero fun hz => h.length_ne ?_
  exact UInt8.toNat_inj.1 hz

theorem Whole.gtpuReadExtHeader_eq (h : Whole buf i) (type : GtpuExtensionHeaderType) :
    gtpuReadExtHeader type (after buf (8 * i)) =
      (⟨type, ⟨i + 1, (buf.drop (i + 1)).take (4 * (buf.getD i 0).toNat - 2)⟩⟩,
        ⟨buf.getD (i + 4 * (buf.getD i 0).toNat - 1) 0⟩, after buf (8 * (i + 4 * (buf.getD i 0).toNat))) := by
  have hpos := h.length_pos
  have hfits := h.fits
  have hpayload : extPayload (buf.getD i 0) = 4 * (buf.getD i 0).toNat - 2 := by
    have := UInt8.toNat_lt (buf.getD i 0)
    unfold extPayload
    omega
  have hlength := @BitDecoder.unpack_octet buf i (by omega)
  have hview := @BitDecoder.unpackAlignedBytes_octet buf (extPayload (buf.getD i 0)) (i + 1) (by omega) (by omega)
  have hnext := @gtpuUnpackExtHeaderType_octet buf (i + 1 + extPayload (buf.getD i 0)) (by omega)
  rw [gtpuReadExtHeader_of hlength hview hnext, hpayload,
    show i + 1 + (4 * (buf.getD i 0).toNat - 2) = i + 4 * (buf.getD i 0).toNat - 1 by omega,
    show min (i + 4 * (buf.getD i 0).toNat - 1 + 1) buf.length = i + 4 * (buf.getD i 0).toNat by omega]

/-- in any case the decoder stays in the PDU, at an octet boundary -/
theorem gtpuReadExtHeader_le (h : i ≤ buf.length) (type : GtpuExtensionHeaderType) :
    ∃ j, (gtpuReadExtHeader type (after buf (8 * i))).2.2 = after buf (8 * j) ∧ i ≤ j ∧ j ≤ buf.length := by
  obtain ⟨ok, hread⟩ := unpack_octet_or_end h
  have hmin : i ≤ min (i + 1) buf.length ∧ min (i + 1) buf.length ≤ buf.length := by omega
  generalize min (i + 1) buf.length = k at hread hmin
  have hview : ∀ n, ∃ v m, (after buf (8 * k)).unpackAlignedBytes n = (v, after buf (8 * m)) ∧ k ≤ m ∧ m ≤
    buf.length := by
    intro n
    by_cases hn : n = 0
    · refine ⟨.empty, k, ?_, le_rfl, hmin.2⟩
      rw [hn, BitDecoder.after_octet]
      rfl
    · by_cases hroom : k + n ≤ buf.length
      · exact ⟨_, k + n, BitDecoder.unpackAlignedBytes_octet hn hroom, by omega, hroom⟩
      · exact ⟨_, k, BitDecoder.unpackAlignedBytes_short hmin.2 (by omega), le_rfl, hmin.2⟩
  obtain ⟨v, m, hv, hkm, hm⟩ := hview (extPayload (buf.getD i 0))
  refine ⟨min (m + 1) buf.length, ?_, by omega, by omega⟩
  rw [gtpuReadExtHeader_of hread hv (gtpuUnpackExtHeaderType_octet hm)]

end Octets

/-! ## Any bytes -/

/-- the extension header `ext` at octet `pos`: four times its length octet, which is not zero -/
structure ExtAt (buf : List UInt8) (pos : ℕ) (ext : GtpuExtensionHeader) (next : ℕ) : Prop where
  length_ne : buf.getD pos 0 ≠ 0
  next_eq : next = pos + 4 * (buf.getD pos 0).toNat
  container : ext.container = ⟨pos + 1, (buf.drop (pos + 1)).take (4 * (buf.getD pos 0).toNat - 2)⟩

/-- the parts of the header fill its first `hdrLen` octets -/
structure Tiles (buf : List UInt8) (pdu : GtpuDissectedPdu) : Prop where
  inside : pdu.hdrLen ≤ buf.length
  base : pdu.hdr.flags.extHdr = false → pdu.hdr.flags.seqNumber = false → pdu.hdr.flags.nPdu = false →
    pdu.hdrLen = gtpuBaseHeaderLen
  optional : pdu.hdr.flags.extHdr = false → (pdu.hdr.flags.seqNumber = true ∨ pdu.hdr.flags.nPdu = true) →
    pdu.hdrLen = gtpuExtendedHeaderLen
  extensions : pdu.hdr.flags.extHdr = true →
    Records (ExtAt buf) gtpuExtendedHeaderLen pdu.hdr.extList.toList pdu.hdrLen
  no_extensions : pdu.hdr.flags.extHdr = false → pdu.hdr.extList.toList = []

/-- from octet `i` on every extension header is whole, up to the one without a next -/
inductive WholeChain (buf : List UInt8) : ℕ → Prop
  | last {i : ℕ} (h : Whole buf i) (hlast : buf.getD (i + 4 * (buf.getD i 0).toNat - 1) 0 = 0) : WholeChain buf i
  | next {i : ℕ} (h : Whole buf i) (hmore : buf.getD (i + 4 * (buf.getD i 0).toNat - 1) 0 ≠ 0)
    (hnext : WholeChain buf (i + 4 * (buf.getD i 0).toNat)) : WholeChain buf i

section Hostile

variable {buf : List UInt8} {i fuel : ℕ} {type : GtpuExtensionHeaderType} {l l' : ExtList} {d' : BitDecoder}
  {exts : List GtpuExtensionHeader} {ext : GtpuExtensionHeader} {d : BitDecoder} {pdu : GtpuDissectedPdu}

theorem WholeChain.whole (h : WholeChain buf i) : Whole buf i := by
  cases h with
  | last h _ => exact h
  | next h _ _ => exact h

theorem le_stop_of_records {pos stop : ℕ} (h : Records (ExtAt buf) pos exts stop) : pos ≤ stop := by
  induction h with
  | nil pos => exact le_rfl
  | cons hr _ ih =>
    have := hr.next_eq
    omega

/-- a record is whole -/
theorem ExtAt.whole {next stop : ℕ} (h : ExtAt buf i ext next)
    (hrest : Records (ExtAt buf) next exts stop) (hstop : stop ≤ buf.length) : Whole buf i := by
  refine ⟨h.length_ne, ?_⟩
  rw [← h.next_eq]
  exact (le_stop_of_records hrest).trans hstop

theorem ExtList.pushBack_eq (h : l.pushBack ext = some l') : l'.toList = l.toList ++ [ext] := by
  unfold ExtList.pushBack at h
  split_ifs at h with hlt
  cases h
  rfl

/-- one turn of the loop that goes well -/
theorem gtpuReadExtLoop_succ (h : gtpuReadExtLoop (fuel + 1) l type d = some (l', d')) :
    gtpuExtensionHeaderComprehensionCheck type = true ∧ ∃ l₁, l.pushBack (gtpuReadExtHeader type d).1 = some l₁ ∧
      ((gtpuReadExtHeader type d).2.1 = .noMoreExtensionHeaders ∧ l' = l₁ ∧ d' = (gtpuReadExtHeader type d).2.2 ∨
        (gtpuReadExtHeader type d).2.1 ≠ .noMoreExtensionHeaders ∧
          gtpuReadExtLoop fuel l₁ (gtpuReadExtHeader type d).2.1 (gtpuReadExtHeader type d).2.2 = some (l', d')) := by
  unfold gtpuReadExtLoop at h
  split_ifs at h with hcheck
  cases hpush : l.pushBack (gtpuReadExtHeader type d).1 with
  | none => simp [hpush] at h
  | some l₁ =>
    simp only [hpush] at h
    refine ⟨by simpa using hcheck, l₁, rfl, ?_⟩
    split_ifs at h with hnext
    · exact .inr ⟨hnext, h⟩
    · obtain ⟨rfl, rfl⟩ := Prod.mk.inj (Option.some.inj h)
      exact .inl ⟨not_not.1 hnext, rfl, rfl⟩

/-- what the loop adds, and where it stops: the records tile exactly when the chain is whole -/
theorem gtpuReadExtLoop_spec (hi : i ≤ buf.length)
    (h : gtpuReadExtLoop fuel l type (after buf (8 * i)) = some (l', d')) :
    ∃ exts j, l'.toList = l.toList ++ exts ∧ d' = after buf (8 * j) ∧ j ≤ buf.length ∧
      (Records (ExtAt buf) i exts j ↔ WholeChain buf i) := by
  induction fuel generalizing l type i with
  | zero => cases h
  | succ fuel ih =>
    obtain ⟨-, l₁, hpush, hturn⟩ := gtpuReadExtLoop_succ h
    have hl₁ := ExtList.pushBack_eq hpush
    by_cases hwhole : Whole buf i
    · rw [hwhole.gtpuReadExtHeader_eq] at hturn hl₁
      have hat : ExtAt buf i ⟨type, ⟨i + 1, (buf.drop (i + 1)).take (4 * (buf.getD i 0).toNat - 2)⟩⟩
          (i + 4 * (buf.getD i 0).toNat) := ⟨hwhole.length_ne, rfl, rfl⟩
      obtain ⟨hend, rfl, rfl⟩ | ⟨hmore, hloop⟩ := hturn
      · refine ⟨_, _, hl₁, rfl, hwhole.fits, ?_⟩
        refine iff_of_true (.cons hat (.nil _)) (.last hwhole ?_)
        exact congrArg GtpuExtensionHeaderType.code hend
      · have hne : buf.getD (i + 4 * (buf.getD i 0).toNat - 1) 0 ≠ 0 := fun hz =>
          hmore (congrArg GtpuExtensionHeaderType.mk hz)
        obtain ⟨exts, j, hl', hd', hj, hiff⟩ := ih hwhole.fits hloop
        refine ⟨⟨type, ⟨i + 1, (buf.drop (i + 1)).take (4 * (buf.getD i 0).toNat - 2)⟩⟩ :: exts, j, ?_, hd', hj, ?_⟩
        · rw [hl', hl₁, List.append_assoc]
          rfl
        · constructor
          · intro hrec
            cases hrec with
            | cons hr hrs =>
              rw [hr.next_eq] at hrs
              exact .next hwhole hne (hiff.1 hrs)
          · intro hchain
            cases hchain with
            | last _ hlast => exact absurd hlast hne
            | next _ _ hnext => exact .cons hat (hiff.2 hnext)
    · -- neither side starts with a header that is not whole
      obtain ⟨k, hk, hik, hkle⟩ := gtpuReadExtHeader_le hi type
      generalize gtpuReadExtHeader type (after buf (8 * i)) = res at *
      have hno : ∀ (ext : GtpuExtensionHeader) (exts : List GtpuExtensionHeader) (j : ℕ), j ≤ buf.length →
          (Records (ExtAt buf) i (ext :: exts) j ↔ WholeChain buf i) := by
        intro ext exts j hj
        refine iff_of_false (fun hrec => ?_) fun hchain => hwhole hchain.whole
        cases hrec with
        | cons hr hrs => exact hwhole (hr.whole hrs hj)
      obtain ⟨-, rfl, rfl⟩ | ⟨-, hloop⟩ := hturn
      · exact ⟨_, k, hl₁, hk, hkle, hno _ _ _ hkle⟩
      · rw [hk] at hloop
        obtain ⟨exts, j, hl', hd', hj, -⟩ := ih hkle hloop
        refine ⟨res.1 :: exts, j, ?_, hd', hj, hno _ _ _ hj⟩
        rw [hl', hl₁, List.append_assoc]
        rfl

/-! ### The whole PDU -/

/-- the E flag of the first octet -/
def eFlag (buf : List UInt8) : Bool := (buf.getD 0 0).toNat.testBit 2

theorem gtpuUnpackFlags_spec (h : gtpuBaseHeaderLen ≤ buf.length) :
    (gtpuUnpackFlags (.ofBuffer buf)).1.extHdr = eFlag buf ∧ (gtpuUnpackFlags (.ofBuffer buf)).2 = after buf 8 := by
  have hlen : 8 ≤ buf.length := h
  have hstart : BitDecoder.ofBuffer buf = after buf 0 := rfl
  unfold gtpuUnpackFlags
  simp only [hstart]
  repeat rw [BitDecoder.unpack_next (by decide) (by omega)]
  refine ⟨?_, rfl⟩
  rw [BitDecoder.unpack_after (by decide) (by omega)]
  cases buf with
  | nil => simp at hlen
  | cons b rest =>
    show decide (ofBits [b.toNat.testBit 2] ≠ 0) = b.toNat.testBit 2
    cases b.toNat.testBit 2 <;> rfl

theorem gtpuUnpackBase_next (flags : GtpuFlags) (h : gtpuBaseHeaderLen ≤ buf.length) :
    (gtpuUnpackBase flags (after buf 8)).2 = after buf 64 := by
  have hlen : 8 ≤ buf.length := h
  unfold gtpuUnpackBase
  simp only
  repeat rw [BitDecoder.unpack_next (by decide) (by omega)]

/-- which parts of the header are there -/
def HasOptional (flags : GtpuFlags) : Prop := flags.extHdr ∨ flags.seqNumber ∨ flags.nPdu

theorem gtpuUnpackOptional_spec {hdr hdr' : GtpuHeader}
    (h : gtpuUnpackOptional buf hdr (after buf 64) = some (hdr', d)) :
    hdr'.flags = hdr.flags ∧ hdr'.extList = hdr.extList ∧
      (HasOptional hdr.flags ∧ gtpuExtendedHeaderLen ≤ buf.length ∧ d = after buf (8 * gtpuExtendedHeaderLen) ∨
        ¬HasOptional hdr.flags ∧ d = after buf (8 * gtpuBaseHeaderLen)) := by
  unfold gtpuUnpackOptional at h
  dsimp only at h
  split_ifs at h with hopt hshort hcheck
  · have hlen : 12 ≤ buf.length := not_lt.1 hshort
    obtain ⟨rfl, rfl⟩ := Prod.mk.inj (Option.some.inj h)
    refine ⟨rfl, rfl, .inl ⟨hopt, hlen, ?_⟩⟩
    rw [BitDecoder.unpack_next (by decide) (by omega), BitDecoder.unpack_next (by decide) (by omega)]
    exact BitDecoder.unpack_next (by decide) (by omega)
  · obtain ⟨rfl, rfl⟩ := Prod.mk.inj (Option.some.inj h)
    exact ⟨rfl, rfl, .inr ⟨hopt, rfl⟩⟩

/-- how an accepted PDU was taken apart -/
theorem gtpuDissectPdu_inv (h : gtpuDissectPdu buf = some pdu) :
    ∃ hdr hdr' d d', gtpuBaseHeaderLen ≤ buf.length ∧ hdr.flags.extHdr = eFlag buf ∧ hdr.extList = .empty ∧
      gtpuUnpackOptional buf hdr (after buf 64) = some (hdr', d) ∧ gtpuUnpackExtensions hdr' d = some (pdu.hdr, d') ∧
        pdu.hdrLen = d'.nofBytes := by
  unfold gtpuDissectPdu at h
  dsimp only at h
  split_ifs at h with hshort hflags hlength
  have hlen := not_lt.1 hshort
  obtain ⟨hflag, hnext⟩ := gtpuUnpackFlags_spec hlen
  rw [hnext, gtpuUnpackBase_next _ hlen] at h
  refine ⟨(gtpuUnpackBase (gtpuUnpackFlags (.ofBuffer buf)).1 (after buf 8)).1, ?_⟩
  generalize hb : (gtpuUnpackBase (gtpuUnpackFlags (.ofBuffer buf)).1 (after buf 8)).1 = base at h
  have hbase : base.flags.extHdr = eFlag buf ∧ base.extList = .empty := by
    rw [← hb]
    exact ⟨hflag, rfl⟩
  cases hopt : gtpuUnpackOptional buf base (after buf 64) with
  | none => simp [hopt] at h
  | some res =>
    obtain ⟨hdr', d⟩ := res
    simp only [hopt] at h
    cases hext : gtpuUnpackExtensions hdr' d with
    | none => simp [hext] at h
    | some res =>
      obtain ⟨hdr'', d'⟩ := res
      simp only [hext, Option.some.injEq] at h
      subst h
      exact ⟨hdr', d, d', hlen, hbase.1, hbase.2, rfl, hext, rfl⟩

theorem tiles_iff_wholeChain (h : gtpuDissectPdu buf = some pdu) : pdu.hdrLen ≤ buf.length ∧
      (Tiles buf pdu ↔ (eFlag buf = true → WholeChain buf gtpuExtendedHeaderLen)) := by
  obtain ⟨hdr, hdr', d, d', hbase, hflag, hempty, hopt, hext, hhdrLen⟩ := gtpuDissectPdu_inv h
  obtain ⟨hflags, hlist, hpart⟩ := gtpuUnpackOptional_spec hopt
  rw [← hflag, ← hflags]
  unfold gtpuUnpackExtensions at hext
  split_ifs at hext with hE hnone
  · -- a chain of extension headers
    cases hloop : gtpuReadExtLoop (gtpuMaxNumHeaderExtensions + 1) hdr'.extList hdr'.nextExtHdrType d with
    | none => simp [hloop] at hext
    | some res =>
      obtain ⟨l, dEnd⟩ := res
      simp only [hloop, Option.some.injEq, Prod.mk.injEq] at hext
      obtain ⟨hpdu, rfl⟩ := hext
      obtain ⟨-, hroom, rfl⟩ | ⟨hno, -⟩ := hpart
      · obtain ⟨exts, j, hl, rfl, hj, hiff⟩ := gtpuReadExtLoop_spec hroom hloop
        have hexts : pdu.hdr.extList.toList = exts := by
          rw [← hpdu]
          show l.toList = exts
          rw [hl, hlist, hempty]
          rfl
        have hflag : pdu.hdr.flags.extHdr = true := by
          rw [← hpdu]
          exact hE
        rw [BitDecoder.nofBytes_octet] at hhdrLen
        rw [← hhdrLen] at hj hiff
        refine ⟨hj, ?_⟩
        constructor
        · intro htiles _
          have hrec := htiles.extensions hflag
          rw [hexts] at hrec
          exact hiff.1 hrec
        · intro hchain
          refine ⟨hj, ?_, ?_, ?_, ?_⟩
          · intro hfalse
            exact absurd (hflag.symm.trans hfalse) (by decide)
          · intro hfalse
            exact absurd (hflag.symm.trans hfalse) (by decide)
          · intro _
            rw [hexts]
            exact hiff.2 (hchain hE)
          · intro hfalse
            exact absurd (hflag.symm.trans hfalse) (by decide)
      · rw [hflags] at hE
        exact absurd (.inl hE) hno
  · -- no extension headers
    obtain ⟨hpdu, rfl⟩ := Prod.mk.inj (Option.some.inj hext)
    have hflag : pdu.hdr.flags.extHdr = false := by
      rw [← hpdu]
      exact Bool.eq_false_iff.2 hE
    have hexts : pdu.hdr.extList.toList = [] := by
      rw [← hpdu, hlist, hempty]
      rfl
    have hopt' : HasOptional hdr.flags ↔ (pdu.hdr.flags.seqNumber = true ∨ pdu.hdr.flags.nPdu = true) := by
      rw [← hpdu] at hflag ⊢
      unfold HasOptional
      rw [← hflags, hflag]
      simp
    have hle : pdu.hdrLen ≤ buf.length ∧ (HasOptional hdr.flags → pdu.hdrLen = gtpuExtendedHeaderLen) ∧
        (¬HasOptional hdr.flags → pdu.hdrLen = gtpuBaseHeaderLen) := by
      obtain ⟨hyes, hroom, rfl⟩ | ⟨hno, rfl⟩ := hpart
      · rw [BitDecoder.nofBytes_octet] at hhdrLen
        rw [hhdrLen]
        exact ⟨hroom, fun _ => rfl, fun hno => absurd hyes hno⟩
      · rw [BitDecoder.nofBytes_octet] at hhdrLen
        rw [hhdrLen]
        exact ⟨hbase, fun hyes => absurd hyes hno, fun _ => rfl⟩
    refine ⟨hle.1, iff_of_true ?_ fun htrue => absurd htrue hE⟩
    refine ⟨hle.1, ?_, ?_, ?_, fun _ => hexts⟩
    · intro _ hseq hnpdu
      refine hle.2.2 fun hyes => ?_
      rw [hopt', hseq, hnpdu] at hyes
      simp at hyes
    · intro _ hyes
      exact hle.2.1 (hopt'.2 hyes)
    · intro htrue
      exact absurd (hflag.symm.trans htrue) (by decide)

end Hostile

end OcuduRan.Gtpu
