/-
The byte format of the data PDU header: what a read header can be, and that a written header is read back with the
payload behind it. The writer puts the segment offset behind the SN whenever it is not 0, the reader expects it for
middle and last segments; `RlcAmPduHeader.Writable` is where the two agree.
-/
import OcuduRan.Core.Bits
import OcuduRan.Rlc.AmPdu

namespace OcuduRan.Rlc

open Bits List Nat

/-- what the field widths and the reader's rule for the offset guarantee of a header -/
structure RlcAmPduHeader.Fits (h : RlcAmPduHeader) : Prop where
  sn : h.sn < h.snSize.mod
  so : h.so < 2 ^ 16
  noSo : h.si.hasSo = false → h.so = 0

/-- a header whose written form carries an offset exactly where the reader expects one -/
structure RlcAmPduHeader.Writable (h : RlcAmPduHeader) : Prop extends h.Fits where
  dc : h.dc = .data
  hasSo : h.si.hasSo = true → h.so ≠ 0

/-! ## Reading -/

variable {n : RlcAmSnSize} {pdu rest : Bytes} {h : RlcAmPduHeader} {upper : ℕ}

theorem readFixedHeader_fits (hread : readFixedHeader n pdu = some (h, rest)) :
    h.snSize = n ∧ h.sn < n.mod ∧ h.so = 0 ∧ rest = pdu.drop (rlcAmPduHeaderMinSize n) := by
  unfold readFixedHeader at hread
  split at hread
  · next b0 b1 r =>
    cases hread
    refine ⟨rfl, ?_, rfl, rfl⟩
    simp only [fixedHeader, and_0x0f, and_0xff, mod_size12bits]
    rw [shl_or _ (by omega)]
    omega
  · next b0 b1 b2 r =>
    split_ifs at hread
    cases hread
    refine ⟨rfl, ?_, rfl, rfl⟩
    simp only [fixedHeader, and_0x03, and_0xff, mod_size18bits]
    rw [Nat.or_assoc, shl_or _ (by omega : b2.toNat % 256 < 2 ^ 8), shl_or _ (by omega)]
    omega
  · cases hread

theorem readDataPduHeader_fits (hread : rlcAmReadDataPduHeader n pdu = some (h, rest)) :
    h.Fits ∧ h.snSize = n ∧ rest = pdu.drop h.getPackedSize := by
  unfold rlcAmReadDataPduHeader at hread
  split_ifs at hread with hlen
  split at hread
  · cases hread
  · next h0 r hfix =>
    obtain ⟨hn, hsn, hso, hr⟩ := readFixedHeader_fits hfix
    unfold readHeaderSo at hread
    split_ifs at hread with hsi
    · split at hread
      · next s0 s1 r' hr' =>
        cases hread
        refine ⟨⟨?_, ?_, ?_⟩, hn, ?_⟩
        · rw [hn]
          exact hsn
        · simp only [and_0xff]
          rw [shl_or _ (by omega)]
          omega
        · intro hno
          rw [show h0.si.hasSo = false from hno] at hsi
          cases hsi
        · rw [RlcAmPduHeader.getPackedSize, if_pos hsi, rlcAmPduHeaderMaxSize, rlcAmPduHeaderSoSize, hn,
            ← drop_drop, ← hr]
          rfl
      · cases hread
    · cases hread
      refine ⟨⟨hn ▸ hsn, by rw [hso]; norm_num, fun _ => hso⟩, hn, ?_⟩
      rw [RlcAmPduHeader.getPackedSize, if_neg hsi, hn, hr]

/-- D/C of a read header is the first bit of the PDU -/
theorem readDataPduHeader_dc {b : UInt8} (hread : rlcAmReadDataPduHeader n (b :: pdu) = some (h, rest)) :
    h.dc = if (b.toNat >>> 7) &&& 0x01 = 0 then .control else .data := by
  have hfixed : ∀ h0 r, readFixedHeader n (b :: pdu) = some (h0, r) →
      h0.dc = if (b.toNat >>> 7) &&& 0x01 = 0 then .control else .data := by
    intro h0 r hfix
    unfold readFixedHeader at hfix
    split at hfix
    · cases hfix
      simp_all [fixedHeader]
    · split_ifs at hfix
      cases hfix
      simp_all [fixedHeader]
    · cases hfix
  unfold rlcAmReadDataPduHeader at hread
  split_ifs at hread
  split at hread
  · cases hread
  · next h0 r hfix =>
    unfold readHeaderSo at hread
    split_ifs at hread
    · split at hread
      · cases hread
        exact hfixed h0 _ hfix
      · cases hread
    · cases hread
      exact hfixed _ _ hfix

/-! ## Round trip -/

/-- the reserved bits of an 18-bit header -/
theorem and_0x0c (x : ℕ) : x &&& 0x0c = x / 4 % 4 * 4 := by
  have hhigh : (x &&& 0x0c) >>> 2 = x / 4 % 4 := and_shr x 2 2
  have hlow : (x &&& 0x0c) % 2 ^ 2 = 0 := by rw [and_mod_two_pow]; simp
  rw [shiftRight_eq_div_pow] at hhigh
  omega

/-- the flags of the first header byte and the SN bits below them -/
theorem headerByte_eq (h : RlcAmPduHeader) (hu : upper < 16) :
    headerByte h upper = h.dc.toNumber * 128 + h.p.toNat * 64 + h.si.toNumber * 16 + upper := by
  have hflags : (h.dc.toNumber &&& 0x01) <<< 7 ||| (h.p.toNat &&& 0x01) <<< 6 ||| (h.si.toNumber &&& 0x03) <<< 4 =
      (h.dc.toNumber * 8 + h.p.toNat * 4 + h.si.toNumber) <<< 4 := by
    cases h.dc <;> cases h.p <;> cases h.si <;> rfl
  rw [headerByte, hflags, shl_or _ hu]
  omega

theorem fixedHeader_headerByte (h : RlcAmPduHeader) (hn : h.snSize = n)
    (hu : upper < 16) : fixedHeader n (headerByte h upper % 256) h.sn = { h with so := 0 } := by
  have hdc : h.dc.toNumber ≤ 1 := by cases h.dc <;> decide
  have hp : h.p.toNat ≤ 1 := by cases h.p <;> decide
  have hsi : h.si.toNumber ≤ 3 := by cases h.si <;> decide
  have h1 : (headerByte h upper % 256) >>> 7 &&& 0x01 = h.dc.toNumber := by
    rw [headerByte_eq h hu, shiftRight_eq_div_pow, and_one_is_mod]
    omega
  have h2 : (headerByte h upper % 256) >>> 6 &&& 0x01 = h.p.toNat := by
    rw [headerByte_eq h hu, shiftRight_eq_div_pow, and_one_is_mod]
    omega
  have h3 : (headerByte h upper % 256) >>> 4 &&& 0x03 = h.si.toNumber := by
    rw [headerByte_eq h hu, shiftRight_eq_div_pow, and_0x03]
    omega
  rw [fixedHeader, h1, h2, h3, ← hn]
  obtain ⟨dc, p, si, snSize, sn, so⟩ := h
  cases dc <;> cases p <;> cases si <;> rfl

/-- the fixed part of a written header is read back -/
theorem readFixedHeader_write (hfit : h.Fits) (rest : Bytes) :
    readFixedHeader h.snSize (rlcAmWriteDataPduHeader h ++ rest) =
      some ({ h with so := 0 },
        (if h.so ≠ 0 then [UInt8.ofNat (h.so >>> 8), UInt8.ofNat (h.so &&& 0xff)] else []) ++ rest) := by
  have hsn := hfit.sn
  unfold rlcAmWriteDataPduHeader
  cases hn : h.snSize with
  | size12bits =>
    rw [hn, mod_size12bits] at hsn
    have hb : headerByte h (h.sn >>> 8 % 16) % 256 % 16 = h.sn / 256 := by
      rw [headerByte_eq h (by omega), shiftRight_eq_div_pow]
      omega
    have hs : (h.sn / 256) <<< 8 ||| h.sn % 256 % 256 % 256 = h.sn := by
      rw [shl_or _ (by omega)]
      omega
    simp only [cons_append, nil_append, readFixedHeader, UInt8.toNat_ofNat', and_0x0f, and_0xff]
    rw [show (2 : ℕ) ^ 8 = 256 from rfl, hb, hs, fixedHeader_headerByte h hn (by omega), hn]
  | size18bits =>
    rw [hn, mod_size18bits] at hsn
    have hb : headerByte h (h.sn >>> 16 % 4) % 256 % 16 = h.sn / 65536 := by
      rw [headerByte_eq h (by omega), shiftRight_eq_div_pow]
      omega
    have hreserved : headerByte h (h.sn >>> 16 % 4) % 256 &&& 0x0c = 0 := by
      rw [and_0x0c]
      omega
    have hs : (headerByte h (h.sn >>> 16 % 4) % 256 % 4) <<< 16 ||| (h.sn >>> 8 % 256 % 256) <<< 8 |||
        h.sn % 256 % 256 % 256 = h.sn := by
      rw [Nat.or_assoc, shl_or _ (by omega : h.sn % 256 % 256 % 256 < 2 ^ 8), shl_or _ (by omega)]
      omega
    simp only [cons_append, nil_append, readFixedHeader, UInt8.toNat_ofNat', and_0x03, and_0xff]
    rw [show (2 : ℕ) ^ 8 = 256 from rfl, hreserved, hs, fixedHeader_headerByte h hn (by omega), hn]
    rfl

/-- a written header is read back, with the payload behind it -/
theorem readDataPduHeader_write (hw : h.Writable) {payload : Bytes} (hp : payload ≠ []) :
    rlcAmReadDataPduHeader h.snSize (rlcAmWriteDataPduHeader h ++ payload) = some (h, payload) := by
  have hlen : ¬ (rlcAmWriteDataPduHeader h ++ payload).length ≤ rlcAmPduHeaderMinSize h.snSize := by
    have := length_pos_iff.2 hp
    unfold rlcAmWriteDataPduHeader rlcAmPduHeaderMinSize
    cases h.snSize <;> simp only [length_append, length_cons, length_nil] <;> omega
  rw [rlcAmReadDataPduHeader, if_neg hlen, readFixedHeader_write hw.toFits]
  dsimp only
  unfold readHeaderSo
  cases hsi : h.si.hasSo with
  | true =>
    have hso := hw.so
    rw [if_pos rfl, if_pos (hw.hasSo hsi)]
    simp only [cons_append, nil_append, UInt8.toNat_ofNat', and_0xff]
    rw [show (2 : ℕ) ^ 8 = 256 from rfl, mod_mod, mod_mod, mod_mod, two_bytes hso]
  | false =>
    have hso := hw.noSo hsi
    rw [if_neg Bool.false_ne_true, if_neg (not_not_intro hso), nil_append, ← hso]

/-! ## Data PDUs of an SDU -/

/-- the PDU carries a piece of the SDU -/
structure PduOf (sdu : Bytes) (hdr : RlcAmPduHeader) (payload : Bytes) : Prop where
  bytes : payload = (sdu.drop hdr.so).take payload.length
  le : hdr.so + payload.length ≤ sdu.length
  last : (hdr.si = .fullSdu ∨ hdr.si = .lastSegment) ↔ hdr.so + payload.length = sdu.length

instance (sdu : Bytes) (hdr : RlcAmPduHeader) (payload : Bytes) : Decidable (PduOf sdu hdr payload) :=
  decidable_of_iff
    (payload = (sdu.drop hdr.so).take payload.length ∧ hdr.so + payload.length ≤ sdu.length ∧
      ((hdr.si = .fullSdu ∨ hdr.si = .lastSegment) ↔ hdr.so + payload.length = sdu.length))
    ⟨fun h => ⟨h.1, h.2.1, h.2.2⟩, fun h => ⟨h.bytes, h.le, h.last⟩⟩

/-- the bytes are a data PDU of index `i` with the bytes [so, so + len) of the SDU -/
structure DataPdu (n : RlcAmSnSize) (i : ℕ) (sdu : Bytes) (so len : ℕ) (pdu : Bytes) : Prop where
  pos : 0 < len
  read : ∃ hdr payload, rlcAmReadDataPduHeader n pdu = some (hdr, payload) ∧ hdr.dc = .data ∧ hdr.Fits ∧
    hdr.sn = i % n.mod ∧ hdr.so = so ∧ payload.length = len ∧ PduOf sdu hdr payload

end OcuduRan.Rlc
