/-
RLC UM data PDUs (lib/rlc/rlc_um_pdu.h) and the part of the receiver that takes the header off a PDU
(rlc_rx_um_entity::handle_pdu, lib/rlc/rlc_rx_um_entity.cpp).

  header   segmentation info SI, a 6- or 12-bit SN unless the PDU is a complete SDU, and a 16-bit segment offset SO for
           middle and last segments.
  write    puts SO behind the SN whenever its value is not 0.
  read     expects SO for middle and last segments, whatever its value.
  length   `rlcUmNrPackedLength` counts the SO bytes whenever the value of SO is not 0, and `stripHeader` takes that
           many bytes off the PDU.

Results:
- `readDataPduHeader_parsed`: what an accepted byte string can be read as, and how many of its bytes are header;
- `packedLength_iff`: the receiver strips the bytes that were read as header exactly if SO is not 0 on a middle or last
  segment;
- `read_write_iff`: a written header is read back exactly if that holds of it, and a complete SDU has SN 0 in it.
-/
import OcuduRan.Core.Bits
import OcuduRan.Rlc.AmPdu

namespace OcuduRan.Rlc

open Bits List RlcSiField Nat

/-! ## Model -/

inductive RlcUmSnSize where
  | size6bits
  | size12bits
deriving DecidableEq, Repr

def RlcUmSnSize.toNumber : RlcUmSnSize → ℕ
  | .size6bits => 6
  | .size12bits => 12

def RlcUmSnSize.mod (n : RlcUmSnSize) : ℕ := cardinality n.toNumber

structure RlcUmPduHeader where
  si : RlcSiField
  snSize : RlcUmSnSize
  sn : ℕ
  so : ℕ
deriving DecidableEq, Repr

/-- SI and SN, with the bytes behind them; SO stays as it was set before, at 0 -/
def rlcUmReadFixedPart : RlcUmSnSize → Bytes → Option (RlcUmPduHeader × Bytes)
  | _, [] => none
  | .size6bits, b0 :: r =>
    let si := ofNumber ((b0.toNat >>> 6) &&& 0x03)
    let sn := b0.toNat &&& 0x3f
    if si = .fullSdu ∧ sn ≠ 0 then none else some (⟨si, .size6bits, sn, 0⟩, r)
  | .size12bits, b0 :: r =>
    let si := ofNumber ((b0.toNat >>> 6) &&& 0x03)
    let sn := (b0.toNat &&& 0x0f) <<< 8
    if si = .fullSdu ∧ sn ≠ 0 then none
    else if si = .firstSegment ∧ (b0.toNat >>> 4) &&& 0x03 ≠ 0 then none
    else if si ≠ .fullSdu then
      match r with
      | [] => none
      | b1 :: r => some (⟨si, .size12bits, sn ||| (b1.toNat &&& 0xff), 0⟩, r)
    else some (⟨si, .size12bits, sn, 0⟩, r)

/-- the segment offset of a middle or last segment -/
def rlcUmReadSo (header : RlcUmPduHeader) (r : Bytes) : Option (RlcUmPduHeader × Bytes) :=
  if header.si.hasSo then
    match r with
    | s0 :: s1 :: r => some ({ header with so := (s0.toNat &&& 0xff) <<< 8 ||| (s1.toNat &&& 0xff) }, r)
    | _ => none
  else some (header, r)

/-- header fields read from the PDU, with the bytes behind the header -/
def rlcUmReadDataPduHeader (snSize : RlcUmSnSize) (pdu : Bytes) : Option (RlcUmPduHeader × Bytes) :=
  match rlcUmReadFixedPart snSize pdu with
  | none => none
  | some (header, r) => rlcUmReadSo header r

def rlcUmNrPackedLength (header : RlcUmPduHeader) : ℕ :=
  if header.si = .fullSdu then 1
  else
    (match header.snSize with
      | .size6bits => 1
      | .size12bits => 2)
    + if header.so ≠ 0 then 2 else 0

def rlcUmWriteDataPduHeader (header : RlcUmPduHeader) : Bytes :=
  let b0 := (header.si.toNumber &&& 0x03) <<< 6
  if header.si = .fullSdu then [UInt8.ofNat b0]
  else
    (match header.snSize with
      | .size6bits => [UInt8.ofNat (b0 ||| (header.sn &&& 0x3f))]
      | .size12bits => [UInt8.ofNat (b0 ||| ((header.sn >>> 8) &&& 0x0f)), UInt8.ofNat (header.sn &&& 0xff)])
    ++ if header.so ≠ 0 then [UInt8.ofNat (header.so >>> 8), UInt8.ofNat (header.so &&& 0xff)] else []

/-- the header and payload `handle_pdu` goes on with: it strips the packed length of the header it has read -/
def stripHeader (snSize : RlcUmSnSize) (buf : Bytes) : Option (RlcUmPduHeader × Bytes) :=
  match rlcUmReadDataPduHeader snSize buf with
  | none => none
  | some (header, _) =>
    let headerLen := rlcUmNrPackedLength header
    if buf.length ≤ headerLen then none else some (header, buf.drop headerLen)

/-! ## Reading -/

/-- what the field widths and the reader's rule for the offset guarantee of a header -/
structure RlcUmPduHeader.Fits (h : RlcUmPduHeader) : Prop where
  sn : h.sn < h.snSize.mod
  so : h.so < 2 ^ 16
  noSo : h.si.hasSo = false → h.so = 0

/-- a middle or last segment does not start at offset 0 -/
def RlcUmPduHeader.SoSet (h : RlcUmPduHeader) : Prop := h.si.hasSo = true → h.so ≠ 0

instance (h : RlcUmPduHeader) : Decidable h.SoSet := inferInstanceAs (Decidable (_ → _))

/-- the length of SI and SN -/
def fixedLength (h : RlcUmPduHeader) : ℕ :=
  if h.si = .fullSdu then 1
  else match h.snSize with
    | .size6bits => 1
    | .size12bits => 2

/-- the number of bytes the reader takes for a header: SO by segmentation info -/
def parsedLength (h : RlcUmPduHeader) : ℕ := fixedLength h + if h.si.hasSo then 2 else 0

@[simp] theorem hasSo_fullSdu : fullSdu.hasSo = false := rfl

variable {n : RlcUmSnSize} {pdu rest : Bytes} {h : RlcUmPduHeader} {x : ℕ}

theorem readFixedPart_spec (hread : rlcUmReadFixedPart n pdu = some (h, rest)) :
    h.snSize = n ∧ h.sn < n.mod ∧ h.so = 0 ∧ rest = pdu.drop (fixedLength h) ∧ fixedLength h + rest.length =
    pdu.length := by
  have hand : ∀ x : ℕ, x &&& 0x3f = x % 64 := fun x => and_mask x 6
  unfold rlcUmReadFixedPart at hread
  split at hread
  · cases hread
  · next b0 r =>
    simp only [hand] at hread
    split_ifs at hread with hbad
    cases hread
    have hlt : b0.toNat % 64 < RlcUmSnSize.size6bits.mod := mod_lt _ (by decide)
    refine ⟨rfl, hlt, rfl, ?_⟩
    simp [fixedLength, add_comm]
  · next b0 r =>
    simp only [and_0x0f, and_0xff] at hread
    split_ifs at hread with hbad hres hfull
    · split at hread
      · cases hread
      · next b1 r =>
        cases hread
        have hlt : (b0.toNat % 16) <<< 8 ||| b1.toNat % 256 < RlcUmSnSize.size12bits.mod := by
          rw [shl_or _ (by omega)]
          have : RlcUmSnSize.size12bits.mod = 4096 := rfl
          omega
        refine ⟨rfl, hlt, rfl, ?_⟩
        simp only [fixedLength, if_neg hfull, length_cons]
        exact ⟨rfl, add_comm _ _⟩
    · cases hread
      have hlt : (b0.toNat % 16) <<< 8 < RlcUmSnSize.size12bits.mod := by
        have : RlcUmSnSize.size12bits.mod = 4096 := rfl
        rw [shiftLeft_eq]
        omega
      refine ⟨rfl, hlt, rfl, ?_⟩
      simp only [fixedLength, if_pos (not_not.1 hfull), length_cons]
      exact ⟨rfl, add_comm _ _⟩

/-- an accepted byte string starts with a header of the length its segmentation info asks for -/
theorem readDataPduHeader_parsed (hread : rlcUmReadDataPduHeader n pdu = some (h, rest)) :
    h.Fits ∧ h.snSize = n ∧ rest = pdu.drop (parsedLength h) ∧ parsedLength h + rest.length = pdu.length := by
  unfold rlcUmReadDataPduHeader at hread
  split at hread
  · cases hread
  · next h0 r hfix =>
    obtain ⟨hn, hsn, hso, hr, hlen⟩ := readFixedPart_spec hfix
    unfold rlcUmReadSo at hread
    split_ifs at hread with hsi
    · split at hread
      · next s0 s1 r =>
        cases hread
        refine ⟨⟨hn ▸ hsn, ?_, fun hno => ?_⟩, hn, ?_, ?_⟩
        · simp only [and_0xff]
          rw [shl_or _ (by omega)]
          omega
        · exact absurd (hsi.symm.trans hno) (by decide)
        · have hp : parsedLength { h0 with so := (s0.toNat &&& 0xff) <<< 8 ||| (s1.toNat &&& 0xff) } =
              fixedLength h0 + 2 := by simp [parsedLength, fixedLength, hsi]
          rw [hp, ← drop_drop, ← hr]
          rfl
        · simp only [parsedLength, fixedLength, hsi, if_true] at hlen ⊢
          simp only [length_cons] at hlen
          omega
      · cases hread
    · cases hread
      refine ⟨⟨hn ▸ hsn, by rw [hso]; norm_num, fun _ => hso⟩, hn, ?_, ?_⟩ <;>
        simp only [parsedLength, hsi, Bool.false_eq_true, if_false, add_zero]
      · exact hr
      · exact hlen

/-- the two computations of the header length agree exactly where a middle or last segment has an offset -/
theorem packedLength_iff (hf : h.Fits) : rlcUmNrPackedLength h = parsedLength h ↔ h.SoSet := by
  unfold rlcUmNrPackedLength parsedLength fixedLength RlcUmPduHeader.SoSet
  rcases hsi : h.si.hasSo with - | -
  · simp only [hf.noSo hsi, Bool.false_eq_true, if_false, ne_eq, not_true_eq_false, add_zero, false_imp_iff]
  · have hfull : h.si ≠ .fullSdu := by
      rintro heq
      rw [heq] at hsi
      exact nomatch hsi
    by_cases hso : h.so = 0 <;> simp [hfull, hso]

theorem stripHeader_payload {buf payload : Bytes}
    (hread : rlcUmReadDataPduHeader n buf = some (h, rest)) (hstrip : stripHeader n buf = some (h, payload)) :
    payload = buf.drop (rlcUmNrPackedLength h) := by
  rw [stripHeader, hread] at hstrip
  dsimp only at hstrip
  split_ifs at hstrip
  exact (Prod.mk.inj (Option.some.inj hstrip)).2.symm

/-! ## Round trip -/

/-- the first byte of a segment: SI above the SN bits -/
theorem firstByte_eq (si : RlcSiField) (hx : x < 64) :
    ((si.toNumber &&& 0x03) <<< 6 ||| x) % 256 = si.toNumber * 64 + x := by
  have hsi : si.toNumber ≤ 3 := by cases si <;> decide
  rw [shl_or _ hx, and_0x03]
  omega

theorem ofNumber_firstByte (si : RlcSiField) (hx : x < 64) :
    ofNumber ((si.toNumber * 64 + x) >>> 6 &&& 0x03) = si := by
  have hdiv : (si.toNumber * 64 + x) >>> 6 &&& 0x03 = si.toNumber := by
    have hsi : si.toNumber ≤ 3 := by cases si <;> decide
    rw [shiftRight_eq_div_pow, and_0x03]
    omega
  rw [hdiv]
  cases si <;> rfl

/-- the bytes of an offset that is written -/
def soBytes (h : RlcUmPduHeader) : Bytes :=
  if h.so ≠ 0 then [UInt8.ofNat (h.so >>> 8), UInt8.ofNat (h.so &&& 0xff)] else []

/-- SI and SN of a written segment are read back -/
theorem readFixedPart_write (hf : h.Fits) (hsi : h.si ≠ .fullSdu) (rest : Bytes) :
    rlcUmReadFixedPart h.snSize (rlcUmWriteDataPduHeader h ++ rest) = some ({ h with so := 0 }, soBytes h ++ rest) := by
  have hand : ∀ x : ℕ, x &&& 0x3f = x % 64 := fun x => and_mask x 6
  have hsn := hf.sn
  unfold rlcUmWriteDataPduHeader
  simp only [if_neg hsi]
  change rlcUmReadFixedPart h.snSize (_ ++ soBytes h ++ rest) = _
  obtain ⟨si, n, sn, so⟩ := h
  cases n with
  | size6bits =>
    have hlt : sn < 64 := hsn
    have hbyte : ((si.toNumber &&& 0x03) <<< 6 ||| sn % 64) % 256 = si.toNumber * 64 + sn := by
      rw [mod_eq_of_lt hlt, firstByte_eq si hlt]
    have hlow : (si.toNumber * 64 + sn) % 64 = sn := by omega
    simp only [cons_append, nil_append, rlcUmReadFixedPart, UInt8.toNat_ofNat', hand,
      show (2 : ℕ) ^ 8 = 256 from rfl, hbyte, hlow, ofNumber_firstByte si hlt]
    exact if_neg fun hbad => hsi hbad.1
  | size12bits =>
    have hlt : sn < 4096 := hsn
    have hshift : sn >>> 8 = sn / 256 := shiftRight_eq_div_pow sn 8
    have hx : sn / 256 < 64 := by omega
    have hbyte : ((si.toNumber &&& 0x03) <<< 6 ||| sn / 256 % 16) % 256 = si.toNumber * 64 + sn / 256 := by
      rw [mod_eq_of_lt (show sn / 256 < 16 by omega), firstByte_eq si hx]
    have hlow : (si.toNumber * 64 + sn / 256) % 16 = sn / 256 := by omega
    have hres : (si.toNumber * 64 + sn / 256) >>> 4 % 4 = 0 := by
      rw [shiftRight_eq_div_pow]
      omega
    have hjoin : (sn / 256) <<< 8 ||| sn % 256 % 256 % 256 = sn := by
      rw [shl_or _ (by omega)]
      omega
    simp only [cons_append, nil_append, rlcUmReadFixedPart, UInt8.toNat_ofNat', and_0x0f, and_0xff, hshift,
      show (2 : ℕ) ^ 8 = 256 from rfl, hbyte, hlow, ofNumber_firstByte si hx]
    have hres' : ¬ (si = .firstSegment ∧ (si.toNumber * 64 + sn / 256) >>> 4 &&& 3 ≠ 0) := by
      rintro ⟨-, hne⟩
      rw [and_0x03, hres] at hne
      exact hne rfl
    rw [if_neg (fun hbad => hsi hbad.1), if_neg hres', if_pos hsi, hjoin]

/-- a written header is read back with the payload behind it exactly if the writer put an offset where the reader
expects one, and the header of a complete SDU, which has no SN on the wire, has SN 0 -/
theorem read_write_iff (hf : h.Fits) (payload : Bytes) :
    rlcUmReadDataPduHeader h.snSize (rlcUmWriteDataPduHeader h ++ payload) = some (h, payload) ↔
      h.SoSet ∧ (h.si = .fullSdu → h.sn = 0) := by
  by_cases hfull : h.si = .fullSdu
  · -- one byte of zeros
    have hso : h.so = 0 := hf.noSo (by rw [hfull]; rfl)
    have hread : rlcUmReadDataPduHeader h.snSize (rlcUmWriteDataPduHeader h ++ payload) =
        some ({ h with sn := 0 }, payload) := by
      obtain ⟨si, n, sn, so⟩ := h
      obtain rfl : si = .fullSdu := hfull
      obtain rfl : so = 0 := hso
      have hbyte : rlcUmWriteDataPduHeader ⟨.fullSdu, n, sn, 0⟩ = [0] := by
        simp [rlcUmWriteDataPduHeader, toNumber]
      rw [hbyte]
      cases n <;> simp [rlcUmReadDataPduHeader, rlcUmReadFixedPart, rlcUmReadSo, ofNumber]
    have hset : h.SoSet := fun hs => absurd (hfull ▸ hs) (by decide)
    rw [hread]
    constructor
    · intro heq
      obtain ⟨heq, -⟩ := Prod.mk.inj (Option.some.inj heq)
      exact ⟨hset, fun _ => by rw [← heq]⟩
    · rintro ⟨-, h0⟩
      rw [← h0 hfull]
  · rw [rlcUmReadDataPduHeader, readFixedPart_write hf hfull]
    simp only [rlcUmReadSo, RlcUmPduHeader.SoSet, soBytes, hfull, false_imp_iff, and_true]
    rcases hsi : h.si.hasSo with - | -
    · obtain ⟨si, n, sn, so⟩ := h
      obtain rfl : so = 0 := hf.noSo hsi
      simp
    · by_cases hso : h.so = 0
      · -- the first two payload bytes are taken for the offset
        simp only [hso, ne_eq, not_true_eq_false, if_false, nil_append, if_true, imp_false, iff_false]
        rcases payload with - | ⟨s0, - | ⟨s1, r⟩⟩
        · simp
        · simp
        · intro heq
          have hlen := congrArg length (Prod.mk.inj (Option.some.inj heq)).2
          simp only [length_cons] at hlen
          omega
      · have hjoin := two_bytes hf.so
        simp only [hso, ne_eq, not_false_eq_true, if_true, cons_append, nil_append, UInt8.toNat_ofNat',
          and_0xff, show (2 : ℕ) ^ 8 = 256 from rfl, mod_mod, hjoin, implies_true]

end OcuduRan.Rlc
