/-
Block floating point compression of one PRB (lib/ofh/compression: iq_compression_bfp_impl, packing_utils_generic,
quantizer), with samples already quantized to 16 bits.

`compressPrbGeneric` takes the exponent from the leading zeros of the greatest magnitude, shifts the 24 samples and
packs them behind the exponent byte; the `decompressPrbGeneric` of the decoder unpacks, extends the sign and scales. The
conversion to floats is not modelled: the values are those given to `to_float`.

Results:
- `packSample_bits`, `packBytes_bits`: a packed sample is its code in `data_width` bits, if the chunk of a width below
  8 is not wider than the field, and `packSample_none` fails the assertion of `insert` otherwise;
- `compress_packed`: decompression of packed samples gives the sign-extended fields times 2^exponent;
- `bfp_roundTrip_iff`: the round trip rounds every sample down to a multiple of 2^e, with the smallest exponent e,
  exactly if no sample is negative, or the width is at least 8 and it is not the case that all samples are -32768 and
  the width is below 16.
Witnesses:
- `bfp_roundTrip_ramp`: a block with both signs at 9 bits;
- `bfp_roundTrip_fails`: samples -1 at 4 bits fail the assertion (`sample & 0xff` is 255), and 24 samples -32768 at
  9 bits come back as 0 (`clz - 17` wraps and the exponent is 0).
-/
import OcuduRan.Adt.BitBuffer
import OcuduRan.Core.BlockFloat
import OcuduRan.Ofh.UplaneDecoder

namespace OcuduRan.Ofh

open BitBuffer hiding byteAt
open BitStream BlockFloat List Nat Coded

/-! ## Model -/

/-- NOF_SAMPLES_PER_PRB -/
def nofSamplesPerPrb : ℕ := 2 * nofSubcarriersPerRb

/-- the quantized samples of a resource block -/
structure QuantizedPrb where
  samples : List ℤ
  length : samples.length = nofSamplesPerPrb
  range : ∀ x ∈ samples, Fits 16 x
deriving DecidableEq, Repr

/-- `__builtin_clz` of a 32-bit number that is not 0 -/
def clz (x : ℕ) : ℕ := 31 - log2 x

def determineExponent (x dataWidth : ℕ) : Option ℕ :=
  if dataWidth ≠ 0 ∧ dataWidth ≤ maxIqWidth then
    let maxShift := maxIqWidth - dataWidth
    -- unsigned 32-bit arithmetic: the subtraction wraps when the top bit of x is set
    let lzWithoutSign := if 0 < x ∧ 0 < maxShift then (clz x + 2 ^ 32 - 16 - 1) % 2 ^ 32 else maxShift
    some (maxIqWidth - dataWidth - min maxShift lzWithoutSign)
  else none

/-- the `while` loop of `pack_bytes` over the bits of one sample -/
def packSample (buffer : List UInt8) (startPos : ℕ) (sample : ℤ) (leftToPack : ℕ) : Option (List UInt8 × ℕ) :=
  if leftToPack = 0 then some (buffer, startPos)
  else
    let nbits := min 8 leftToPack
    let masked := if 8 < leftToPack then code 8 (sample >>> (leftToPack - 8)) else code 8 sample
    let sample := if 8 < leftToPack then (code (leftToPack - 8) sample : ℤ) else sample
    do
      let buffer ← insert buffer masked startPos nbits
      packSample buffer (startPos + nbits) sample (leftToPack - nbits)
termination_by leftToPack
decreasing_by omega

def packSamples (iqWidth : ℕ) : List ℤ → List UInt8 → ℕ → Option (List UInt8 × ℕ)
  | [], buffer, startPos => some (buffer, startPos)
  | sample :: rest, buffer, startPos => do
    let (buffer, startPos) ← packSample buffer startPos sample iqWidth
    packSamples iqWidth rest buffer startPos

def packBytes (buffer : List UInt8) (compressedIq : List ℤ) (iqWidth : ℕ) : Option (List UInt8) := do
  let (buffer, startPos) ← packSamples iqWidth compressedIq buffer 0
  -- clear tail bits of the last used byte
  if startPos % 8 ≠ 0 then insert buffer 0 startPos (8 - startPos % 8) else some buffer

/-- the greatest absolute value, counting a negative number as one less -/
def maxAbs (samples : List ℤ) : ℤ := max |samples.max?.getD 0| (|samples.min?.getD 0| - 1)

def compressPrbGeneric (compPrbBuffer : List UInt8) (inputQuantized : List ℤ) (dataWidth : ℕ) :
    Option (List UInt8) := do
  let exponent ← determineExponent (maxAbs inputQuantized % 2 ^ 16).toNat dataWidth
  let compressedSamples := inputQuantized.map fun x : ℤ => x >>> exponent
  let packed ← packBytes compPrbBuffer.tail compressedSamples dataWidth
  some (UInt8.ofNat exponent :: packed)

/-- the integers that a decompressed PRB hands to the conversion to floats, in the order of the samples -/
def decompressedSamples (dataWidth : ℕ) (compPrb : List UInt8) : Option (List ℤ) :=
  match (decompressPrbGeneric dataWidth compPrb : Coded Refused Unit (List Iq)) () with
  | (.ok iqs, _) => some (iqs.flatMap fun iq => [iq.re, iq.im])
  | (.error _, _) => none

/-! ## Packing -/

section Pack

variable {w pos : ℕ} {x : ℤ} {buf : List UInt8}

/-- the chunk of a sample shorter than a byte is not wider than its field -/
def Packable (w : ℕ) (x : ℤ) : Prop := 8 ≤ w ∨ code 8 x < 2 ^ w

theorem packSample_short (hw : 0 < w) (hle : w ≤ 8) :
    packSample buf pos x w = (insert buf (code 8 x) pos w).map fun b => (b, pos + w) := by
  rw [packSample, if_neg (by omega), if_neg (by omega), if_neg (by omega), min_eq_right hle]
  dsimp only
  cases insert buf (code 8 x) pos w with
  | none => rfl
  | some b => simp [packSample]

theorem packSample_long (hw : 8 < w) :
    packSample buf pos x w = (insert buf (code 8 (x >>> (w - 8))) pos 8).bind fun b =>
      packSample b (pos + 8) (code (w - 8) x) (w - 8) := by
  rw [packSample, if_neg (by omega), if_pos hw, if_pos hw, min_eq_left hw.le]
  rfl

/-- a sample is packed as its code -/
theorem packSample_bits (hw : 0 < w) (hle : w ≤ 16) (hx : Packable w x) (hr : pos + w ≤ 8 * buf.length) :
    ∃ buf', packSample buf pos x w = some (buf', pos + w) ∧ buf'.length = buf.length ∧
      bitsOf buf' = (bitsOf buf).take pos ++ natBits w (code w x) ++ (bitsOf buf).drop (pos + w) := by
  rcases lt_or_ge 8 w with hlong | hshort
  · obtain ⟨k, rfl⟩ := Nat.exists_eq_add_of_lt hlong
    have hhigh : code 8 (x >>> (8 + k + 1 - 8)) < 2 ^ 8 := code_lt 8 _
    obtain ⟨b₁, hins₁, hlen₁, hbits₁⟩ := insert_bits (by norm_num) le_rfl hhigh (by omega : pos + 8 ≤ 8 * buf.length)
    have hk : code 8 ((code (8 + k + 1 - 8) x : ℕ) : ℤ) = code (8 + k + 1 - 8) x := code_code (by omega) x
    have hroom : pos + 8 + (8 + k + 1 - 8) ≤ 8 * b₁.length := by omega
    obtain ⟨b₂, hins₂, hlen₂, hbits₂⟩ := insert_bits (by omega) (by omega) (code_lt (8 + k + 1 - 8) x) hroom
    refine ⟨b₂, ?_, by omega, ?_⟩
    · rw [packSample_long hlong, hins₁, Option.bind_some, packSample_short (by omega) (by omega), hk, hins₂,
        Option.map_some, show pos + 8 + (8 + k + 1 - 8) = pos + (8 + k + 1) by omega]
    · -- the second field goes behind the first one, and together they are the code
      have hpre : ((bitsOf buf).take pos ++ natBits 8 (code 8 (x >>> (8 + k + 1 - 8)))).length = pos + 8 := by
        simp
        omega
      rw [hbits₂, hbits₁, take_left' hpre, show pos + 8 + (8 + k + 1 - 8) = (pos + 8) + (k + 1) by omega,
        ← drop_drop, drop_left' hpre, drop_drop, add_assoc pos, add_assoc 8,
        natBits_add 8 (k + 1), code_shiftRight, ← natBits_mod (k + 1) (code (8 + (k + 1)) x),
        code_mod (by omega), Nat.add_sub_cancel_left]
      simp
  · have hcode : code 8 x = code w x := by
      rcases hx with h8 | hlt
      · rw [show w = 8 by omega]
      · rw [← code_mod hshort x, Nat.mod_eq_of_lt hlt]
    obtain ⟨b, hins, hlen, hbits⟩ := insert_bits hw hshort (code_lt w x) hr
    exact ⟨b, by rw [packSample_short hw hshort, hcode, hins, Option.map_some], hlen, hbits⟩

/-- a chunk wider than its field fails the assertion of `insert` -/
theorem packSample_none (hw : 0 < w) (hx : ¬ Packable w x) : packSample buf pos x w = none := by
  obtain ⟨h8, hlt⟩ := not_or.1 hx
  rw [packSample_short hw (by omega), insert_none hlt, Option.map_none]

/-- the fields of the samples one after the other -/
def fields (w : ℕ) (xs : List ℤ) : List Bool := xs.flatMap fun x => natBits w (code w x)

@[simp] theorem length_fields (w : ℕ) (xs : List ℤ) : (fields w xs).length = xs.length * w := by
  simp [fields, length_flatMap]

theorem packSamples_bits {xs : List ℤ} (hw : 0 < w) (hle : w ≤ 16) (hx : ∀ x ∈ xs, Packable w x)
    (hr : pos + xs.length * w ≤ 8 * buf.length) :
    ∃ buf', packSamples w xs buf pos = some (buf', pos + xs.length * w) ∧ buf'.length = buf.length ∧
      bitsOf buf' = (bitsOf buf).take pos ++ fields w xs ++ (bitsOf buf).drop (pos + xs.length * w) := by
  induction xs generalizing buf pos with
  | nil => exact ⟨buf, by simp [packSamples], rfl, by simp [fields]⟩
  | cons x xs ih =>
    rw [length_cons, add_mul, one_mul] at hr ⊢
    obtain ⟨b₁, hpack, hlen₁, hbits₁⟩ := packSample_bits hw hle (hx x (by simp)) (by omega : pos + w ≤ 8 * buf.length)
    have hroom : pos + w + xs.length * w ≤ 8 * b₁.length := by omega
    obtain ⟨b₂, hrest, hlen₂, hbits₂⟩ := ih (fun y hy => hx y (by simp [hy])) hroom
    refine ⟨b₂, ?_, by omega, ?_⟩
    · rw [packSamples, hpack]
      simp only [Option.bind_eq_bind, Option.bind_some, hrest]
      congr 2
      omega
    · have hpre : ((bitsOf buf).take pos ++ natBits w (code w x)).length = pos + w := by
        simp
        omega
      rw [hbits₂, hbits₁, take_left' hpre, ← drop_drop, drop_left' hpre, drop_drop,
        show pos + (xs.length * w + w) = pos + w + xs.length * w by omega]
      simp [fields]

theorem packSamples_none {xs : List ℤ} (hw : 0 < w) (hx : ∃ x ∈ xs, ¬ Packable w x) :
    packSamples w xs buf pos = none := by
  induction xs generalizing buf pos with
  | nil => simp at hx
  | cons x xs ih =>
    by_cases hp : Packable w x
    · have hrest : ∃ x ∈ xs, ¬ Packable w x := by
        obtain ⟨y, hy, hyp⟩ := hx
        rcases mem_cons.1 hy with rfl | hy
        · exact absurd hp hyp
        · exact ⟨y, hy, hyp⟩
      rw [packSamples]
      cases packSample buf pos x w with
      | none => rfl
      | some r => exact ih hrest
    · rw [packSamples, packSample_none hw hp]
      rfl

/-- a block of samples is packed in whole bytes, and the rest of the buffer is not touched -/
theorem packBytes_bits {xs : List ℤ} (hw : 0 < w) (hle : w ≤ 16) (hx : ∀ x ∈ xs, Packable w x)
    (hlen : xs.length = nofSamplesPerPrb) (hr : 3 * w ≤ buf.length) :
    packBytes buf xs w = some (toBytes (fields w xs) ++ buf.drop (3 * w)) := by
  have h24 : xs.length * w = 8 * (3 * w) := by
    rw [hlen]
    simp only [nofSamplesPerPrb, nofSubcarriersPerRb]
    omega
  obtain ⟨b, hpack, -, hbits⟩ := packSamples_bits hw hle hx (by omega : 0 + xs.length * w ≤ 8 * buf.length)
  have htail : (bitsOf buf).drop (8 * (3 * w)) = bitsOf (buf.drop (3 * w)) := by
    have hsplit : bitsOf buf = bitsOf (buf.take (3 * w)) ++ bitsOf (buf.drop (3 * w)) := by
      rw [← bitsOf_append, take_append_drop]
    rw [hsplit, drop_left']
    simp
    omega
  have hb : b = toBytes (fields w xs) ++ buf.drop (3 * w) := by
    rw [← toBytes_bitsOf b, hbits, h24, zero_add, htail, take_zero, nil_append,
      toBytes_append (by rw [length_fields, h24]; exact dvd_mul_right 8 _), toBytes_bitsOf]
  rw [packBytes, hpack, h24, hb]
  simp

end Pack

/-! ## Unpacking -/

section Unpack

variable {σ : Type} {w pos v : ℕ} {buf : List UInt8} {rest : List Bool} {s : σ}

theorem byteAt_split (pre post : List UInt8) (b : UInt8) :
    (byteAt (pre ++ b :: post) pre.length : Coded Refused σ ℕ) s = (.ok b.toNat, s) := by
  simp [byteAt]

/-- an extract reads the bits of its field as a number -/
theorem extract_bits {startpos count : ℕ} (hc : 0 < count) (hle : count ≤ 8) (hr : startpos + count ≤ 8 * buf.length) :
    (extract buf startpos count : Coded Refused σ ℕ) s =
      (.ok (ofBits (((bitsOf buf).drop startpos).take count)), s) := by
  obtain ⟨pre, b, post, rfl, hpre⟩ := exists_split (show startpos / 8 < buf.length by omega)
  have hpos : startpos = 8 * pre.length + startpos % 8 := by rw [hpre]; omega
  have hmod : startpos % 8 < 8 := Nat.mod_lt _ (by norm_num)
  have hb : b.toNat < 2 ^ 8 := b.toNat_lt
  unfold extract
  rw [bind_of_ok (assert_of hle s), bind_of_ok (assert_of (by omega) s), ← hpre,
    bind_of_ok (byteAt_split pre post b)]
  generalize startpos % 8 = m at hpos hmod ⊢
  subst hpos
  rw [drop_bitsOf _ _ _ hmod.le]
  by_cases hone : m + count ≤ 8
  · have hbits : ofBits ((natBits (8 - m) b.toNat ++ bitsOf post).take count) =
        b.toNat / 2 ^ (8 - m - count) % 2 ^ count := by
      rw [take_append_of_le_length (by simp; omega), take_natBits (by omega), ofBits_natBits,
        Nat.shiftRight_eq_div_pow]
    rw [hbits]
    rcases Nat.eq_zero_or_pos m with rfl | hm
    · -- the bits above an aligned field are none
      have hlt : b.toNat / 2 ^ (8 - 0 - count) < 2 ^ count := by
        apply Nat.div_lt_of_lt_mul
        rw [← Nat.pow_add, show 8 - 0 - count + count = 8 by omega]
        exact hb
      rw [if_pos rfl, Nat.mod_eq_of_lt hlt]
      rfl
    · rw [if_neg (by omega), if_pos hone]
      rfl
  · obtain ⟨c, rest, rfl⟩ := exists_next (by omega) hr
    have hnext : (byteAt (pre ++ b :: c :: rest) (pre.length + 1) : Coded Refused σ ℕ) s = (.ok c.toNat, s) := by
      simp [byteAt]
    rw [if_neg (by omega), if_neg hone, bind_of_ok hnext]
    -- the two bytes as one number of sixteen bits, the first m of them dropped
    have hword : natBits (8 - m) b.toNat ++ bitsOf (c :: rest) =
        natBits (16 - m) (b.toNat * 256 + c.toNat) ++ bitsOf rest := by
      rw [show b.toNat * 256 + c.toNat = b.toNat <<< 8 ||| c.toNat from (Bits.shl_or (k := 8) _ c.toNat_lt).symm,
        natBits_concat (m := 8 - m) (by omega) c.toNat_lt, bitsOf_cons, append_assoc]
    rw [hword, take_append_of_le_length (by simp; omega), take_natBits (by omega), ofBits_natBits,
      Nat.shiftRight_eq_div_pow]
    rfl

theorem extract_field {count : ℕ} (hc : 0 < count) (hle : count ≤ 8)
    (hbits : (bitsOf buf).drop pos = natBits count v ++ rest) :
    (extract buf pos count : Coded Refused σ ℕ) s = (.ok (v % 2 ^ count), s) := by
  have hlen := congrArg length hbits
  rw [length_drop, length_bitsOf, length_append, length_natBits] at hlen
  rw [extract_bits hc hle (by omega), hbits, take_left' (length_natBits _ _), ofBits_natBits]

theorem unpackBits_field (hw : 0 < w) (hle : w ≤ 16) (hbits : (bitsOf buf).drop pos = natBits w v ++ rest) :
    (unpackBits buf pos w : Coded Refused σ ℕ) s = (.ok (v % 2 ^ w), s) := by
  unfold unpackBits
  rcases lt_or_ge 8 w with hlong | hshort
  · obtain ⟨k, rfl⟩ := Nat.exists_eq_add_of_le hlong.le
    have hhigh : (bitsOf buf).drop pos = natBits 8 (v >>> k) ++ (natBits k v ++ rest) := by
      rw [hbits, natBits_add, append_assoc]
    have hlow : (bitsOf buf).drop (pos + 8) = natBits k v ++ rest := by
      rw [← drop_drop, hhigh, drop_left' (length_natBits _ _)]
    have hlt : v >>> k % 2 ^ 8 < 2 ^ 8 := Nat.mod_lt _ (by norm_num)
    have hword : v >>> k % 2 ^ 8 * 2 ^ k % 2 ^ 16 = (v >>> k % 2 ^ 8) <<< k := by
      rw [shiftLeft_eq]
      apply Nat.mod_eq_of_lt
      calc v >>> k % 2 ^ 8 * 2 ^ k < 2 ^ 8 * 2 ^ k := Nat.mul_lt_mul_of_pos_right hlt (Nat.two_pow_pos k)
        _ = 2 ^ (8 + k) := (Nat.pow_add 2 8 k).symm
        _ ≤ 2 ^ 16 := Nat.pow_le_pow_right (by norm_num) hle
    have hjoin : (v >>> k % 2 ^ 8) <<< k ||| v % 2 ^ k = v % 2 ^ (8 + k) := by
      rw [Bits.shl_or _ (Nat.mod_lt _ (Nat.two_pow_pos k)), Nat.shiftRight_eq_div_pow, Nat.add_comm 8 k, Nat.pow_add,
        mod_mul]
      ring
    rw [show 8 + k = 8 + k - 1 + 1 by omega, unpackBitsFrom, if_neg (by omega), if_pos (by omega),
      bind_of_ok (extract_field (by norm_num) le_rfl hhigh)]
    rw [show 8 + k - 1 = 8 + k - 2 + 1 by omega, unpackBitsFrom, if_neg (by omega), if_neg (by omega),
      show 8 + k - 2 + 1 + 1 - 8 = k by omega, bind_of_ok (extract_field (by omega) (by omega) hlow), hword, hjoin,
      show 8 + k - 2 + 1 + 1 = 8 + k by omega]
    rfl
  · obtain ⟨k, rfl⟩ := Nat.exists_eq_add_of_lt hw
    rw [zero_add] at *
    rw [unpackBitsFrom, if_neg (by omega), if_neg (by omega), bind_of_ok (extract_field hw hshort hbits),
      zero_or]
    rfl

theorem signExtend_field (hw : 0 < w) (x : ℤ) : signExtend w (code w x % 2 ^ w) = Int.bmod x (2 ^ w) := by
  obtain ⟨k, rfl⟩ := Nat.exists_eq_add_of_lt hw
  rw [zero_add]
  unfold signExtend
  rw [Nat.mod_mod, Nat.mod_eq_of_lt (code_lt _ x), Nat.add_sub_cancel]
  push_cast
  rw [xor_sub_sign (code_lt _ x), signed_code_eq_bmod]

/-- the samples of a packed block, sign-extended and scaled -/
theorem unpackSamples_fields (hw : 0 < w) (hle : w ≤ 16) (scaler : ℤ) (gain : ℕ) {n : ℕ} {xs : List ℤ}
    (hlen : xs.length = 2 * n) (hbits : (bitsOf buf).drop pos = fields w xs ++ rest) :
    ∃ iqs, (unpackSamples buf w scaler gain n pos : Coded Refused σ (List Iq)) s = (.ok iqs, s) ∧
      (iqs.flatMap fun iq => [iq.re, iq.im]) = xs.map fun x => Int.bmod x (2 ^ w) * scaler := by
  induction n generalizing xs pos with
  | zero =>
    rw [length_eq_zero_iff.1 hlen]
    exact ⟨[], rfl, rfl⟩
  | succ n ih =>
    rcases xs with - | ⟨re, - | ⟨im, xs⟩⟩
    · simp at hlen
    · simp at hlen
      omega
    · have hre : (bitsOf buf).drop pos = natBits w (code w re) ++ (natBits w (code w im) ++ (fields w xs ++ rest)) := by
        rw [hbits]
        simp [fields]
      have him : (bitsOf buf).drop (pos + w) = natBits w (code w im) ++ (fields w xs ++ rest) := by
        rw [← drop_drop, hre, drop_left' (length_natBits _ _)]
      have htail : (bitsOf buf).drop (pos + w * 2) = fields w xs ++ rest := by
        rw [show pos + w * 2 = pos + w + w by omega, ← drop_drop, him, drop_left' (length_natBits _ _)]
      obtain ⟨iqs, hloop, hiqs⟩ := ih (by simp at hlen; omega) htail
      refine ⟨⟨signExtend w (code w re % 2 ^ w) * scaler, signExtend w (code w im % 2 ^ w) * scaler, gain⟩ :: iqs,
        ?_, ?_⟩
      · rw [unpackSamples, bind_of_ok (unpackBits_field hw hle hre),
          bind_of_ok (unpackBits_field hw hle him), bind_of_ok hloop]
        rfl
      · rw [flatMap_cons, hiqs, signExtend_field hw, signExtend_field hw]
        rfl

end Unpack

/-! ## The exponent -/

theorem size_eq_log2 {x : ℕ} (h : x ≠ 0) : size x = log2 x + 1 := by
  apply le_antisymm
  · exact size_le.2 lt_log2_self
  · exact lt_size.2 (log2_self_le h)

/-- below the top bit, the exponent is what is needed for the size of the number -/
theorem determineExponent_eq {x w : ℕ} (hw : 0 < w) (hle : w ≤ 16) (hx : x < 2 ^ 15) :
    determineExponent x w = some (size x - (w - 1)) := by
  have hsize : size x ≤ 15 := size_le.2 hx
  unfold determineExponent maxIqWidth
  rw [if_pos ⟨by omega, hle⟩]
  rcases Nat.eq_zero_or_pos x with rfl | hpos
  · simp
  · have hlog := size_eq_log2 hpos.ne'
    unfold clz
    dsimp only
    congr 1
    split_ifs with h <;> omega

/-- with the top bit set the count of leading zeros wraps -/
theorem determineExponent_top {w : ℕ} (hw : 0 < w) (hle : w ≤ 16) : determineExponent (2 ^ 15) w = some 0 := by
  have hlog : log2 (2 ^ 15) = 15 := log2_two_pow
  unfold determineExponent maxIqWidth clz
  rw [if_pos ⟨by omega, hle⟩, hlog]
  dsimp only
  congr 1
  split_ifs <;> omega

section Exponent

variable {xs : List ℤ}

/-- the code's maximum is the greatest magnitude, or one more where all samples are the same negative number -/
theorem maxAbs_cases (hne : xs ≠ []) : ∃ M, (∀ x ∈ xs, magnitude x ≤ M) ∧ (∃ x ∈ xs, magnitude x = M) ∧
      (maxAbs xs = M ∨ (maxAbs xs = M + 1 ∧ ∀ x ∈ xs, x = -(M + 1 : ℤ))) := by
  obtain ⟨a, ha⟩ : ∃ a, xs.max? = some a := Option.isSome_iff_exists.1 (isSome_max?_of_ne_nil hne)
  obtain ⟨b, hb⟩ : ∃ b, xs.min? = some b := Option.isSome_iff_exists.1 (isSome_min?_of_ne_nil hne)
  obtain ⟨hamem, hamax⟩ := max?_eq_some_iff.1 ha
  obtain ⟨hbmem, hbmin⟩ := min?_eq_some_iff.1 hb
  have hba := hbmin a hamem
  have hmax : maxAbs xs = max |a| (|b| - 1) := by rw [maxAbs, ha, hb]; rfl
  have hmag : ∀ x ∈ xs, magnitude x ≤ max (magnitude a) (magnitude b) := by
    intro x hx
    have h1 := hamax x hx
    have h2 := hbmin x hx
    rcases lt_or_ge x 0 with hx0 | hx0
    · have := magnitude_of_neg hx0
      have := magnitude_of_neg (lt_of_le_of_lt h2 hx0)
      omega
    · have := magnitude_of_nonneg hx0
      have := magnitude_of_nonneg (le_trans hx0 h1)
      omega
  refine ⟨max (magnitude a) (magnitude b), hmag, ?_, ?_⟩
  · rcases max_choice (magnitude a) (magnitude b) with h | h
    · exact ⟨a, hamem, h.symm⟩
    · exact ⟨b, hbmem, h.symm⟩
  · rw [hmax]
    rcases lt_or_ge a 0 with ha0 | ha0
    · have hma := magnitude_of_neg ha0
      have hmb := magnitude_of_neg (lt_of_le_of_lt hba ha0)
      rw [abs_of_neg ha0, abs_of_neg (lt_of_le_of_lt hba ha0)]
      rcases eq_or_lt_of_le hba with rfl | hlt
      · refine .inr ⟨by omega, fun x hx => ?_⟩
        have h1 := hamax x hx
        have h2 := hbmin x hx
        omega
      · exact .inl (by omega)
    · have hma := magnitude_of_nonneg ha0
      rw [abs_of_nonneg ha0]
      rcases lt_or_ge b 0 with hb0 | hb0
      · have hmb := magnitude_of_neg hb0
        rw [abs_of_neg hb0]
        exact .inl (by omega)
      · have hmb := magnitude_of_nonneg hb0
        rw [abs_of_nonneg hb0]
        exact .inl (by omega)

/-- the maximum of a block of equal samples -/
theorem maxAbs_of_forall_eq {c : ℤ} (hall : ∀ x ∈ xs, x = c) {y : ℤ} (hy : y ∈ xs) : maxAbs xs = max |c| (|c| - 1) := by
  have hmem : c ∈ xs := hall y hy ▸ hy
  have ha : xs.max? = some c := max?_eq_some_iff.2 ⟨hmem, fun x hx => (hall x hx).le⟩
  have hb : xs.min? = some c := min?_eq_some_iff.2 ⟨hmem, fun x hx => (hall x hx).ge⟩
  rw [maxAbs, ha, hb]
  rfl

variable {w : ℕ}

/-- rounding down loses nothing on a multiple -/
theorem shiftRight_mul_of_dvd {x : ℤ} {e : ℕ} (h : 2 ^ e ∣ x) : (x >>> e) * 2 ^ e = x := by
  rw [Int.shiftRight_eq_div_pow]
  push_cast
  exact Int.ediv_mul_cancel h

/-- the exponent of the code is admissible and rounds like the smallest one, unless the maximum has its top bit set -/
theorem determineExponent_admissible {p : QuantizedPrb} (hw : 0 < w) (hle : w ≤ 16)
    (htop : ¬ (w < 16 ∧ ∀ x ∈ p.samples, x = -32768)) :
    ∃ e e' : ℕ, IsLeast {e : ℕ | ∀ x ∈ p.samples, Fits w (x >>> e)} e ∧
      determineExponent (maxAbs p.samples % 2 ^ 16).toNat w = some e' ∧ e' ≤ 15 ∧
      (∀ x ∈ p.samples, Fits w (x >>> e')) ∧
      (2 ≤ w ∨ (∀ x ∈ p.samples, 0 ≤ x) → ∀ x ∈ p.samples, (x >>> e') * (2 : ℤ) ^ e' = (x >>> e) * 2 ^ e) := by
  have hne : p.samples ≠ [] := by
    intro h
    have := p.length
    rw [h] at this
    exact nomatch this
  obtain ⟨M, hM, hmem, hmax⟩ := maxAbs_cases hne
  have hleast := isLeast_exponent (w := w) hM hmem
  obtain ⟨y, hy, rfl⟩ := hmem
  have hM15 : magnitude y < 2 ^ 15 := fits_iff.1 (p.range y hy)
  have hsize : size (magnitude y) ≤ 15 := size_le.2 hM15
  rcases hmax with heq | ⟨heq, hall⟩
  · have hnat : (maxAbs p.samples % 2 ^ 16).toNat = magnitude y := by rw [heq]; omega
    refine ⟨_, size (magnitude y) - (w - 1), hleast, ?_, by omega, hleast.1, fun _ _ _ => rfl⟩
    rw [hnat, determineExponent_eq hw hle hM15]
  have hnat : (maxAbs p.samples % 2 ^ 16).toNat = magnitude y + 1 := by rw [heq]; omega
  rw [hnat]
  rcases lt_or_ge (magnitude y + 1) (2 ^ 15) with hlt | hge
  · -- one bit more is needed only for a power of two, which both exponents keep
    have hmono : size (magnitude y) ≤ size (magnitude y + 1) := size_le_size (le_succ _)
    have hsize' : size (magnitude y + 1) ≤ 15 := size_le.2 hlt
    refine ⟨_, size (magnitude y + 1) - (w - 1), hleast, determineExponent_eq hw hle hlt, by omega, ?_, ?_⟩
    · intro x hx
      rw [fits_shiftRight_iff]
      exact lt_of_le_of_lt (hM x hx) (size_le.1 (by omega))
    · intro h2 x hx
      rcases eq_or_lt_of_le hmono with hsame | hmore
      · rw [hsame]
      · have hpow : magnitude y + 1 = 2 ^ size (magnitude y) :=
          le_antisymm (lt_size_self _) (lt_size.1 hmore)
        have hx2 : x = -2 ^ size (magnitude y) := by
          rw [hall x hx]
          exact_mod_cast congrArg (fun n : ℕ => -(n : ℤ)) hpow
        have hw2 : 2 ≤ w := by
          rcases h2 with h2 | hnonneg
          · exact h2
          · have := hnonneg x hx
            have := hall x hx
            omega
        have hsz : size (magnitude y + 1) = size (magnitude y) + 1 := by rw [hpow, size_pow]
        have hdvd : ∀ e, e ≤ size (magnitude y) → (2 : ℤ) ^ e ∣ x := by
          intro e he
          rw [hx2]
          exact (pow_dvd_pow 2 he).neg_right
        rw [shiftRight_mul_of_dvd (hdvd _ (by omega)), shiftRight_mul_of_dvd (hdvd _ (by omega))]
  · -- all samples are -32768, so the width is 16 and no shift is needed
    have h16 : w = 16 := by
      by_contra hne16
      refine htop ⟨by omega, fun x hx => ?_⟩
      have := hall x hx
      omega
    subst h16
    have h0 : size (magnitude y) - (16 - 1) = 0 := by omega
    rw [h0] at hleast
    exact ⟨0, 0, hleast, by rw [show magnitude y + 1 = 2 ^ 15 by omega]; exact determineExponent_top hw hle, by omega,
      hleast.1, fun _ _ _ => rfl⟩

end Exponent

/-! ## The round trip -/

section RoundTrip

variable {w e : ℕ} {p : QuantizedPrb}

/-- compression writes the exponent and the fields, and decompression reads them back -/
theorem compress_packed (hw : 0 < w) (hle : w ≤ 16)
    (hexp : determineExponent (maxAbs p.samples % 2 ^ 16).toNat w = some e) (he : e ≤ 15)
    (hpack : ∀ x ∈ p.samples, Packable w (x >>> e)) :
    ∃ written : List UInt8, written.length = 1 + 3 * w ∧ (∀ buf : List UInt8, 1 + 3 * w ≤ buf.length →
        compressPrbGeneric buf p.samples w = some (written ++ buf.drop (1 + 3 * w))) ∧
      ∀ rest, decompressedSamples w (written ++ rest) =
        some (p.samples.map fun x : ℤ => Int.bmod (x >>> e) (2 ^ w) * 2 ^ e) := by
  have hlen : (p.samples.map fun x : ℤ => x >>> e).length = nofSamplesPerPrb := by rw [length_map, p.length]
  have hbits : (fields w (p.samples.map fun x : ℤ => x >>> e)).length = 8 * (3 * w) := by
    rw [length_fields, hlen]
    simp only [nofSamplesPerPrb, nofSubcarriersPerRb]
    omega
  have hbytes : (toBytes (fields w (p.samples.map fun x : ℤ => x >>> e))).length = 3 * w := by
    rw [length_toBytes, hbits]
    omega
  refine ⟨UInt8.ofNat e :: toBytes (fields w (p.samples.map fun x : ℤ => x >>> e)), by simp [hbytes]; omega, ?_, ?_⟩
  · intro buf hbuf
    rw [compressPrbGeneric, hexp]
    simp only [Option.bind_eq_bind, Option.bind_some]
    rw [packBytes_bits hw hle (by simpa using hpack) hlen (by simp; omega), Option.bind_some, cons_append,
      Nat.add_comm 1, drop_tail]
  · intro rest
    have hexp8 : (UInt8.ofNat e).toNat % 16 = e := by
      rw [UInt8.toNat_ofNat']
      omega
    have hbuf : (bitsOf (toBytes (fields w (p.samples.map fun x : ℤ => x >>> e)) ++ rest)).drop 0 =
        fields w (p.samples.map fun x : ℤ => x >>> e) ++ bitsOf rest := by
      rw [drop_zero, bitsOf_append, bitsOf_toBytes, hbits]
      simp
      omega
    obtain ⟨iqs, hloop, hiqs⟩ := unpackSamples_fields (s := ()) hw hle (2 ^ e) (2 ^ (maxIqWidth - 1) - 1)
      (n := nofSubcarriersPerRb) hlen hbuf
    have hdec : (decompressPrbGeneric w (UInt8.ofNat e :: toBytes (fields w (p.samples.map fun x : ℤ => x >>> e)) ++
        rest) : Coded Refused Unit (List Iq)) () = (.ok iqs, ()) := by
      have hbyte : (byteAt (UInt8.ofNat e :: toBytes (fields w (p.samples.map fun x : ℤ => x >>> e)) ++ rest) 0 :
          Coded Refused Unit ℕ) () = (.ok (UInt8.ofNat e).toNat, ()) := rfl
      rw [decompressPrbGeneric, bind_of_ok hbyte, hexp8]
      exact hloop
    rw [decompressedSamples, hdec]
    dsimp only
    rw [hiqs, map_map]
    rfl

/-- the block comes back rounded down to multiples of 2^e, e the smallest exponent at which all samples fit -/
def RoundTrips (p : QuantizedPrb) (w : ℕ) : Prop :=
  ∃ e : ℕ, IsLeast {e : ℕ | ∀ x ∈ p.samples, Fits w (x >>> e)} e ∧
    ∃ written : List UInt8, written.length = 1 + 3 * w ∧
      (∀ buf : List UInt8, 1 + 3 * w ≤ buf.length →
        compressPrbGeneric buf p.samples w = some (written ++ buf.drop (1 + 3 * w))) ∧
      (∀ rest, decompressedSamples w (written ++ rest) = some (p.samples.map fun x => x / 2 ^ e * 2 ^ e)) ∧
      (w = 16 → ∀ rest, decompressedSamples w (written ++ rest) = some p.samples)

/-- no sample is negative, or the width is a byte at least and the maximum does not have its top bit set -/
def Supported (p : QuantizedPrb) (w : ℕ) : Prop :=
  (∀ x ∈ p.samples, 0 ≤ x) ∨ (8 ≤ w ∧ ¬ (w < 16 ∧ ∀ x ∈ p.samples, x = -32768))

/-- a shifted sample that fits is packable if it is not negative or the width is a byte at least -/
theorem packable_iff {y : ℤ} (hw : 0 < w) (hy : Fits w y) : Packable w y ↔ 8 ≤ w ∨ 0 ≤ y := by
  unfold Packable
  rcases lt_or_ge w 8 with h8 | h8
  · obtain ⟨hlo, hhi⟩ := hy
    have hcode := code_cast 8 y
    interval_cases w <;> omega
  · simp [h8]

theorem roundTrips_of_supported (hw : 0 < w) (hle : w ≤ 16) (h : Supported p w) : RoundTrips p w := by
  have hlen := p.length
  have htop : ¬ (w < 16 ∧ ∀ x ∈ p.samples, x = -32768) := by
    rcases h with h | h
    · rintro ⟨-, hall⟩
      obtain ⟨x, hx⟩ := exists_mem_of_length_pos (by rw [hlen]; decide : 0 < p.samples.length)
      have h1 := h x hx
      have h2 := hall x hx
      omega
    · exact h.2
  obtain ⟨e, e', hleast, hexp, he, hfits, hround⟩ := determineExponent_admissible hw hle htop
  have hpack : ∀ x ∈ p.samples, Packable w (x >>> e') := by
    intro x hx
    rw [packable_iff hw (hfits x hx)]
    rcases h with h | h
    · exact .inr (Int.le_shiftRight_of_nonneg (h x hx))
    · exact .inl h.1
  obtain ⟨written, hwlen, hcomp, hdec⟩ := compress_packed hw hle hexp he hpack
  have hvalues : (p.samples.map fun x : ℤ => Int.bmod (x >>> e') (2 ^ w) * 2 ^ e') =
      p.samples.map fun x => x / 2 ^ e * 2 ^ e := by
    apply map_congr_left
    intro x hx
    have hb : Int.bmod (x >>> e') (2 ^ w) = x >>> e' := by
      rw [← signed_code_eq_bmod, signed_code hw (hfits x hx)]
    have hwide : 2 ≤ w ∨ ∀ x ∈ p.samples, 0 ≤ x := by
      rcases h with h | h
      · exact .inr h
      · exact .inl (by omega)
    rw [hb, hround hwide x hx, Int.shiftRight_eq_div_pow]
    push_cast
    rfl
  refine ⟨e, hleast, written, hwlen, hcomp, fun rest => by rw [hdec, hvalues], ?_⟩
  rintro rfl rest
  have he0 : e = 0 := by
    have := hleast.2 (show 0 ∈ {e : ℕ | ∀ x ∈ p.samples,
      Fits 16 (x >>> e)} from fun x hx => by simpa using p.range x hx)
    omega
  rw [hdec, hvalues, he0]
  simp

/-- below a byte a negative sample fails an assertion, whatever the buffer -/
theorem compress_none_of_negative (hw : 0 < w) (h8 : w < 8) (htop : ¬ (w < 16 ∧ ∀ x ∈ p.samples, x = -32768))
    {x : ℤ} (hx : x ∈ p.samples) (hx0 : x < 0) (buf : List UInt8) : compressPrbGeneric buf p.samples w = none := by
  obtain ⟨-, e, -, hexp, -, hfits, -⟩ := determineExponent_admissible hw (by omega) htop
  have hpack : ¬ Packable w (x >>> e) := by
    rw [packable_iff hw (hfits x hx), Int.shiftRight_eq_div_pow]
    have hdiv : x / ((2 ^ e : ℕ) : ℤ) < 0 := Int.ediv_neg_of_neg_of_pos hx0 (by positivity)
    omega
  rw [compressPrbGeneric, hexp]
  simp only [Option.bind_eq_bind, Option.bind_some]
  rw [packBytes, packSamples_none hw ⟨_, mem_map_of_mem hx, hpack⟩]
  rfl

/-- a block of lowest samples is written with exponent 0 and comes back as zeros -/
theorem lowest_decompressed (hw : 0 < w) (hlt : w < 16) (hall : ∀ x ∈ p.samples, x = -32768) :
    ∃ written : List UInt8, (∀ buf : List UInt8, 1 + 3 * w ≤ buf.length →
        compressPrbGeneric buf p.samples w = some (written ++ buf.drop (1 + 3 * w))) ∧
      ∀ rest, decompressedSamples w (written ++ rest) = some (p.samples.map fun _ => 0) := by
  have hlen := p.length
  obtain ⟨y, hy⟩ := exists_mem_of_length_pos (by rw [hlen]; decide : 0 < p.samples.length)
  have hexp : determineExponent (maxAbs p.samples % 2 ^ 16).toNat w = some 0 := by
    rw [maxAbs_of_forall_eq hall hy]
    exact determineExponent_top hw hlt.le
  have hpack : ∀ x ∈ p.samples, Packable w (x >>> (0 : ℕ)) := by
    intro x hx
    rw [hall x hx]
    exact .inr (Nat.two_pow_pos w)
  obtain ⟨written, -, hcomp, hdec⟩ := compress_packed hw hlt.le hexp (by norm_num) hpack
  refine ⟨written, hcomp, fun rest => ?_⟩
  rw [hdec]
  congr 1
  apply map_congr_left
  intro x hx
  have hdvd : ((2 ^ w : ℕ) : ℤ) ∣ x := by
    rw [hall x hx]
    push_cast
    exact (pow_dvd_pow 2 (by omega : w ≤ 15)).neg_right
  rw [Int.shiftRight_zero, Int.bmod_eq_zero_of_dvd hdvd, Int.zero_mul]

theorem supported_of_roundTrips (hw : 0 < w) (hle : w ≤ 16) (h : RoundTrips p w) : Supported p w := by
  obtain ⟨e, -, written, -, hcomp, hdec, -⟩ := h
  have hbuf : 1 + 3 * w ≤ (replicate (1 + 3 * w) (0 : UInt8)).length := by simp
  have hcomp := hcomp _ hbuf
  by_contra hs
  obtain ⟨hneg, hwide⟩ := not_or.1 hs
  simp only [not_forall, not_le] at hneg
  obtain ⟨x, hx, hx0⟩ := hneg
  by_cases htop : w < 16 ∧ ∀ x ∈ p.samples, x = -32768
  · obtain ⟨written', hcomp', hdec'⟩ := lowest_decompressed hw htop.1 htop.2
    have hsame : written' = written := append_cancel_right (Option.some.inj ((hcomp' _ hbuf).symm.trans hcomp))
    have hvalues := Option.some.inj ((hdec' []).symm.trans (hsame ▸ hdec []))
    have hzero := (map_inj_left.1 hvalues) x hx
    have hbelow := Int.ediv_mul_le x (show (2 : ℤ) ^ e ≠ 0 by positivity)
    omega
  · have h8 : w < 8 := by
      by_contra h8
      exact hwide ⟨by omega, htop⟩
    exact nomatch (compress_none_of_negative hw h8 htop hx hx0 _).symm.trans hcomp

end RoundTrip

/-- compression followed by decompression rounds as stated exactly on the supported blocks -/
theorem bfp_roundTrip_iff {w : ℕ} (hw : 0 < w) (hle : w ≤ 16) (p : QuantizedPrb) : RoundTrips p w ↔ Supported p w :=
  ⟨supported_of_roundTrips hw hle, roundTrips_of_supported hw hle⟩

/-- the block 0, 1024, ..., 11264, -1, -1025, ..., -11265 -/
def rampPrb : QuantizedPrb where
  samples := (range 12).map (fun i => (1024 * i : ℤ)) ++ (range 12).map fun i => (-1024 * i - 1 : ℤ)
  length := by decide
  range := by decide

theorem bfp_roundTrip_ramp : RoundTrips rampPrb 9 :=
  (bfp_roundTrip_iff (by decide) (by decide) rampPrb).2 (Or.inr ⟨by decide, by decide⟩)

def constantPrb (x : ℤ) (h : Fits 16 x) : QuantizedPrb where
  samples := replicate nofSamplesPerPrb x
  length := length_replicate
  range := fun _ hy => eq_of_mem_replicate hy ▸ h

theorem bfp_roundTrip_fails :
    (∀ buf, compressPrbGeneric buf (constantPrb (-1) (by decide)).samples 4 = none) ∧
      ∃ written : List UInt8,
        compressPrbGeneric (List.replicate 28 0) (constantPrb (-32768) (by decide)).samples 9 = some written ∧
        decompressedSamples 9 written = some (List.replicate 24 0) := by
  refine ⟨fun buf => ?_, ?_⟩
  · refine compress_none_of_negative (x := -1) (by decide) (by decide) (fun h => ?_) ?_ (by decide) buf
    · exact absurd (h.2 (-1) (mem_replicate.2 ⟨by decide, rfl⟩)) (by decide)
    · exact mem_replicate.2 ⟨by decide, rfl⟩
  · obtain ⟨written, hcomp, hdec⟩ := lowest_decompressed (p := constantPrb (-32768) (by decide)) (w := 9) (by decide)
      (by decide) (fun x hx => eq_of_mem_replicate hx)
    refine ⟨written, by simpa using hcomp (replicate 28 0) (by simp), ?_⟩
    have h := hdec []
    rw [append_nil] at h
    rw [h]
    rfl

end OcuduRan.Ofh
