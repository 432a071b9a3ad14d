/-
Packed bits in a span of bytes (`bit_buffer` of include/ocudu/adt/bit_buffer.h), most significant bit first.

`insert` writes the `count` low bits of a value at a bit position, with the masks and shifts of the source and the same
three cases: aligned, inside one byte, across two bytes. A failing assertion is `none`. `insert_bits` says what it does
to the buffer as one string of bits; users need nothing else.
-/
import OcuduRan.Core.Bits
import OcuduRan.Core.BitStream

namespace OcuduRan.BitBuffer

open Bits BitStream Nat List

/-! ## Model -/

/-- `mask_msb_zeros<uint8_t>` -/
def maskMsbZeros (n : ℕ) : ℕ := if n ≥ 8 then 0 else 255 >>> n

def maskLsbOnes (n : ℕ) : ℕ := maskMsbZeros (8 - n)

def maskMsbOnes (n : ℕ) : ℕ := 255 - maskMsbZeros n

def byteAt (buf : List UInt8) (i : ℕ) : ℕ := (buf.getD i 0).toNat

def insert (buf : List UInt8) (value startpos count : ℕ) : Option (List UInt8) :=
  if count ≤ 8 ∧ value < 2 ^ count ∧ startpos + count ≤ 8 * buf.length ∧ value ≤ maskLsbOnes count then
    let startWord := startpos / 8
    let startMod := startpos % 8
    if startMod = 0 then
      some (buf.set startWord
        (UInt8.ofNat ((byteAt buf startWord &&& maskMsbZeros count) ||| value <<< (8 - count))))
    else if startMod + count ≤ 8 then
      some (buf.set startWord
        (UInt8.ofNat ((byteAt buf startWord &&& (maskMsbOnes startMod ||| maskLsbOnes (8 - startMod - count))) |||
          value <<< (8 - startMod - count))))
    else
      some ((buf.set startWord
        (UInt8.ofNat ((byteAt buf startWord &&& maskMsbOnes startMod) ||| value >>> (startMod + count - 8)))).set
        (startWord + 1)
        (UInt8.ofNat ((byteAt buf (startWord + 1) &&& maskMsbZeros (startMod + count - 8)) |||
          value <<< (16 - startMod - count))))
  else none

/-! ## Masks and fields -/

variable {n x m v b : ℕ}

theorem maskMsbZeros_eq (h : n ≤ 8) : maskMsbZeros n = 2 ^ (8 - n) - 1 := by
  interval_cases n <;> rfl

theorem maskLsbOnes_eq (h : n ≤ 8) : maskLsbOnes n = 2 ^ n - 1 := by
  interval_cases n <;> rfl

theorem maskMsbOnes_eq (h : n ≤ 8) : maskMsbOnes n = (2 ^ n - 1) <<< (8 - n) := by
  interval_cases n <;> rfl

/-- a field in front of another -/
theorem natBits_concat {y k : ℕ} (hn : n = m + k) (h : y < 2 ^ k) :
    natBits n (x <<< k ||| y) = natBits m x ++ natBits k y := by
  have hhigh : (x <<< k ||| y) >>> k = x := by
    rw [shl_or _ h, Nat.shiftRight_eq_div_pow, Nat.mul_comm, Nat.mul_add_div (Nat.two_pow_pos k), Nat.div_eq_of_lt h,
      add_zero]
  have hlow : (x <<< k ||| y) % 2 ^ k = y := by
    rw [shl_or _ h, mul_comm, mul_add_mod, mod_eq_of_lt h]
  rw [hn, natBits_add, hhigh, ← natBits_mod k, hlow]

theorem take_natBits (h : m ≤ n) : (natBits n v).take m = natBits m (v >>> (n - m)) := by
  obtain ⟨k, rfl⟩ := Nat.exists_eq_add_of_le h
  rw [natBits_add, take_left' (length_natBits _ _), Nat.add_sub_cancel_left]

theorem drop_natBits (h : m ≤ n) : (natBits n v).drop m = natBits (n - m) v := by
  obtain ⟨k, rfl⟩ := Nat.exists_eq_add_of_le h
  rw [natBits_add, drop_left' (length_natBits _ _), Nat.add_sub_cancel_left]

/-- the high bits of a byte, kept where they are -/
theorem and_maskMsbOnes (hb : b < 256) (hn : n ≤ 8) : b &&& maskMsbOnes n = (b >>> (8 - n)) <<< (8 - n) := by
  have hlow : b % 2 ^ (8 - n) &&& (2 ^ n - 1) <<< (8 - n) = 0 := by
    apply eq_of_testBit_eq
    intro i
    rw [testBit_and, testBit_mod_two_pow, testBit_shiftLeft, zero_testBit]
    by_cases hi : i < 8 - n
    · simp [show ¬ 8 - n ≤ i by omega]
    · simp [hi]
  have hsplit : (b >>> (8 - n)) <<< (8 - n) ||| b % 2 ^ (8 - n) = b := by
    rw [shl_or _ (Nat.mod_lt _ (Nat.two_pow_pos _)), Nat.shiftRight_eq_div_pow, Nat.mul_comm, Nat.div_add_mod]
  have hlt : b >>> (8 - n) < 2 ^ n := by
    rw [shiftRight_eq_div_pow]
    apply Nat.div_lt_of_lt_mul
    rw [← Nat.pow_add, show 8 - n + n = 8 by omega]
    exact hb
  rw [maskMsbOnes_eq hn]
  conv_lhs => rw [← hsplit]
  rw [and_or_distrib_right, hlow, or_zero, shl_and, mod_eq_of_lt hlt]

/-- truncation to a byte does not change its bits -/
theorem natBits_ofNat (x : ℕ) : natBits 8 (UInt8.ofNat x).toNat = natBits 8 x := by
  rw [UInt8.toNat_ofNat']
  exact natBits_mod 8 x

theorem mod_two_pow_lt (x k : ℕ) : x % 2 ^ k < 2 ^ k := Nat.mod_lt _ (Nat.two_pow_pos k)

theorem shiftRight_lt {a : ℕ} (h : x < 2 ^ (a + b)) : x >>> a < 2 ^ b := by
  rw [shiftRight_eq_div_pow]
  apply Nat.div_lt_of_lt_mul
  rw [← Nat.pow_add]
  exact h

section Byte

variable {b value count m : ℕ}

/-- the byte with the field at its start -/
theorem natBits_aligned (hle : count ≤ 8) : natBits 8 ((b &&& maskMsbZeros count) ||| value <<< (8 - count)) =
      natBits count value ++ natBits (8 - count) b := by
  rw [maskMsbZeros_eq hle, and_mask, Nat.or_comm, natBits_concat (m := count) (by omega) (mod_two_pow_lt _ _),
    natBits_mod]

/-- the byte with the field behind its first `m` bits -/
theorem natBits_inside (hb : b < 256) (hv : value < 2 ^ count) (hone : m + count ≤ 8) :
    natBits 8 ((b &&& (maskMsbOnes m ||| maskLsbOnes (8 - m - count))) ||| value <<< (8 - m - count)) =
      natBits m (b >>> (8 - m)) ++ natBits count value ++ natBits (8 - m - count) b := by
  have hmid : value <<< (8 - m - count) ||| b % 2 ^ (8 - m - count) < 2 ^ (8 - m) := by
    apply Nat.or_lt_two_pow
    · rw [Nat.shiftLeft_eq, show 8 - m = count + (8 - m - count) by omega, Nat.pow_add,
        show count + (8 - m - count) - count = 8 - m - count by omega]
      exact Nat.mul_lt_mul_of_pos_right hv (Nat.two_pow_pos _)
    · exact lt_of_lt_of_le (mod_two_pow_lt _ _) (Nat.pow_le_pow_right (by norm_num) (by omega))
  rw [Nat.and_or_distrib_left, and_maskMsbOnes hb (by omega), maskLsbOnes_eq (by omega), and_mask, Nat.or_assoc,
    Nat.or_comm (b % _), natBits_concat (m := m) (by omega) hmid,
    natBits_concat (m := count) (by omega) (mod_two_pow_lt _ _), natBits_mod, append_assoc]

/-- the first byte of a field that goes on in the next one -/
theorem natBits_first (hb : b < 256) (hv : value < 2 ^ count) (hm : m ≤ 8) (htwo : 8 < m + count) :
    natBits 8 ((b &&& maskMsbOnes m) ||| value >>> (m + count - 8)) =
      natBits m (b >>> (8 - m)) ++ natBits (8 - m) (value >>> (m + count - 8)) := by
  have hlow : value >>> (m + count - 8) < 2 ^ (8 - m) :=
    shiftRight_lt (by rw [show m + count - 8 + (8 - m) = count by omega]; exact hv)
  rw [and_maskMsbOnes hb hm, natBits_concat (m := m) (by omega) hlow]

end Byte

/-! ## The buffer as a string of bits -/

section

variable (pre post : List UInt8) (b : UInt8)

/-- a byte in the middle of the buffer -/
theorem bitsOf_middle : bitsOf (pre ++ b :: post) = bitsOf pre ++ natBits 8 b.toNat ++ bitsOf post := by
  rw [bitsOf_append, bitsOf_cons, append_assoc]

theorem take_bitsOf (h : m ≤ 8) :
    (bitsOf (pre ++ b :: post)).take (8 * pre.length + m) = bitsOf pre ++ natBits m (b.toNat >>> (8 - m)) := by
  rw [bitsOf_middle, append_assoc, ← length_bitsOf, take_length_add_append,
    take_append_of_le_length (by simpa using h), take_natBits h]

theorem drop_bitsOf (h : m ≤ 8) :
    (bitsOf (pre ++ b :: post)).drop (8 * pre.length + m) = natBits (8 - m) b.toNat ++ bitsOf post := by
  rw [bitsOf_middle, append_assoc, ← length_bitsOf, drop_length_add_append,
    drop_append_of_le_length (by simpa using h), drop_natBits h]

theorem byteAt_middle : byteAt (pre ++ b :: post) pre.length = b.toNat := by
  simp [byteAt]

end

theorem byteAt_next (pre rest : List UInt8) (b c : UInt8) :
    byteAt (pre ++ b :: c :: rest) (pre.length + 1) = c.toNat := by
  simp [byteAt]

/-- a position inside the buffer splits it at its byte -/
theorem exists_split {buf : List UInt8} {i : ℕ} (h : i < buf.length) :
    ∃ pre b post, buf = pre ++ b :: post ∧ pre.length = i := by
  refine ⟨buf.take i, buf[i], buf.drop (i + 1), ?_, by simp; omega⟩
  rw [← drop_eq_getElem_cons h, take_append_drop]

/-- a field that does not fit in the byte it starts in is followed by another byte -/
theorem exists_next {pre post : List UInt8} {b : UInt8} {count : ℕ} (htwo : 8 < m + count)
    (hr : 8 * pre.length + m + count ≤ 8 * (pre ++ b :: post).length) : ∃ c rest, post = c :: rest := by
  rcases post with - | ⟨c, rest⟩
  · simp only [length_append, length_cons, length_nil] at hr
    omega
  · exact ⟨c, rest, rfl⟩

variable {buf : List UInt8} {value startpos count : ℕ}

/-- an insert replaces the bits of its field and no others -/
theorem insert_bits (hc : 0 < count) (hle : count ≤ 8) (hv : value < 2 ^ count)
    (hr : startpos + count ≤ 8 * buf.length) :
    ∃ buf', insert buf value startpos count = some buf' ∧ buf'.length = buf.length ∧
      bitsOf buf' = (bitsOf buf).take startpos ++ natBits count value ++ (bitsOf buf).drop (startpos + count) := by
  have hmask : value ≤ maskLsbOnes count := by rw [maskLsbOnes_eq hle]; omega
  obtain ⟨pre, b, post, rfl, hpre⟩ := exists_split (show startpos / 8 < buf.length by omega)
  have hpos : startpos = 8 * pre.length + startpos % 8 := by rw [hpre]; omega
  have hmod : startpos % 8 < 8 := mod_lt _ (by norm_num)
  have hb : b.toNat < 256 := b.toNat_lt
  unfold insert
  rw [if_pos ⟨hle, hv, hr, hmask⟩]
  dsimp only
  rw [← hpre, byteAt_middle]
  generalize startpos % 8 = m at hpos hmod ⊢
  subst hpos
  rcases Nat.eq_zero_or_pos m with rfl | hm
  · refine ⟨pre ++ UInt8.ofNat ((b.toNat &&& maskMsbZeros count) ||| value <<< (8 - count)) :: post,
      by simp, by simp, ?_⟩
    rw [bitsOf_middle, natBits_ofNat, natBits_aligned hle, take_bitsOf _ _ _ (zero_le 8), add_assoc,
      drop_bitsOf _ _ _ (by omega : 0 + count ≤ 8)]
    simp [natBits]
  rw [if_neg (by omega)]
  by_cases hone : m + count ≤ 8
  · refine ⟨pre ++ UInt8.ofNat ((b.toNat &&& (maskMsbOnes m ||| maskLsbOnes (8 - m - count))) |||
      value <<< (8 - m - count)) :: post, by simp [hone], by simp, ?_⟩
    rw [bitsOf_middle, natBits_ofNat, natBits_inside hb hv hone, take_bitsOf _ _ _ (by omega), add_assoc,
      drop_bitsOf _ _ _ hone, show 8 - (m + count) = 8 - m - count by omega]
    simp
  · obtain ⟨c, rest, rfl⟩ := exists_next (by omega) hr
    refine ⟨pre ++ UInt8.ofNat ((b.toNat &&& maskMsbOnes m) ||| value >>> (m + count - 8)) ::
      UInt8.ofNat ((c.toNat &&& maskMsbZeros (m + count - 8)) ||| value <<< (16 - m - count)) :: rest,
      by rw [if_neg hone, byteAt_next]; simp, by simp, ?_⟩
    have hfield : natBits count value =
        natBits (8 - m) (value >>> (m + count - 8)) ++ natBits (m + count - 8) value := by
      rw [← natBits_add, show 8 - m + (m + count - 8) = count by omega]
    have hsecond : natBits 8 ((c.toNat &&& maskMsbZeros (m + count - 8)) ||| value <<< (8 - (m + count - 8))) = _ :=
      natBits_aligned (by omega)
    rw [show 8 - (m + count - 8) = 16 - m - count by omega] at hsecond
    have hdrop := drop_bitsOf (pre ++ [b]) rest c (show m + count - 8 ≤ 8 by omega)
    rw [show 8 * (pre ++ [b]).length + (m + count - 8) = 8 * pre.length + m + count by simp; omega,
      show 8 - (m + count - 8) = 16 - m - count by omega, append_assoc, singleton_append] at hdrop
    rw [bitsOf_middle, bitsOf_cons, natBits_ofNat, natBits_ofNat, natBits_first hb hv hmod.le (by omega), hsecond,
      hdrop, take_bitsOf _ _ _ hmod.le, hfield]
    simp

/-- a value that is too wide fails the assertion -/
theorem insert_none (h : ¬ value < 2 ^ count) : insert buf value startpos count = none :=
  if_neg fun hc => h hc.2.1

end OcuduRan.BitBuffer
