/-
Whole numbers and length determinants of the PER codec (asn1_utils.cpp, X.691 sections 10.5, 10.6 and 10.9), in the
aligned and the unaligned variant.

The code is generic in the integer type. An `IntType` gives the width and the signedness; values are integers, and what
the machine computes in a type is brought back into it by `wrap` (two's complement). The size of a bit-field is a
logarithm in float: the value is rounded to 24 digits and so is its logarithm, which just above a power of two from 2^16
on is the exponent itself. Of 0, where the conversion of the result to an integer is undefined, it is 0.
-/
import OcuduRan.Asn1.BitRef

namespace OcuduRan.Asn1

open BitStream BitRef CbitRef Coded Reads Nat

/-! ## Machine arithmetic -/

/-- the integer types the templates are instantiated with -/
inductive IntType where
  | int8
  | int16
  | int32
  | int64
  | uint8
  | uint16
  | uint32
  | uint64
deriving DecidableEq, Repr

namespace IntType

def width : IntType → ℕ
  | int8 | uint8 => 8
  | int16 | uint16 => 16
  | int32 | uint32 => 32
  | int64 | uint64 => 64

def signed : IntType → Bool
  | int8 | int16 | int32 | int64 => true
  | uint8 | uint16 | uint32 | uint64 => false

/-- std::numeric_limits<IntType>::min() -/
def min (t : IntType) : ℤ := if t.signed then -2 ^ (t.width - 1) else 0

/-- std::numeric_limits<IntType>::max() -/
def max (t : IntType) : ℤ := if t.signed then 2 ^ (t.width - 1) - 1 else 2 ^ t.width - 1

/-- conversion to the type -/
def wrap (t : IntType) (x : ℤ) : ℤ := if t.signed then x.bmod (2 ^ t.width) else x % 2 ^ t.width

/-- the type in which sums and differences of the type are computed -/
def promote : IntType → IntType
  | int8 | int16 | uint8 | uint16 => int32
  | t => t

/-- a value of the type -/
def Holds (t : IntType) (x : ℤ) : Prop := t.min ≤ x ∧ x ≤ t.max

instance (t : IntType) (x : ℤ) : Decidable (t.Holds x) := by unfold Holds; infer_instance

/-- (uint64_t)(ub - lb) + 1 -/
def range (t : IntType) (lb ub : ℤ) : ℕ := ((t.promote.wrap (ub - lb) % 2 ^ 64 + 1) % 2 ^ 64).toNat

end IntType

/-- the nearest number with `digits` significant bits, ties to even -/
def roundTo (digits n : ℕ) : ℕ :=
  let s := n.log2 + 1 - digits
  if 2 * (n % 2 ^ s) < 2 ^ s ∨ 2 * (n % 2 ^ s) = 2 ^ s ∧ n / 2 ^ s % 2 = 0 then n / 2 ^ s * 2 ^ s
  else (n / 2 ^ s + 1) * 2 ^ s

/-- (float)n -/
def toFloat (n : ℕ) : ℕ := roundTo 24 n

/-- ceil(log2(n)) -/
def ceilLog2 (n : ℕ) : ℕ := if n ≤ 1 then 0 else (n - 1).log2 + 1

/-- ceil(log2f(x)). Half a unit in the last of the 24 digits of a logarithm from k on is 1/n: it is rounded to k as long
as (x / 2^k)^n is less than 2 -/
@[irreducible] def ceilLog2f (x : ℕ) : ℕ :=
  let k := x.log2
  let n := 2 ^ (24 - k.log2)
  if x ^ n < 2 * (2 ^ k) ^ n then k else k + 1

/-- ceil_frac(n, 8u) -/
def ceilFrac8 (n : ℕ) : ℕ := (n + 7) % 2 ^ 32 / 8

def asn16K : ℕ := 16384

def asn64K : ℕ := 65536

/-! ## Constrained whole numbers -/

/-- size of the bit-field of a constrained whole number -/
def bitFieldSize (ra : ℕ) : ℕ := ceilLog2f (toFloat ra)

/-- the value on the wire, before the lower bound is added -/
def unpackOffset (w ra : ℕ) (aligned : Bool) : Unpacker ℕ :=
  let nBits := bitFieldSize ra
  if !aligned then unpack w nBits
  else if ra < 256 then unpack w nBits
  else if ra ≤ asn64K then do
    alignBytes
    let n ← unpack w (ceilFrac8 nBits * 8)
    alignBytes
    pure n
  else do
    let nBitsLen := ceilLog2 (ceilFrac8 nBits)
    let nOctets ← unpack 32 nBitsLen
    alignBytes
    unpack w ((nOctets + 1) * 8)

def unpackConstrainedWholeNumber (t : IntType) (lb ub : ℤ) (aligned : Bool) : Unpacker ℤ :=
  if ub < lb then fail .decodeFail
  else
    let ra := t.range lb ub
    if ra = 1 then pure lb
    else do
      let val ← unpackOffset t.width ra aligned
      let n := t.wrap (t.wrap val + lb)
      if n > ub then fail .decodeFail else pure n

/-! ## Normally small non-negative whole numbers -/

def packNormSmallNonNegWholeNumber (n : ℕ) : Packer :=
  if n ≤ 63 then pack n 7
  else do
    pack 1 1
    fail .encodeFail

def unpackNormSmallNonNegWholeNumber (w : ℕ) : Unpacker ℕ := do
  let ext ← unpackBool
  if !ext then unpack w 6 else fail .decodeFail

/-! ## Length determinants -/

def packLength (val : ℕ) (aligned : Bool) : Packer :=
  if !aligned then
    if val < 128 then pack val 8
    else if val < asn16K then do
      pack 0b10 2
      pack val 14
    else fail .encodeFail
  else if val > asn64K then fail .encodeFail
  else do
    alignBytesZero
    if val < 128 then pack val 8
    else if val < asn16K then do
      pack 0b10 2
      pack val 14
    else do
      pack 0b11 2
      let m := val / asn16K
      pack m 6
      pack (val - m * asn16K) 16

def unpackLength (aligned : Bool) : Unpacker ℕ :=
  if !aligned then do
    let ext ← unpackBool
    if !ext then unpack 32 7
    else do
      let ext ← unpackBool
      if !ext then unpack 32 14 else fail .decodeFail
  else do
    alignBytes
    let val ← unpack 32 8
    if val < 128 then pure val
    else
      let val := val - 128
      if val < 64 then do
        let valOctet2 ← unpack 32 8
        pure ((val <<< 8 + valOctet2) % 2 ^ 32)
      else fail .decodeFail

/-- unpack_length with bounds -/
def unpackLengthBounded (t : IntType) (lb ub : ℤ) (aligned : Bool) : Unpacker ℤ :=
  if ub ≥ asn64K then do
    let len ← unpackLength aligned
    pure (t.wrap len)
  else unpackConstrainedWholeNumber t lb ub aligned

/-! ## Facts about the arithmetic -/

namespace IntType

variable {t : IntType} {x y : ℤ}

theorem wrap_of_holds (h : t.Holds x) : t.wrap x = x := by
  unfold Holds at h
  cases t <;> simp only [min, max, wrap, width, signed, if_true, Bool.false_eq_true, if_false, Int.bmod] at h ⊢ <;>
    omega

theorem wrap_wrap_add (t : IntType) (x y : ℤ) : t.wrap (t.wrap x + y) = t.wrap (x + y) := by
  cases t <;> simp only [wrap, width, signed, if_true, Bool.false_eq_true, if_false, Int.bmod] <;> omega

/-- past the maximum of the type -/
theorem wrap_of_max_lt (hlt : t.max < x) (hle : x ≤ t.max + 2 ^ t.width) : t.wrap x = x - 2 ^ t.width := by
  cases t <;> simp only [max, wrap, width, signed, if_true, Bool.false_eq_true, if_false, Int.bmod] at hlt hle ⊢ <;>
    omega

theorem min_add_two_pow (t : IntType) : t.min + 2 ^ t.width = t.max + 1 := by
  cases t <;> decide

theorem range_eq_one_iff {lb ub : ℤ} (hlb : t.Holds lb) (hub : t.Holds ub) (hle : lb ≤ ub) :
    t.range lb ub = 1 ↔ lb = ub := by
  unfold Holds at hlb hub
  cases t <;>
    simp only [min, max, range, promote, wrap, width, signed, if_true, Bool.false_eq_true, if_false,
      Int.bmod] at hlb hub ⊢ <;>
    omega

theorem holds_uint32 {n : ℕ} (h : n < 2 ^ 32) : IntType.uint32.Holds n :=
  ⟨Int.natCast_nonneg n, by show (n : ℤ) ≤ 2 ^ 32 - 1; omega⟩

/-- a range of at most 64K is what it is in every type -/
theorem range_eq {lb ub : ℤ} (hlb : t.Holds lb) (hub : t.Holds ub) (hle : lb ≤ ub) (hlt : ub - lb < 2 ^ 31) :
    (t.range lb ub : ℤ) = ub - lb + 1 := by
  cases t <;>
    simp only [range, promote, wrap, width, signed, if_true, Bool.false_eq_true, if_false, Int.bmod] at hlb hub ⊢ <;>
    omega

end IntType

theorem ceilLog2_le_iff (n k : ℕ) : ceilLog2 n ≤ k ↔ n ≤ 2 ^ k := by
  unfold ceilLog2
  have hpos := Nat.two_pow_pos k
  split_ifs with h
  · exact ⟨fun _ => h.trans hpos, fun _ => zero_le k⟩
  · rw [add_one_le_iff, log2_lt (by omega)]
    omega

theorem roundTo_of_lt {digits n : ℕ} (h : n < 2 ^ digits) : roundTo digits n = n := by
  by_cases hz : n = 0
  · simp [roundTo, hz]
  · have hs : n.log2 + 1 - digits = 0 := by
      have := (log2_lt hz).2 h
      omega
    unfold roundTo
    rw [hs]
    simp [mod_one]

theorem ceilLog2f_le {x k : ℕ} (h : x ≤ 2 ^ k) : ceilLog2f x ≤ k := by
  unfold ceilLog2f
  obtain hlt | rfl := h.lt_or_eq
  · by_cases hz : x = 0
    · subst hz
      simp
    · have hlog := (log2_lt hz).2 hlt
      dsimp only
      split_ifs <;> omega
  · have hpos : 0 < (2 ^ k) ^ 2 ^ (24 - k.log2) := by positivity
    rw [log2_two_pow]
    dsimp only
    rw [if_pos (by omega)]

/-- up to 2^24 the float is exact -/
theorem bitFieldSize_le {ra k : ℕ} (hra : ra < 2 ^ 24) (h : ra ≤ 2 ^ k) : bitFieldSize ra ≤ k := by
  rw [bitFieldSize, toFloat, roundTo_of_lt hra]
  exact ceilLog2f_le h

/-- one bit less than the range needs -/
example : bitFieldSize 2097153 = 21 ∧ ceilLog2 2097153 = 22 := by decide +kernel

/-! ## Length determinants on the wire -/

/-- the one-octet and the two-octet form -/
def lengthBits (n : ℕ) : List Bool := if n < 128 then natBits 8 n else natBits 16 (2 ^ 15 + n)

/-- what an aligned field begins with -/
def alignment (aligned : Bool) (p : ℕ) : List Bool := if aligned then List.replicate (padding p) false else []

theorem natBits_eight {n : ℕ} (h : n < 128) : natBits 8 n = false :: natBits 7 n := by
  rw [natBits, testBit_lt_two_pow h]

theorem natBits_sixteen {n : ℕ} (h : n < 2 ^ 14) : natBits 16 (2 ^ 15 + n) = true :: false :: natBits 14 n := by
  have h15 : natBits 15 (2 ^ 15 + n) = natBits 15 n := by rw [← natBits_mod, add_mod_left, natBits_mod]
  have hbit : (2 ^ 15 + n).testBit 15 = true := by
    rw [testBit_two_pow_add_eq, testBit_lt_two_pow (by omega)]
    rfl
  rw [natBits, hbit, h15, natBits, testBit_lt_two_pow h]

theorem Writes.packLength {n : ℕ} (h : n < asn16K) (aligned : Bool) (p : ℕ) :
    Writes (packLength n aligned) p (alignment aligned p ++ lengthBits n) := by
  have hshort (hn : n < 128) (q : ℕ) : Writes (BitRef.pack n 8) q (lengthBits n) := by
    rw [lengthBits, if_pos hn]
    exact Writes.pack (by decide) q
  have hlong (hn : ¬n < 128) (q : ℕ) : Writes (do BitRef.pack 0b10 2; BitRef.pack n 14) q (lengthBits n) := by
    rw [lengthBits, if_neg hn, natBits_sixteen h]
    exact (Writes.pack (v := 0b10) (n := 2) (by decide) q).bind (Writes.pack (by decide) _)
  unfold Asn1.packLength alignment
  cases aligned with
  | false =>
    simp only [Bool.not_false, if_true, if_pos h, Bool.false_eq_true, if_false, List.nil_append]
    split_ifs with hn
    · exact hshort hn p
    · exact hlong hn p
  | true =>
    have h64 : ¬n > asn64K := by
      unfold asn16K at h
      unfold asn64K
      omega
    simp only [Bool.not_true, Bool.false_eq_true, if_false, if_true, if_neg h64, if_pos h]
    refine (Writes.alignBytesZero p).bind ?_
    split_ifs with hn
    · exact hshort hn _
    · exact hlong hn _

/-- the reader does not look at the bits it aligns over -/
theorem Reads.unpackLength {n : ℕ} (h : n < asn16K) (aligned : Bool) (p : ℕ) {pad : List Bool}
    (hpad : pad.length = (alignment aligned p).length) : Reads (unpackLength aligned) p (pad ++ lengthBits n) n := by
  unfold Asn1.unpackLength lengthBits
  cases aligned with
  | false =>
    obtain rfl := List.length_eq_zero_iff.1 hpad
    simp only [Bool.not_false, if_true, List.nil_append]
    split_ifs with hn
    · rw [natBits_eight hn]
      exact (unpackBool p false).bind (unpack_lt (by decide) hn _)
    · rw [natBits_sixteen h]
      exact (unpackBool p true).bind ((unpackBool _ false).bind (unpack_lt (by decide) h _))
  | true =>
    simp only [Bool.not_true, Bool.false_eq_true, if_false]
    refine (alignBytes p pad (hpad.trans List.length_replicate)).bind ?_
    unfold asn16K at h
    split_ifs with hn
    · refine (unpack_lt (by decide) (by omega) _).bind_last ?_
      rw [if_pos hn]
      exact pure _ n
    · -- the octet with the two marker bits, then the low octet
      have hhigh : (2 ^ 15 + n) >>> 8 = 128 + n / 256 := by
        rw [shiftRight_eq_div_pow]
        omega
      rw [natBits_add 8 8, hhigh, ← natBits_mod 8 (2 ^ 15 + n)]
      refine (unpack_lt (by decide) (by omega) _).bind ?_
      rw [if_neg (by omega), if_pos (by omega)]
      refine (unpack_lt (v := (2 ^ 15 + n) % 2 ^ 8) (by decide) (by omega) _).bind_last ?_
      have hval : ((128 + n / 256 - 128) <<< 8 + (2 ^ 15 + n) % 2 ^ 8) % 2 ^ 32 = n := by
        rw [shiftLeft_eq]
        omega
      rw [hval]
      exact pure _ n

/-- a length that was read, and the bits it was read from -/
theorem unpackLength_ok {aligned : Bool} {r r' : CbitRef} {n : ℕ} (h : r.Valid)
    (hok : unpackLength aligned r = (.ok n, r')) :
    ∃ pad bits, pad.length = (if aligned then padding r.pos else 0) ∧ r.Took (pad ++ bits) r' ∧
      (n < 128 ∧ bits = natBits 8 n ∨ n < asn16K ∧ bits = natBits 16 (2 ^ 15 + n)) := by
  unfold unpackLength at hok
  cases aligned with
  | false =>
    simp only [Bool.not_false, if_true] at hok
    obtain ⟨ext, r₁, h₁, hok⟩ := bind_eq_ok.1 hok
    have htook := h.unpackBool_ok h₁
    cases ext with
    | false =>
      simp only [Bool.not_false, if_true] at hok
      obtain ⟨-, hlt, htook'⟩ := (htook.valid h).unpack_ok hok
      refine ⟨[], natBits 8 n, rfl, ?_, .inl ⟨hlt, rfl⟩⟩
      rw [natBits_eight hlt]
      exact htook.trans htook'
    | true =>
      simp only [Bool.not_true, Bool.false_eq_true, if_false] at hok
      obtain ⟨ext, r₂, h₂, hok⟩ := bind_eq_ok.1 hok
      have htook₂ := (htook.valid h).unpackBool_ok h₂
      have htook₁₂ := htook.trans htook₂
      cases ext with
      | false =>
        simp only [Bool.not_false, if_true] at hok
        obtain ⟨-, hlt, htook'⟩ := (htook₁₂.valid h).unpack_ok hok
        refine ⟨[], natBits 16 (2 ^ 15 + n), rfl, ?_, .inr ⟨hlt, rfl⟩⟩
        rw [natBits_sixteen hlt]
        exact htook₁₂.trans htook'
      | true => cases hok
  | true =>
    simp only [Bool.not_true, Bool.false_eq_true, if_false] at hok
    obtain ⟨_, r₁, h₁, hok⟩ := bind_eq_ok.1 hok
    obtain ⟨pad, hpad, htook⟩ := h.alignBytes_ok h₁
    obtain ⟨val, r₂, h₂, hok⟩ := bind_eq_ok.1 hok
    obtain ⟨-, hval, htook₂⟩ := (htook.valid h).unpack_ok h₂
    have htook₁₂ := htook.trans htook₂
    split_ifs at hok with hshort hlong
    · obtain ⟨hn, rfl⟩ := Prod.mk.inj hok
      obtain rfl := Except.ok.inj hn
      exact ⟨pad, _, hpad, htook₁₂, .inl ⟨hshort, rfl⟩⟩
    · obtain ⟨val₂, r₃, h₃, hok⟩ := bind_eq_ok.1 hok
      obtain ⟨-, hval₂, htook₃⟩ := (htook₁₂.valid h).unpack_ok h₃
      obtain ⟨hn, rfl⟩ := Prod.mk.inj hok
      have hsum : n = (val - 128) * 256 + val₂ := by
        rw [← Except.ok.inj hn, shiftLeft_eq]
        omega
      refine ⟨pad, natBits 16 (2 ^ 15 + n), hpad, ?_, .inr ⟨?_, rfl⟩⟩
      · have hhigh : (2 ^ 15 + n) >>> 8 = val := by
          rw [shiftRight_eq_div_pow]
          omega
        have hlow : (2 ^ 15 + n) % 2 ^ 8 = val₂ := by omega
        rw [natBits_add 8 8, hhigh, ← natBits_mod 8 (2 ^ 15 + n), hlow, ← List.append_assoc]
        exact htook₁₂.trans htook₃
      · unfold asn16K
        omega
    · cases hok

end OcuduRan.Asn1
