/-
bit_decoder (support/bit_encoding.h, bit_encoding.cpp): bits out of a byte buffer.

Between two calls a decoder has read the first p bits of its buffer: it is `after buffer p`. There `unpack` gives the
next bits as a number (`unpack_after`), and at the end of the buffer it gives zero and fails (`unpack_end`). The value
is assembled in 64 bits and narrowed to the type of the variable by the caller; a value that was not read in full is
stored all the same. The loop is that of cbit_ref::unpack, from which its meaning is taken (`unpackLoop_of_ref`).
-/
import OcuduRan.Asn1.BitRef

namespace OcuduRan.Support

open BitStream List
open Asn1 (CbitRef)

/-- a byte_buffer_view: where it starts in its buffer, and the bytes in it -/
structure BufferView where
  first : ℕ
  bytes : List UInt8
deriving DecidableEq, Repr

namespace BufferView

def empty : BufferView := ⟨0, []⟩

def length (v : BufferView) : ℕ := v.bytes.length

end BufferView

structure BitDecoder where
  buffer : List UInt8
  it : ℕ
  offset : ℕ
deriving DecidableEq, Repr

/-- what unpack gives: success, the value, the decoder behind it -/
structure Unpacked where
  ok : Bool
  val : ℕ
  next : BitDecoder
deriving DecidableEq, Repr

namespace BitDecoder

def ofBuffer (buffer : List UInt8) : BitDecoder := ⟨buffer, 0, 0⟩

def nofBytes (d : BitDecoder) : ℕ := d.it + if d.offset ≠ 0 then 1 else 0

/-- the loop of unpack, with what was assembled so far -/
def unpackLoop : ℕ → ℕ → ℕ → BitDecoder → Unpacked
  | 0, acc, _, d => ⟨true, acc, d⟩
  | fuel + 1, acc, nBits, d =>
    if nBits = 0 then ⟨true, acc, d⟩
    else if d.it = d.buffer.length then ⟨false, acc, d⟩
    else
      let b := (d.buffer.getD d.it 0).toNat
      if 8 - d.offset > nBits then
        ⟨true, (acc +
          (b &&& ((2 ^ (8 - d.offset) - 2 ^ (8 - d.offset - nBits)) % 2 ^ 8)) >>> (8 - d.offset - nBits)) % 2 ^ 64,
          { d with offset := d.offset + nBits }⟩
      else
        unpackLoop fuel ((acc + (b &&& ((2 ^ (8 - d.offset) - 1) % 2 ^ 8)) <<< (nBits + d.offset - 8)) % 2 ^ 64)
          (nBits - (8 - d.offset)) { d with it := d.it + 1, offset := 0 }

def unpack (nBits : ℕ) (d : BitDecoder) : Unpacked := unpackLoop nBits 0 nBits d

def alignBytes (d : BitDecoder) : BitDecoder := if d.offset ≠ 0 then { d with it := d.it + 1, offset := 0 } else d

/-- a view of the next `nBytes` bytes; an empty one, and no advance, if there are fewer -/
def unpackAlignedBytes (nBytes : ℕ) (d : BitDecoder) : BufferView × BitDecoder :=
  let d := d.alignBytes
  if nBytes = 0 then (.empty, d)
  else if nBytes > d.buffer.length - d.it then (.empty, d)
  else (⟨d.it, (d.buffer.drop d.it).take nBytes⟩, { d with it := d.it + nBytes })

/-- the decoder that has read `p` bits -/
def after (buffer : List UInt8) (p : ℕ) : BitDecoder := ⟨buffer, p / 8, p % 8⟩

/-- as a cbit_ref -/
def toRef (d : BitDecoder) : CbitRef := ⟨d.buffer, 0, d.buffer.length, d.it, d.offset⟩

/-- where cbit_ref::unpack succeeds, so does bit_decoder::unpack, with the same value -/
theorem unpackLoop_of_ref {fuel acc nBits val : ℕ} {d : BitDecoder} {r : CbitRef}
    (h : CbitRef.unpackLoop 64 fuel acc nBits d.toRef = (.ok val, r)) :
    unpackLoop fuel acc nBits d = ⟨true, val, ⟨d.buffer, r.it, r.offset⟩⟩ := by
  induction fuel generalizing acc nBits d with
  | zero =>
    obtain ⟨rfl, rfl⟩ : acc = val ∧ d.toRef = r := by simpa [CbitRef.unpackLoop] using h
    rfl
  | succ fuel ih =>
    simp only [CbitRef.unpackLoop] at h
    simp only [unpackLoop]
    by_cases hz : nBits = 0
    · rw [if_pos hz] at h ⊢
      obtain ⟨rfl, rfl⟩ : acc = val ∧ d.toRef = r := by simpa using h
      rfl
    rw [if_neg hz] at h ⊢
    by_cases hend : d.it = d.buffer.length
    · have hstop : d.toRef.it = d.toRef.stop := hend
      rw [if_pos hstop] at h
      cases h
    have hstop : ¬d.toRef.it = d.toRef.stop := hend
    rw [if_neg hstop] at h
    rw [if_neg hend]
    by_cases hlast : 8 - d.offset > nBits
    · have hlast' : 8 - d.toRef.offset > nBits := hlast
      rw [if_pos hlast'] at h
      rw [if_pos hlast]
      obtain ⟨rfl, rfl⟩ := Prod.mk.inj h |>.imp Except.ok.inj id
      rfl
    · have hlast' : ¬8 - d.toRef.offset > nBits := hlast
      rw [if_neg hlast'] at h
      rw [if_neg hlast]
      exact @ih _ _ { d with it := d.it + 1, offset := 0 } h

section After

variable {buffer : List UInt8} {p n i : ℕ}

theorem toRef_after (buffer : List UInt8) (p : ℕ) : (after buffer p).toRef = (CbitRef.ofBuffer buffer).skip p := by
  have hpos : (CbitRef.ofBuffer buffer).pos + p = p := by
    show 8 * 0 + 0 + p = p
    omega
  unfold CbitRef.skip
  rw [hpos]
  rfl

/-- the next bits as a number -/
theorem unpack_after (hn : n ≤ 64) (h : p + n ≤ 8 * buffer.length) :
    (after buffer p).unpack n = ⟨true, ofBits (((bitsOf buffer).drop p).take n), after buffer (p + n)⟩ := by
  have hlen : (CbitRef.ofBuffer buffer).rest.length = 8 * buffer.length := by
    rw [CbitRef.rest_ofBuffer, length_bitsOf]
  have hvalid : ((CbitRef.ofBuffer buffer).skip p).Valid := (CbitRef.valid_ofBuffer buffer).skip (by omega)
  have hrest : ((CbitRef.ofBuffer buffer).skip p).rest = (bitsOf buffer).drop p := by
    rw [CbitRef.rest_skip, CbitRef.rest_ofBuffer]
  have hroom : n ≤ ((CbitRef.ofBuffer buffer).skip p).rest.length := by
    rw [hrest, length_drop, length_bitsOf]
    omega
  have hpow : 0 + 2 ^ n ≤ 2 ^ 64 := by
    rw [Nat.zero_add]
    exact Nat.pow_le_pow_right (by decide) hn
  have hloop := hvalid.unpackLoop_eq (w := 64) 0 (le_refl n) hpow
  rw [if_pos hroom, hrest, Nat.zero_add, CbitRef.skip_skip, ← toRef_after, ← toRef_after] at hloop
  exact unpackLoop_of_ref hloop

theorem unpack_next (hn : n ≤ 64) (h : p + n ≤ 8 * buffer.length) :
    ((after buffer p).unpack n).next = after buffer (p + n) := by
  rw [unpack_after hn h]

/-- a number that was packed -/
theorem unpack_natBits {v : ℕ} {rest : List Bool} (hn : n ≤ 64) (hv : v < 2 ^ n)
    (h : (bitsOf buffer).drop p = natBits n v ++ rest) :
    (after buffer p).unpack n = ⟨true, v, after buffer (p + n)⟩ ∧ (bitsOf buffer).drop (p + n) = rest := by
  have hlen := congrArg length h
  rw [length_drop, length_bitsOf, length_append, length_natBits] at hlen
  have hdrop : (bitsOf buffer).drop (p + n) = rest := by
    rw [← drop_drop, h, drop_left' (length_natBits n v)]
  refine ⟨?_, hdrop⟩
  by_cases hz : n = 0
  · subst hz
    obtain rfl : v = 0 := Nat.lt_one_iff.1 hv
    rfl
  · rw [unpack_after hn (by omega), h, take_left' (length_natBits n v), ofBits_natBits, Nat.mod_eq_of_lt hv]

/-- nothing is left -/
theorem unpack_end (hn : n ≠ 0) : (after buffer (8 * buffer.length)).unpack n =
    ⟨false, 0, after buffer (8 * buffer.length)⟩ := by
  obtain ⟨n, rfl⟩ := Nat.exists_eq_succ_of_ne_zero hn
  have hit : (after buffer (8 * buffer.length)).it = (after buffer (8 * buffer.length)).buffer.length :=
    Nat.mul_div_cancel_left _ (by decide)
  unfold unpack
  simp only [unpackLoop]
  rw [if_neg hn, if_pos hit]

theorem after_octet (buffer : List UInt8) (i : ℕ) : after buffer (8 * i) = ⟨buffer, i, 0⟩ := by
  unfold after
  rw [Nat.mul_div_cancel_left _ (by decide), Nat.mul_mod_right]

theorem nofBytes_octet (buffer : List UInt8) (i : ℕ) : (after buffer (8 * i)).nofBytes = i := by
  rw [after_octet]
  rfl

/-- a whole octet -/
theorem unpack_octet (h : i < buffer.length) :
    (after buffer (8 * i)).unpack 8 = ⟨true, (buffer.getD i 0).toNat, after buffer (8 * (i + 1))⟩ := by
  have hbits : (bitsOf buffer).drop (8 * i) = bitsOf (buffer.drop i) := by
    rw [CbitRef.drop_bitsOf, Nat.mul_div_cancel_left _ (by decide), Nat.mul_mod_right, drop_zero]
  have hval : ofBits (((bitsOf buffer).drop (8 * i)).take 8) = (buffer.getD i 0).toNat := by
    rw [hbits, drop_eq_getElem_cons h, bitsOf_cons, take_left' (length_natBits _ _), ofBits_natBits,
      Nat.mod_eq_of_lt (UInt8.toNat_lt _), getD_eq_getElem?_getD, getElem?_eq_getElem h, Option.getD_some]
  rw [unpack_after (by decide) (by omega), hval]
  rfl

theorem unpackAlignedBytes_octet (h : n ≠ 0) (hroom : i + n ≤ buffer.length) :
    (after buffer (8 * i)).unpackAlignedBytes n = (⟨i, (buffer.drop i).take n⟩, after buffer (8 * (i + n))) := by
  have hfit : ¬n > buffer.length - i := by omega
  rw [after_octet, after_octet]
  unfold unpackAlignedBytes alignBytes
  simp only [ne_eq, not_true_eq_false, if_false, if_neg h, if_neg hfit]

theorem unpackAlignedBytes_short (hi : i ≤ buffer.length) (hroom : buffer.length < i + n) :
    (after buffer (8 * i)).unpackAlignedBytes n = (.empty, after buffer (8 * i)) := by
  have hshort : n > buffer.length - i := by omega
  rw [after_octet]
  unfold unpackAlignedBytes alignBytes
  simp only [ne_eq, not_true_eq_false, if_false, if_pos hshort, ite_self]

end After

end BitDecoder

end OcuduRan.Support
