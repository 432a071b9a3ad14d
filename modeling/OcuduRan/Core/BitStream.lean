/-
Bit strings, most significant bit first, and the bytes that carry them (support/bit_encoding.h).

An encoder is the list of bits it has packed: `natBits n v` are the n low bits of v, and the buffer it leaves behind is
`toBytes` of the list, the last byte filled up with zeros. A decoder is the list of bits that are left; `unpack` takes
n of them. When the buffer ends early, the bits that were read are the high bits of the value and the call fails.
-/
import Mathlib.Tactic

namespace OcuduRan.BitStream

open List Nat

/-- the `n` low bits of a number -/
def natBits : ℕ → ℕ → List Bool
  | 0, _ => []
  | n + 1, v => v.testBit n :: natBits n v

/-- the number a list of bits spells -/
def ofBits (bits : List Bool) : ℕ := bits.foldl (fun acc b => 2 * acc + b.toNat) 0

/-- the bits of a buffer -/
def bitsOf (buf : List UInt8) : List Bool := buf.flatMap fun b => natBits 8 b.toNat

/-- up to eight bits in a byte, zeros behind them -/
def toByte (bits : List Bool) : UInt8 := UInt8.ofNat (ofBits (bits ++ replicate (8 - bits.length) false))

/-- the buffer an encoder leaves behind -/
def toBytes : List Bool → List UInt8
  | [] => []
  | b0 :: b1 :: b2 :: b3 :: b4 :: b5 :: b6 :: b7 :: bits => toByte [b0, b1, b2, b3, b4, b5, b6, b7] :: toBytes bits
  | bits => [toByte bits]

/-- bit_decoder::unpack: success, value, what is left -/
def unpack (bits : List Bool) (n : ℕ) : Bool × ℕ × List Bool :=
  (decide (n ≤ bits.length), ofBits (bits.take n ++ replicate (n - bits.length) false), bits.drop n)

/-! ## Numbers -/

@[simp] theorem length_natBits (n v : ℕ) : (natBits n v).length = n := by
  induction n with
  | zero => rfl
  | succ n ih => simp [natBits, ih]

theorem foldl_bits (bits : List Bool) (acc : ℕ) :
    bits.foldl (fun acc b => 2 * acc + b.toNat) acc = acc * 2 ^ bits.length + ofBits bits := by
  induction bits generalizing acc with
  | nil => simp [ofBits]
  | cons b bits ih =>
    rw [ofBits, foldl_cons, foldl_cons, ih, ih (2 * 0 + b.toNat), length_cons, pow_succ]
    ring

@[simp] theorem ofBits_nil : ofBits [] = 0 := rfl

theorem ofBits_cons (b : Bool) (bits : List Bool) : ofBits (b :: bits) = b.toNat * 2 ^ bits.length + ofBits bits := by
  rw [ofBits, foldl_cons, foldl_bits]
  ring

theorem ofBits_append (a b : List Bool) : ofBits (a ++ b) = ofBits a * 2 ^ b.length + ofBits b := by
  rw [ofBits, foldl_append, foldl_bits]
  rfl

theorem ofBits_lt (bits : List Bool) : ofBits bits < 2 ^ bits.length := by
  induction bits with
  | nil => simp
  | cons b bits ih =>
    rw [ofBits_cons, length_cons, pow_succ]
    cases b <;> simp <;> omega

@[simp] theorem ofBits_replicate_false (n : ℕ) : ofBits (replicate n false) = 0 := by
  induction n with
  | zero => rfl
  | succ n ih => simp [replicate_succ, ofBits_cons, ih]

theorem ofBits_natBits (n v : ℕ) : ofBits (natBits n v) = v % 2 ^ n := by
  induction n with
  | zero => simp [natBits, mod_one]
  | succ n ih =>
    rw [natBits, ofBits_cons, length_natBits, ih, testBit_eq_decide_div_mod_eq, mod_pow_succ]
    rcases mod_two_eq_zero_or_one (v / 2 ^ n) with h | h
    · simp [h]
    · simp [h]
      omega

theorem natBits_mod (n v : ℕ) : natBits n (v % 2 ^ n) = natBits n v := by
  have key : ∀ k ≤ n, natBits k (v % 2 ^ n) = natBits k v := by
    intro k
    induction k with
    | zero => intro _; rfl
    | succ k ih =>
      intro hk
      rw [natBits, natBits, ih (by omega), testBit_mod_two_pow]
      simp [show k < n by omega]
  exact key n le_rfl

theorem natBits_ofBits (bits : List Bool) : natBits bits.length (ofBits bits) = bits := by
  induction bits with
  | nil => rfl
  | cons b bits ih =>
    have hlt := ofBits_lt bits
    have hhead : (ofBits (b :: bits)).testBit bits.length = b := by
      rw [ofBits_cons, Nat.testBit_eq_decide_div_mod_eq, Nat.add_comm, Nat.add_mul_div_right _ _ (Nat.two_pow_pos _),
        div_eq_of_lt hlt]
      cases b <;> simp
    have htail : natBits bits.length (ofBits (b :: bits)) = bits := by
      rw [← natBits_mod, ofBits_cons, add_comm, add_mul_mod_self_right, natBits_mod, ih]
    rw [length_cons, natBits, hhead, htail]

/-! ## Buffers -/

@[simp] theorem bitsOf_nil : bitsOf [] = [] := rfl

@[simp] theorem bitsOf_cons (b : UInt8) (buf : List UInt8) :
    bitsOf (b :: buf) = natBits 8 b.toNat ++ bitsOf buf := flatMap_cons

theorem bitsOf_append (a b : List UInt8) : bitsOf (a ++ b) = bitsOf a ++ bitsOf b := flatMap_append

@[simp] theorem length_bitsOf (buf : List UInt8) : (bitsOf buf).length = 8 * buf.length := by
  induction buf with
  | nil => rfl
  | cons b buf ih =>
    rw [bitsOf_cons, length_append, length_natBits, ih, length_cons]
    ring

theorem natBits_toByte {bits : List Bool} (h : bits.length ≤ 8) :
    natBits 8 (toByte bits).toNat = bits ++ replicate (8 - bits.length) false := by
  have hlen : (bits ++ replicate (8 - bits.length) false).length = 8 := by simp; omega
  have hlt := ofBits_lt (bits ++ replicate (8 - bits.length) false)
  rw [hlen] at hlt
  have hval : (toByte bits).toNat = ofBits (bits ++ replicate (8 - bits.length) false) :=
    UInt8.toNat_ofNat_of_lt' hlt
  calc natBits 8 (toByte bits).toNat
      = natBits (bits ++ replicate (8 - bits.length) false).length
          (ofBits (bits ++ replicate (8 - bits.length) false)) := by rw [hval, hlen]
    _ = _ := natBits_ofBits _

/-- nothing is lost in the buffer; zeros fill up the last byte -/
theorem bitsOf_toBytes (bits : List Bool) :
    bitsOf (toBytes bits) = bits ++ replicate (8 * ((bits.length + 7) / 8) - bits.length) false := by
  induction bits using toBytes.induct with
  | case1 => rfl
  | case2 b0 b1 b2 b3 b4 b5 b6 b7 bits ih =>
    have hpad : 8 * ((bits.length + 8 + 7) / 8) - (bits.length + 8) = 8 * ((bits.length + 7) / 8) - bits.length := by
      omega
    rw [toBytes, bitsOf_cons, natBits_toByte (by simp), ih]
    simp only [length_cons, length_nil, cons_append, nil_append]
    rw [show bits.length + 1 + 1 + 1 + 1 + 1 + 1 + 1 + 1 = bits.length + 8 from rfl, hpad]
    rfl
  | case3 bits hnil hlong =>
    have hlen : bits.length < 8 := by
      by_contra hge
      match bits, hlong, hge with
      | [], _, h => simp at h
      | [_], _, h => simp at h
      | [_, _], _, h => simp at h
      | [_, _, _], _, h => simp at h
      | [_, _, _, _], _, h => simp at h
      | [_, _, _, _, _], _, h => simp at h
      | [_, _, _, _, _, _], _, h => simp at h
      | [_, _, _, _, _, _, _], _, h => simp at h
      | b0 :: b1 :: b2 :: b3 :: b4 :: b5 :: b6 :: b7 :: r, hl, _ => exact hl b0 b1 b2 b3 b4 b5 b6 b7 r rfl
    have hpos : 0 < bits.length := length_pos_of_ne_nil hnil
    rw [toBytes, bitsOf_cons, bitsOf_nil, append_nil, natBits_toByte hlen.le]
    · congr 2
      omega
    · exact hnil
    · exact hlong

theorem length_toBytes (bits : List Bool) : (toBytes bits).length = (bits.length + 7) / 8 := by
  have h := congrArg length (bitsOf_toBytes bits)
  rw [length_bitsOf, length_append, length_replicate] at h
  omega

/-- whole bytes in front of the bits stay what they are -/
theorem toBytes_natBits_append (b : UInt8) (bits : List Bool) :
    toBytes (natBits 8 b.toNat ++ bits) = b :: toBytes bits := by
  have hb : toByte (natBits 8 b.toNat) = b := by
    rw [toByte, length_natBits, Nat.sub_self, replicate_zero, append_nil, ofBits_natBits,
      mod_eq_of_lt b.toNat_lt, UInt8.ofNat_toNat]
  conv_rhs => rw [← hb]
  rfl

theorem toBytes_bitsOf (buf : List UInt8) : toBytes (bitsOf buf) = buf := by
  induction buf with
  | nil => rfl
  | cons b buf ih => rw [bitsOf_cons, toBytes_natBits_append, ih]

theorem toBytes_append {a : List Bool} (h : 8 ∣ a.length) (b : List Bool) :
    toBytes (a ++ b) = toBytes a ++ toBytes b := by
  induction a using toBytes.induct with
  | case1 => rfl
  | case2 b0 b1 b2 b3 b4 b5 b6 b7 bits ih =>
    have hbits : 8 ∣ bits.length := by simp only [length_cons] at h; omega
    show toByte _ :: toBytes (bits ++ b) = toByte _ :: (toBytes bits ++ toBytes b)
    rw [ih hbits]
  | case3 bits hnil hlong =>
    exfalso
    match bits, hnil, hlong, h with
    | [], hnil, _, _ => exact hnil rfl
    | b0 :: b1 :: b2 :: b3 :: b4 :: b5 :: b6 :: b7 :: r, _, hl, _ => exact hl b0 b1 b2 b3 b4 b5 b6 b7 r rfl
    | [_], _, _, h | [_, _], _, _, h | [_, _, _], _, _, h | [_, _, _, _], _, _, h | [_, _, _, _, _], _, _, h
    | [_, _, _, _, _, _], _, _, h | [_, _, _, _, _, _, _], _, _, h => simp at h

theorem toBytes_of_length_le {bits : List Bool} (hpos : 0 < bits.length) (hle : bits.length ≤ 8) :
    toBytes bits = [toByte bits] := by
  match bits, hpos, hle with
  | [_], _, _ | [_, _], _, _ | [_, _, _], _, _ | [_, _, _, _], _, _ | [_, _, _, _, _], _, _
  | [_, _, _, _, _, _], _, _ | [_, _, _, _, _, _, _], _, _ | [_, _, _, _, _, _, _, _], _, _ => rfl
  | _ :: _ :: _ :: _ :: _ :: _ :: _ :: _ :: _ :: _, _, hle =>
    simp only [length_cons] at hle
    omega

/-- bits put behind those of a byte that is not full -/
theorem toByte_append {a b : List Bool} (h : a.length + b.length ≤ 8) :
    toByte (a ++ b) = toByte a + UInt8.ofNat (ofBits b <<< (8 - a.length - b.length)) := by
  unfold toByte
  rw [← UInt8.ofNat_add, shiftLeft_eq, append_assoc, ofBits_append, ofBits_append b, ofBits_append a,
    ofBits_replicate_false, ofBits_replicate_false, length_append, length_replicate, length_append,
    length_replicate, show 8 - a.length - b.length = 8 - (a.length + b.length) by omega,
    show b.length + (8 - (a.length + b.length)) = 8 - a.length by omega]
  rfl

/-- the high bits of a field, then its low bits -/
theorem natBits_add (m k v : ℕ) : natBits (m + k) v = natBits m (v >>> k) ++ natBits k v := by
  induction m with
  | zero => simp [natBits]
  | succ m ih =>
    rw [show m + 1 + k = m + k + 1 by omega, natBits, natBits, ih, testBit_shiftRight, add_comm k m]
    rfl

/-! ## Reading back -/

/-- a field that was packed is unpacked, the rest is left -/
theorem unpack_natBits_append (n v : ℕ) (rest : List Bool) :
    unpack (natBits n v ++ rest) n = (true, v % 2 ^ n, rest) := by
  have hlen := length_natBits n v
  unfold unpack
  rw [take_left' hlen, drop_left' hlen, length_append, hlen, Nat.sub_eq_zero_of_le (Nat.le_add_right _ _),
    replicate_zero, append_nil, ofBits_natBits]
  simp

/-- bit `i` from the left -/
theorem getElem?_natBits {n v i : ℕ} (hi : i < n) : (natBits n v)[i]? = some (v.testBit (n - 1 - i)) := by
  induction n generalizing i with
  | zero => exact absurd hi (not_lt_zero i)
  | succ n ih =>
    cases i with
    | zero => rfl
    | succ i =>
      rw [natBits, getElem?_cons_succ, ih (lt_of_succ_lt_succ hi)]
      congr 2
      omega

/-- shifting a byte left by `k` leaves nothing if the bits from position `k` on are zero -/
theorem shiftLeft_mod_eq_zero_iff {b k : ℕ} (hk : k < 8) :
    b <<< k % 2 ^ 8 = 0 ↔ ∀ j, k ≤ j → j < 8 → (natBits 8 b)[j]? = some false := by
  constructor
  · intro h j hkj hj
    have hbit := congrArg (fun x => testBit x (7 - j + k)) h
    simp only [testBit_mod_two_pow, testBit_shiftLeft, zero_testBit] at hbit
    rw [getElem?_natBits hj]
    simpa [show 7 - j + k < 8 by omega, show 8 - 1 - j = 7 - j by omega] using hbit
  · intro h
    apply eq_of_testBit_eq
    intro i
    rw [testBit_mod_two_pow, testBit_shiftLeft, zero_testBit]
    by_cases hi : i < 8 ∧ k ≤ i
    · have hj := h (7 - (i - k)) (by omega) (by omega)
      rw [getElem?_natBits (by omega), show 8 - 1 - (7 - (i - k)) = i - k by omega] at hj
      rw [Option.some.inj hj]
      simp
    · rcases not_and_or.1 hi with hi | hi <;> simp [hi]

/-- the last byte holds the last eight bits -/
theorem natBits_getLastD {buf : List UInt8} (hne : buf ≠ []) :
    natBits 8 (buf.getLastD 0).toNat = (bitsOf buf).drop (8 * (buf.length - 1)) := by
  obtain ⟨init, b, rfl⟩ := (eq_nil_or_concat buf).resolve_left hne
  have hbits : bitsOf (init ++ [b]) = bitsOf init ++ natBits 8 b.toNat := by
    unfold bitsOf
    rw [flatMap_append, flatMap_singleton]
  have hlen : (bitsOf init).length = 8 * ((init ++ [b]).length - 1) := by
    rw [length_bitsOf, length_append, length_singleton, Nat.add_sub_cancel]
  rw [concat_eq_append, hbits, drop_left' hlen]
  simp

end OcuduRan.BitStream
