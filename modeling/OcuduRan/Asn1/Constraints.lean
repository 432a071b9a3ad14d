/-
What the PER decoder accepts from hostile input (asn1_utils.cpp): bounds of decoded numbers, lengths and sizes, and
where the cursor operations of cbit_ref may go.

A constrained whole number is read as an offset whose width may come from the wire, the lower bound is added in the
integer type, and only the upper bound is checked afterwards. `hostile_input_iff` says exactly when that keeps the
bounds for every bit string:

  number    no offset that fits on the wire takes the lower bound past the maximum of the type (`NoWrap`); otherwise the
            sum wraps around below the lower bound and passes the check (`out_of_bounds_number_and_copy`).
  length    with an upper bound of 64K or more the bounds are not looked at: there must be no lower bound.
  cursor    32-bit sums of the arguments do not overflow, and unpack_bytes at an octet boundary asks for the whole
            buffer, since it copies the whole buffer (`CursorOp.Safe`).
-/
import OcuduRan.Asn1.Strings
import OcuduRan.Core.Machine

namespace OcuduRan.Asn1

open BitStream CbitRef IntType Reads Coded

/-! ## Bounds of decoded numbers -/

/-- whatever the bits, a number that is decoded is within the bounds -/
def KeepsBounds (d : Unpacker ℤ) (lb ub : ℤ) : Prop :=
  ∀ r n r', r.Valid → d r = (.ok n, r') → lb ≤ n ∧ n ≤ ub

/-- the longest bit-field that the wire can give for a range, as far as it fits the type -/
def wireBits (w ra : ℕ) (aligned : Bool) : ℕ :=
  if !aligned || decide (ra < 256) then bitFieldSize ra
  else if ra ≤ asn64K then ceilFrac8 (bitFieldSize ra) * 8
  else min w (2 ^ ceilLog2 (ceilFrac8 (bitFieldSize ra)) * 8)

/-- no bit-field that the wire can give takes the lower bound past the maximum of the type -/
def NoWrap (t : IntType) (lb ub : ℤ) (aligned : Bool) : Prop :=
  let k := wireBits t.width (t.range lb ub) aligned
  lb = ub ∨ t.width < k ∨ lb + 2 ^ k - 1 ≤ t.max

instance (t : IntType) (lb ub : ℤ) (aligned : Bool) : Decidable (NoWrap t lb ub aligned) := by
  unfold NoWrap
  infer_instance

theorem unpackOffset_ok {w ra val : ℕ} {aligned : Bool} {r r' : CbitRef} (h : r.Valid)
    (hok : unpackOffset w ra aligned r = (.ok val, r')) :
    wireBits w ra aligned ≤ w ∧ val < 2 ^ wireBits w ra aligned := by
  unfold unpackOffset at hok
  unfold wireBits
  cases aligned with
  | false =>
    obtain ⟨hw, hval, -⟩ := h.unpack_ok hok
    exact ⟨hw, hval⟩
  | true =>
    simp only [Bool.not_true, Bool.false_eq_true, if_false, Bool.false_or, decide_eq_true_eq] at hok ⊢
    split_ifs at hok ⊢ with hbit hoct
    · obtain ⟨hw, hval, -⟩ := h.unpack_ok hok
      exact ⟨hw, hval⟩
    · obtain ⟨_, r₁, h₁, hok⟩ := bind_eq_ok.1 hok
      obtain ⟨pad, -, htook⟩ := h.alignBytes_ok h₁
      obtain ⟨n, r₂, h₂, hok⟩ := bind_eq_ok.1 hok
      obtain ⟨hw, hval, -⟩ := (htook.valid h).unpack_ok h₂
      obtain ⟨_, r₃, -, hok⟩ := bind_eq_ok.1 hok
      obtain rfl : n = val := Except.ok.inj (Prod.mk.inj hok).1
      exact ⟨hw, hval⟩
    · obtain ⟨n, r₁, h₁, hok⟩ := bind_eq_ok.1 hok
      obtain ⟨-, hn, htook⟩ := h.unpack_ok h₁
      obtain ⟨_, r₂, h₂, hok⟩ := bind_eq_ok.1 hok
      obtain ⟨pad, -, htook'⟩ := (htook.valid h).alignBytes_ok h₂
      obtain ⟨hw, hval, -⟩ := (htook'.valid (htook.valid h)).unpack_ok hok
      have hmax : (n + 1) * 8 ≤ 2 ^ ceilLog2 (ceilFrac8 (bitFieldSize ra)) * 8 := Nat.mul_le_mul_right 8 hn
      exact ⟨min_le_left _ _, hval.trans_le (Nat.pow_le_pow_right (by decide) (le_min hw hmax))⟩

/-- every bit-field of the longest kind can be on the wire -/
theorem exists_reads_unpackOffset {w ra val : ℕ} (aligned : Bool) (hpos : 0 < w) (h8 : 8 ∣ w)
    (hw : wireBits w ra aligned ≤ w) (hval : val < 2 ^ wireBits w ra aligned) :
    ∃ bits, Reads (unpackOffset w ra aligned) 0 bits val := by
  unfold wireBits at hw hval
  unfold unpackOffset
  cases aligned with
  | false => exact ⟨_, unpack_lt hw hval _⟩
  | true =>
    simp only [Bool.not_true, Bool.false_eq_true, if_false, Bool.false_or, decide_eq_true_eq] at hw hval ⊢
    split_ifs at hw hval ⊢ with hbit hoct
    · exact ⟨_, unpack_lt hw hval _⟩
    · have hpad : BitRef.padding (0 + (natBits (ceilFrac8 (bitFieldSize ra) * 8) val).length) = 0 := by
        rw [length_natBits, BitRef.padding]
        omega
      have hend := (alignBytes _ [] hpad.symm).bind_nil (f := fun _ => pure val) (pure _ val)
      exact ⟨_, (alignBytes 0 [] rfl).bind_nil
        ((unpack_lt hw hval _).bind (f := fun n => do alignBytes; pure n) hend)⟩
    · -- as many octets as fit, behind the padding of the length
      generalize hlen : ceilLog2 (ceilFrac8 (bitFieldSize ra)) = nBitsLen at hw hval ⊢
      have h32 : nBitsLen ≤ 32 := by
        rw [← hlen, ceilLog2_le_iff]
        unfold ceilFrac8
        omega
      have hpow := Nat.two_pow_pos nBitsLen
      obtain ⟨q, hq⟩ := h8
      obtain ⟨n, hn, hn8⟩ : ∃ n < 2 ^ nBitsLen, (n + 1) * 8 = min w (2 ^ nBitsLen * 8) := by
        refine ⟨min q (2 ^ nBitsLen) - 1, ?_, ?_⟩ <;> omega
      rw [← hn8] at hw hval
      exact ⟨_, (unpack_lt h32 hn 0).bind ((alignBytes _ (List.replicate (BitRef.padding _) false)
        List.length_replicate).bind (unpack_lt hw hval _))⟩

theorem IntType.eight_dvd_width (t : IntType) : 0 < t.width ∧ 8 ∣ t.width := by
  cases t <;> decide

/-- a reader in front of any bits -/
theorem exists_reader (bits : List Bool) : ∃ r : CbitRef, r.Valid ∧ r.pos % 8 = 0 % 8 ∧ ∃ tail, r.rest = bits ++
    tail := by
  refine ⟨ofBuffer (toBytes bits), valid_ofBuffer _, rfl, ?_⟩
  rw [rest_ofBuffer, bitsOf_toBytes]
  exact ⟨_, rfl⟩

theorem Reads.exists_ok {α : Type} {d : Unpacker α} {bits : List Bool} {a : α} (h : Reads d 0 bits a) :
    ∃ r r', r.Valid ∧ d r = (.ok a, r') := by
  obtain ⟨r, hr, hpos, tail, hrest⟩ := exists_reader bits
  exact ⟨r, _, hr, h r tail hr hpos hrest⟩

theorem keepsBounds_unpackConstrainedWholeNumber {t : IntType} {lb ub : ℤ} (hlb : t.Holds lb) (hub : t.Holds ub)
    (hle : lb ≤ ub) (aligned : Bool) :
    KeepsBounds (unpackConstrainedWholeNumber t lb ub aligned) lb ub ↔ NoWrap t lb ub aligned := by
  have hone := range_eq_one_iff hlb hub hle
  have hmax := t.min_add_two_pow
  obtain ⟨hpos, h8⟩ := t.eight_dvd_width
  constructor
  · intro hkeep
    by_contra hwrap
    unfold NoWrap at hwrap
    simp only [not_or, not_lt, not_le] at hwrap
    obtain ⟨hne, hw, hover⟩ := hwrap
    -- the smallest value that wraps around
    obtain ⟨val, hval⟩ : ∃ val : ℕ, (val : ℤ) = t.max + 1 - lb := ⟨(t.max + 1 - lb).toNat, by
      have := hlb.2
      omega⟩
    have hlt : val < 2 ^ wireBits t.width (t.range lb ub) aligned := by
      have hcast : ((2 ^ wireBits t.width (t.range lb ub) aligned : ℕ) : ℤ) = 2 ^ wireBits t.width (t.range lb ub)
        aligned := by
        push_cast
        rfl
      omega
    have hmin : t.min < lb := by
      have hpow : (2 : ℤ) ^ wireBits t.width (t.range lb ub) aligned ≤ 2 ^ t.width := pow_le_pow_right₀ (by norm_num) hw
      omega
    have hn : t.wrap (t.wrap val + lb) = t.min := by
      rw [wrap_wrap_add, wrap_of_max_lt (by omega) (by omega)]
      omega
    obtain ⟨bits, hread⟩ := exists_reads_unpackOffset aligned hpos h8 hw hlt
    obtain ⟨r, r', hr, hok⟩ := hread.exists_ok
    have hres : unpackConstrainedWholeNumber t lb ub aligned r = (.ok t.min, r') := by
      unfold unpackConstrainedWholeNumber
      rw [if_neg (not_lt.2 hle)]
      rw [if_neg (mt hone.1 hne), bind_of_ok hok, hn, if_neg (by omega)]
      rfl
    exact absurd (hkeep r t.min r' hr hres).1 (not_le.2 hmin)
  · intro hno r n r' hr hok
    unfold unpackConstrainedWholeNumber at hok
    rw [if_neg (not_lt.2 hle)] at hok
    dsimp only at hok
    split_ifs at hok with hra
    · obtain rfl : lb = n := Except.ok.inj (Prod.mk.inj hok).1
      exact ⟨le_rfl, hle⟩
    · obtain ⟨val, r₁, h₁, hok⟩ := bind_eq_ok.1 hok
      obtain ⟨hw, hval⟩ := unpackOffset_ok hr h₁
      split_ifs at hok with hgt
      · cases hok
      · obtain rfl := Except.ok.inj (Prod.mk.inj hok).1
        refine ⟨?_, not_lt.1 hgt⟩
        have hsum : lb + 2 ^ wireBits t.width (t.range lb ub) aligned - 1 ≤ t.max := by
          rcases hno with hno | hno | hno
          · exact absurd (hone.2 hno) hra
          · omega
          · exact hno
        have hcast : (val : ℤ) < 2 ^ wireBits t.width (t.range lb ub) aligned := by exact_mod_cast hval
        have hmin := hlb.1
        rw [wrap_wrap_add, wrap_of_holds ⟨by omega, by omega⟩]
        omega

/-! ## Bounds of decoded lengths -/

theorem keepsBounds_unpackLengthBounded {t : IntType} {lb ub : ℤ} (hlb : t.Holds lb) (hub : t.Holds ub)
    (hle : lb ≤ ub) (aligned : Bool) :
    KeepsBounds (unpackLengthBounded t lb ub aligned) lb ub ↔
      if ub ≥ asn64K then lb ≤ 0 else NoWrap t lb ub aligned := by
  unfold unpackLengthBounded
  split_ifs with h64
  · have hmax := hub.2
    have hwrap (n : ℕ) (hn : n < asn16K) : t.wrap n = n := by
      unfold asn16K at hn
      unfold asn64K at h64
      refine wrap_of_holds ⟨?_, by omega⟩
      have hmin : t.min ≤ 0 := by cases t <;> decide
      omega
    constructor
    · intro hkeep
      -- the length 0 is always on offer
      obtain ⟨r, r', hr, hok⟩ := (Reads.unpackLength (n := 0) (by decide) aligned 0 rfl).exists_ok
      have hres : (do let len ← unpackLength aligned; pure (t.wrap len) : Unpacker ℤ) r = (.ok 0, r') := by
        rw [bind_of_ok hok, hwrap 0 (by decide)]
        rfl
      exact (hkeep r 0 r' hr hres).1
    · intro hlb0 r n r' hr hok
      obtain ⟨len, r₁, h₁, hok⟩ := bind_eq_ok.1 hok
      obtain ⟨_, _, -, -, hform⟩ := unpackLength_ok hr h₁
      have hlen : len < asn16K := by
        unfold asn16K at hform ⊢
        rcases hform with ⟨hlen, -⟩ | ⟨hlen, -⟩ <;> omega
      obtain rfl := Except.ok.inj (Prod.mk.inj hok).1
      rw [hwrap len hlen]
      unfold asn16K at hlen
      unfold asn64K at h64
      constructor <;> omega
  · exact keepsBounds_unpackConstrainedWholeNumber hlb hub hle aligned

variable {lb ub : ℕ}

/-- sizes below 64K cannot wrap around in 32 bits -/
theorem noWrap_of_lt_asn64K (hle : lb ≤ ub) (hub : ub < asn64K) (aligned : Bool) :
    NoWrap .uint32 lb ub aligned := by
  unfold asn64K at hub
  have hrange : range .uint32 lb ub = ub - lb + 1 := by
    have h := range_eq (holds_uint32 (n := lb) (by omega)) (holds_uint32 (n := ub) (by omega))
      (by exact_mod_cast hle) (by omega)
    omega
  have hsize : bitFieldSize (ub - lb + 1) ≤ 16 := bitFieldSize_le (by omega) (by omega)
  have hbits : wireBits 32 (ub - lb + 1) aligned ≤ 16 := by
    unfold wireBits asn64K ceilFrac8
    split_ifs <;> omega
  have hpow : (2 : ℤ) ^ wireBits 32 (ub - lb + 1) aligned ≤ 2 ^ 16 := pow_le_pow_right₀ (by norm_num) hbits
  refine .inr (.inr ?_)
  show (lb : ℤ) + 2 ^ wireBits 32 (range .uint32 lb ub) aligned - 1 ≤ 2 ^ 32 - 1
  rw [hrange]
  omega

/-- a size that a uint32_t length determinant gives is within the bounds -/
theorem keepsBounds_size (hle : lb ≤ ub) (hub : ub < 2 ^ 32) (aligned : Bool) :
    KeepsBounds (unpackLengthBounded .uint32 lb ub aligned) lb ub ↔ ub < asn64K ∨ lb = 0 := by
  rw [keepsBounds_unpackLengthBounded (holds_uint32 (hle.trans_lt hub)) (holds_uint32 hub)
    (by exact_mod_cast hle) aligned]
  split_ifs with h64
  · have : asn64K ≤ ub := by exact_mod_cast h64
    omega
  · have : ub < asn64K := by exact_mod_cast not_le.1 h64
    exact ⟨fun _ => .inl this, fun _ => noWrap_of_lt_asn64K hle this aligned⟩

/-- whatever the bits, what is decoded has a size within the bounds -/
def KeepsSize {α : Type} (d : Unpacker (List α)) (lb ub : ℕ) : Prop :=
  ∀ r items r', r.Valid → d r = (.ok items, r') → lb ≤ items.length ∧ items.length ≤ ub

/-- a size of the length determinant, then as many items, perhaps aligned: the size is kept if the length is -/
theorem keepsSize_of_times {α : Type} (item : Unpacker α) (align : Unpacker Unit) (hle : lb ≤ ub)
    (hub : ub < 2 ^ 32) (aligned : Bool) (halign : ∀ p, p % 8 = 0 → Reads align p [] ()) :
    KeepsSize (do
      let len ← unpackLengthBounded .uint32 lb ub aligned
      align
      times item len.toNat) lb ub ↔ ub < asn64K ∨ lb = 0 := by
  rw [← keepsBounds_size hle hub aligned]
  constructor
  · intro hkeep
    rw [keepsBounds_size hle hub aligned]
    by_contra hno
    -- from 64K on an empty list is decoded
    have h64 : ((ub : ℕ) : ℤ) ≥ asn64K := by
      have : asn64K ≤ ub := by omega
      exact_mod_cast this
    have hlen : Reads (unpackLengthBounded .uint32 lb ub aligned) 0 (alignment aligned 0 ++ lengthBits 0) 0 := by
      unfold unpackLengthBounded
      rw [if_pos h64]
      exact (Reads.unpackLength (by decide) aligned 0 rfl).bind_pure
    have hbits : (0 + (alignment aligned 0 ++ lengthBits 0).length) % 8 = 0 := by
      cases aligned <;> decide
    have hread : Reads (do
        let len ← unpackLengthBounded .uint32 lb ub aligned
        align
        times item len.toNat) 0 (alignment aligned 0 ++ lengthBits 0) [] :=
      hlen.bind_last ((halign _ hbits).bind_nil (pure _ []))
    obtain ⟨r, r', hr, hok⟩ := hread.exists_ok
    have hsize := (hkeep r [] r' hr hok).1
    rw [List.length_nil] at hsize
    omega
  · intro hkeep r items r' hr hok
    obtain ⟨len, r₁, h₁, hok⟩ := bind_eq_ok.1 hok
    obtain ⟨_, r₂, -, hok⟩ := bind_eq_ok.1 hok
    have hbounds := hkeep r len r₁ hr h₁
    rw [length_of_times_ok hok]
    omega

theorem keepsSize_unpackDynSeqOf {α : Type} (item : Unpacker α) (hle : lb ≤ ub) (hub : ub < 2 ^ 32)
    (aligned : Bool) : KeepsSize (unpackDynSeqOf item lb ub aligned) lb ub ↔ ub < asn64K ∨ lb = 0 :=
  keepsSize_of_times item (pure ()) hle hub aligned fun p _ => pure p ()

theorem keepsSize_boundedOctstring (hle : lb ≤ ub) (hub : ub < 2 ^ 32) (aligned : Bool) :
    KeepsSize (BoundedOctstring.unpack lb ub aligned) lb ub ↔ ub < asn64K ∨ lb = 0 := by
  refine keepsSize_of_times unpackOctet (when aligned alignBytes) hle hub aligned fun p hp => ?_
  cases aligned with
  | false => exact pure p ()
  | true => exact alignBytes p [] (by rw [BitRef.padding, hp]; rfl)

/-! ## Cursor operations -/

inductive CursorOp where
  | unpack (w : ℕ) (nBits : UInt32)
  | unpackBytes (size : ℕ)
  | advanceBits (nBits : UInt32)
  | advanceBytes (bytes : UInt32)
  | subview (offsetBytes lenBytes : UInt32)
  | alignBytes
deriving DecidableEq, Repr

namespace CursorOp

/-- the cursor after the operation; of subview, the new cursor -/
def apply (r : CbitRef) : CursorOp → CbitRef
  | unpack w nBits => (CbitRef.unpack w nBits.toNat r).2
  | unpackBytes size => (CbitRef.unpackBytes size r).2.2
  | advanceBits nBits => (CbitRef.advanceBits nBits.toNat r).2
  | advanceBytes bytes => (CbitRef.advanceBytes bytes.toNat r).2
  | subview offsetBytes lenBytes => r.subview offsetBytes.toNat lenBytes.toNat
  | alignBytes => (CbitRef.alignBytes r).2

/-- bytes written to the span of the caller beyond those it asked for -/
def writtenPast (r : CbitRef) : CursorOp → ℕ
  | unpackBytes size => (CbitRef.unpackBytes size r).2.1.length - size
  | _ => 0

/-- the arguments do not reach a 32-bit overflow or the copy of the whole buffer -/
def Safe (r : CbitRef) : CursorOp → Prop
  | unpack _ _ | alignBytes => True
  | unpackBytes size => size = 0 ∨ r.remaining < size ∨ r.offset ≠ 0 ∨ r.stop - r.start ≤ size
  | advanceBits nBits => (r.offset + nBits.toNat) % 2 ^ 32 < 2 ^ 32 - 7 ∨ 2 ^ 29 ≤ r.remaining
  | advanceBytes bytes => bytes.toNat + r.partialByte < 2 ^ 32 ∨ 2 ^ 32 ≤ r.remaining
  | subview offsetBytes lenBytes =>
    let needed := lenBytes.toNat + r.partialByte
    (offsetBytes.toNat + needed % 2 ^ 32) % 2 ^ 32 > r.remaining % 2 ^ 32 ∨
      needed < 2 ^ 32 ∧ (offsetBytes.toNat + needed < 2 ^ 32 ∨ offsetBytes.toNat + needed ≤ r.remaining)

end CursorOp

/-- the cursor is inside its view and the view inside the one it comes from, if there is a byte in it -/
def CbitRef.Inside (r v : CbitRef) : Prop := v.Valid ∧ (v.stop ≤ r.stop ∨ v.start = v.stop)

section

variable {r : CbitRef}

theorem valid_empty (r : CbitRef) : r.empty.Valid :=
  ⟨le_rfl, le_rfl, le_rfl, Nat.zero_lt_succ 7, fun h => absurd rfl h⟩

theorem inside_advanceBits_iff (h : r.Valid) {n : ℕ} :
    r.Inside (advanceBits n r).2 ↔ (r.offset + n) % 2 ^ 32 < 2 ^ 32 - 7 ∨ 2 ^ 29 ≤ r.remaining := by
  have hstart := h.start_le
  have hit := h.it_le
  have hstop := h.stop_le
  unfold advanceBits
  simp only
  have hx : (r.offset + n) % 2 ^ 32 < 2 ^ 32 := Nat.mod_lt _ (by decide)
  generalize (r.offset + n) % 2 ^ 32 = x at hx
  unfold remaining
  split_ifs with herr
  · refine iff_of_true ⟨h, .inl le_rfl⟩ ?_
    omega
  · constructor
    · intro hin
      by_contra hno
      have hinside := hin.1.inside
      dsimp only at hinside
      omega
    · intro hno
      refine ⟨⟨?_, ?_, hstop, Nat.mod_lt _ (by decide), ?_⟩, .inl le_rfl⟩ <;> dsimp only <;> omega

theorem inside_advanceBytes_iff (h : r.Valid) {n : ℕ} (hn : n < 2 ^ 32) :
    r.Inside (advanceBytes n r).2 ↔ n + r.partialByte < 2 ^ 32 ∨ 2 ^ 32 ≤ r.remaining := by
  have hstart := h.start_le
  have hit := h.it_le
  have hstop := h.stop_le
  have h8 := h.offset_lt
  have hin := h.inside
  unfold advanceBytes remaining partialByte
  split_ifs with hoff herr herr
  · refine iff_of_true ⟨h, .inl le_rfl⟩ ?_
    omega
  · constructor
    · intro hin
      by_contra hno
      have hinside := hin.1.inside hoff
      dsimp only at hinside
      omega
    · intro hno
      refine ⟨⟨?_, ?_, hstop, h8, ?_⟩, .inl le_rfl⟩ <;> dsimp only <;> omega
  · refine iff_of_true ⟨h, .inl le_rfl⟩ ?_
    omega
  · refine iff_of_true ⟨⟨?_, ?_, hstop, h8, ?_⟩, .inl le_rfl⟩ (.inl hn) <;> dsimp only <;> omega

theorem inside_subview_iff (h : r.Valid) {off len : ℕ} (hoff : off < 2 ^ 32) (hlen : len < 2 ^ 32) :
    r.Inside (r.subview off len) ↔
      (off + (len + r.partialByte) % 2 ^ 32) % 2 ^ 32 > r.remaining % 2 ^ 32 ∨ len + r.partialByte < 2 ^ 32 ∧
        (off + (len + r.partialByte) < 2 ^ 32 ∨ off + (len + r.partialByte) ≤ r.remaining) := by
  have hit := h.it_le
  have hstop := h.stop_le
  have h8 := h.offset_lt
  unfold subview
  simp only
  split_ifs with herr
  · exact iff_of_true ⟨valid_empty r, .inr rfl⟩ (.inl herr)
  · have hp : r.partialByte = if r.offset ≠ 0 then 1 else 0 := rfl
    have hrem : r.remaining = r.stop - r.it := rfl
    constructor
    · rintro ⟨hv, hview⟩
      have hinside := hv.inside
      have hend := hv.stop_le
      dsimp only at hinside hview hend
      right
      split_ifs at hp with hz <;> omega
    · intro hno
      split_ifs at hp with hz <;> refine ⟨⟨?_, ?_, ?_, h8, ?_⟩, ?_⟩ <;> dsimp only <;> omega

theorem unpackBytesLoop_inv (n : ℕ) (written : List UInt8) (h : r.Valid) :
    (unpackBytesLoop n written r).2.2.Valid ∧
      (unpackBytesLoop n written r).2.1.length ≤ written.length + n ∧
      (unpackBytesLoop n written r).2.2.stop = r.stop := by
  induction n generalizing written r with
  | zero => exact ⟨h, le_rfl, rfl⟩
  | succ n ih =>
    have hstop : (unpack 8 8 r).2.stop = r.stop := by
      rw [h.unpack_eq le_rfl]
      split_ifs <;> rfl
    have hvalid : (unpack 8 8 r).2.Valid := h.of_unpack
    unfold unpackBytesLoop
    rcases hres : unpack 8 8 r with ⟨_ | b, r₁⟩ <;> rw [hres] at hstop hvalid <;> dsimp only at hstop hvalid ⊢
    · exact ⟨hvalid, by simp, hstop⟩
    · obtain ⟨hv, hlen, hst⟩ := ih (written ++ [UInt8.ofNat b]) hvalid
      refine ⟨hv, ?_, hst.trans hstop⟩
      rw [List.length_append, List.length_singleton] at hlen
      omega

theorem inside_unpackBytes_iff (h : r.Valid) (size : ℕ) :
    r.Inside (unpackBytes size r).2.2 ∧ (unpackBytes size r).2.1.length - size = 0 ↔
      size = 0 ∨ r.remaining < size ∨ r.offset ≠ 0 ∨ r.stop - r.start ≤ size := by
  have hstart := h.start_le
  have hstop := h.stop_le
  have hself : r.Inside r := ⟨h, .inl le_rfl⟩
  unfold unpackBytes
  split_ifs with hz hlt hoff
  · exact iff_of_true ⟨hself, Nat.zero_sub _⟩ (.inl hz)
  · exact iff_of_true ⟨hself, Nat.zero_sub _⟩ (.inr (.inl hlt))
  · have hlen : ((r.bytes.take r.stop).drop r.start).length = r.stop - r.start := by
      rw [List.length_drop, List.length_take, min_eq_left hstop]
    have hin : r.Inside { r with it := r.it + size } := by
      unfold remaining at hlt
      refine ⟨⟨?_, ?_, hstop, h.offset_lt, fun hne => absurd hoff hne⟩, .inl le_rfl⟩ <;> dsimp only <;> omega
    rw [hlen]
    constructor
    · rintro ⟨-, hw⟩
      omega
    · intro hno
      exact ⟨hin, by omega⟩
  · obtain ⟨hv, hlen, hst⟩ := unpackBytesLoop_inv size [] h
    rw [List.length_nil] at hlen
    exact iff_of_true ⟨⟨hv, .inl hst.le⟩, by omega⟩ (.inr (.inr (.inl hoff)))

/-- an operation keeps to its view and to what it was asked to write exactly when its arguments are safe -/
theorem CursorOp.inside_iff (h : r.Valid) (op : CursorOp) :
    r.Inside (op.apply r) ∧ op.writtenPast r = 0 ↔ op.Safe r := by
  cases op with
  | unpack w nBits =>
    refine iff_of_true ⟨⟨h.of_unpack, .inl (le_of_eq ?_)⟩, rfl⟩ trivial
    by_cases hw : nBits.toNat ≤ w
    · show (CbitRef.unpack w nBits.toNat r).2.stop = r.stop
      rw [h.unpack_eq hw]
      split_ifs <;> rfl
    · show (CbitRef.unpack w nBits.toNat r).2.stop = r.stop
      unfold CbitRef.unpack
      rw [if_neg hw]
  | unpackBytes size => exact inside_unpackBytes_iff h size
  | advanceBits nBits => exact (and_iff_left rfl).trans (inside_advanceBits_iff h)
  | advanceBytes bytes => exact (and_iff_left rfl).trans (inside_advanceBytes_iff h bytes.toNat_lt)
  | subview offsetBytes lenBytes =>
    exact (and_iff_left rfl).trans (inside_subview_iff h offsetBytes.toNat_lt lenBytes.toNat_lt)
  | alignBytes =>
    refine iff_of_true ⟨⟨h.of_alignBytes, .inl ?_⟩, rfl⟩ trivial
    show (CbitRef.alignBytes r).2.stop ≤ r.stop
    rw [h.alignBytes_eq]
    exact le_rfl

end

/-- **Decoding of hostile input.** A constrained whole number is within its bounds for every bit string if and only if
no bit-field wraps around behind the upper end of the type; a length determinant, and with it the size of a SEQUENCE OF
or a bounded OCTET STRING, if and only if it is also encoded as a constrained number or has no lower bound; and a cursor
operation stays inside its view and writes no more than it was asked for if and only if its arguments are safe, so that
no run of safe operations leaves the view. -/
theorem hostile_input_iff {t : IntType} {lb ub : ℤ} {sizeLb sizeUb : ℕ} {r : CbitRef} (aligned : Bool)
    (hlb : t.Holds lb)
    (hub : t.Holds ub) (hle : lb ≤ ub) (hsize : sizeLb ≤ sizeUb) (hsizeUb : sizeUb < 2 ^ 32) (hr : r.Valid) :
    ((KeepsBounds (unpackConstrainedWholeNumber t lb ub aligned) lb ub ↔ NoWrap t lb ub aligned) ∧
      (KeepsBounds (unpackLengthBounded t lb ub aligned) lb ub ↔
        if ub ≥ asn64K then lb ≤ 0 else NoWrap t lb ub aligned)) ∧ ((∀ (α : Type) (item : Unpacker α),
        KeepsSize (unpackDynSeqOf item sizeLb sizeUb aligned) sizeLb sizeUb ↔ sizeUb < asn64K ∨ sizeLb = 0) ∧
      (KeepsSize (BoundedOctstring.unpack sizeLb sizeUb aligned) sizeLb sizeUb ↔ sizeUb < asn64K ∨ sizeLb = 0)) ∧
    (∀ op : CursorOp, r.Inside (op.apply r) ∧ op.writtenPast r = 0 ↔ op.Safe r) ∧
    (∀ ops, Machine.Always CursorOp.apply (fun r op => op.Safe r) r ops →
      (Machine.run CursorOp.apply r ops).Valid) := by
  refine ⟨⟨?_, ?_⟩, ⟨fun α item => ?_, ?_⟩, CursorOp.inside_iff hr, fun ops hsafe => ?_⟩
  · exact keepsBounds_unpackConstrainedWholeNumber hlb hub hle aligned
  · exact keepsBounds_unpackLengthBounded hlb hub hle aligned
  · exact keepsSize_unpackDynSeqOf item hsize hsizeUb aligned
  · exact keepsSize_boundedOctstring hsize hsizeUb aligned
  · exact Machine.run_inv (I := CbitRef.Valid) (fun s op hs hop => ((CursorOp.inside_iff hs op).2 hop).1.1) r ops hr
      hsafe

/-- a uint8_t number and a size that keep their bounds, and a move inside two bytes -/
theorem hostile_input_iff_uint8 :
    KeepsBounds (unpackConstrainedWholeNumber .uint8 10 20 true) 10 20 ∧
      KeepsSize (BoundedOctstring.unpack 1 32 true) 1 32 ∧
      (CbitRef.ofBuffer [0, 0]).Inside (CursorOp.apply (CbitRef.ofBuffer [0, 0]) (.advanceBits 9)) := by
  obtain ⟨⟨hnum, -⟩, ⟨-, hsize⟩, hcur, -⟩ := @hostile_input_iff .uint8 10 20 1 32 (ofBuffer [0, 0]) true
    (by decide) (by decide) (by decide) (by decide) (by decide) (valid_ofBuffer [0, 0])
  exact ⟨hnum.2 (by decide +kernel), hsize.2 (by decide), ((hcur (.advanceBits 9)).2 (Or.inl (by decide))).1⟩

/-- six bits 111111 for a number from 200 to 255 are decoded as 7; one byte asked for from a buffer of three is three
bytes written -/
theorem out_of_bounds_number_and_copy :
    (unpackConstrainedWholeNumber .uint8 200 255 false (CbitRef.ofBuffer [0xfc])).1 = .ok 7 ∧ ¬(200 : ℤ) ≤ 7 ∧
      (CbitRef.unpackBytes 1 (CbitRef.ofBuffer [1, 2, 3])).2.1 = [1, 2, 3] := by
  refine ⟨by decide +kernel, by decide, by decide⟩

end OcuduRan.Asn1
