/-
Bit cursors of the ASN.1 PER codec (asn1_utils.h, asn1_utils.cpp). bit_ref writes into a growing byte buffer whose
segment pool is not exhausted; cbit_ref reads from a view of the bytes of a buffer.

`BitRef.ofBits` is the writer that holds a list of bits: packing appends to the list, aligning fills it up with zeros.
`CbitRef.rest` are the bits a reader has in front of it: `unpack` takes the first of them. The specifications
`Writes` and `Reads` say what a call does to either list, for every position of the cursor with the given offset in its
byte; they compose along `++`, and nothing above this module looks at a byte.
-/
import OcuduRan.Core.BitStream
import OcuduRan.Core.Bits
import OcuduRan.Core.Coded

namespace OcuduRan.Asn1

open BitStream List Nat Coded

/-- OCUDUASN_CODE other than success -/
inductive AsnError where
  | error
  | encodeFail
  | decodeFail
deriving DecidableEq, Repr

/-! ## Writer -/

structure BitRef where
  writer : List UInt8
  offset : ℕ
deriving DecidableEq, Repr

abbrev Packer : Type := Coded AsnError BitRef Unit

namespace BitRef

/-- writer.back() += x -/
def addBack (writer : List UInt8) (x : UInt8) : List UInt8 := writer.dropLast ++ [writer.getLastD 0 + x]

def distance (r : BitRef) : ℕ := 8 * (r.writer.length - if r.offset = 0 then 0 else 1) + r.offset

/-- the loop of bit_ref::pack -/
def packLoop : ℕ → BitRef → ℕ → ℕ → BitRef
  | 0, r, _, _ => r
  | fuel + 1, r, val, nBits =>
    if nBits = 0 then r
    else
      let writer := if r.offset = 0 then r.writer ++ [0] else r.writer
      let val := val &&& (2 ^ nBits - 1)
      if 8 - r.offset > nBits then
        ⟨addBack writer (UInt8.ofNat (val <<< (8 - r.offset - nBits))), r.offset + nBits⟩
      else
        packLoop fuel ⟨addBack writer (UInt8.ofNat (val >>> (nBits + r.offset - 8))), 0⟩ val (nBits - (8 - r.offset))

def pack (val nBits : ℕ) : Packer := do
  assert (nBits < 64)
  modify fun r => r.packLoop nBits val nBits

def packBytes (bytes : List UInt8) : Packer := fun r =>
  if bytes = [] then (.ok (), r)
  else if r.offset = 0 then (.ok (), { r with writer := r.writer ++ bytes })
  else forEach (fun b => pack b.toNat 8) bytes r

def alignBytesZero : Packer := modify fun r => { r with offset := 0 }

/-- the writer that holds these bits -/
def ofBits (bits : List Bool) : BitRef := ⟨toBytes bits, bits.length % 8⟩

/-- the bits up to the end of the byte -/
def padding (p : ℕ) : ℕ := (8 - p % 8) % 8

/-- bits that fit into the last byte of the buffer, or into a new one -/
theorem addBack_toBytes (bits chunk : List Bool) (hpos : 0 < chunk.length) (hle : bits.length % 8 + chunk.length ≤ 8) :
    addBack (if bits.length % 8 = 0 then toBytes bits ++ [0] else toBytes bits)
      (UInt8.ofNat (BitStream.ofBits chunk <<< (8 - bits.length % 8 - chunk.length))) = toBytes (bits ++ chunk) := by
  obtain ⟨pre, part, rfl, hpre, hpart⟩ : ∃ pre part : List Bool,
      bits = pre ++ part ∧ 8 ∣ pre.length ∧ part.length < 8 := by
    refine ⟨bits.take (8 * (bits.length / 8)), bits.drop (8 * (bits.length / 8)), (take_append_drop _ _).symm, ?_, ?_⟩
    · rw [length_take, min_eq_left (by omega)]
      exact dvd_mul_right _ _
    · rw [length_drop]
      omega
  have ho : (pre ++ part).length % 8 = part.length := by
    rw [length_append]
    omega
  have hlen : (part ++ chunk).length = part.length + chunk.length := length_append
  rw [ho] at hle ⊢
  rw [append_assoc, toBytes_append hpre, toBytes_append hpre,
    @toBytes_of_length_le (part ++ chunk) (by omega) (by omega), toByte_append hle]
  split_ifs with hz
  · have hnil : toByte [] = 0 := by decide
    rw [length_eq_zero_iff.1 hz, hnil]
    simp [addBack, toBytes]
  · rw [toBytes_of_length_le (pos_of_ne_zero hz) (by omega)]
    simp [addBack]

theorem packLoop_ofBits (fuel : ℕ) (bits : List Bool) (val nBits : ℕ) (hfuel : nBits ≤ fuel) :
    (ofBits bits).packLoop fuel val nBits = ofBits (bits ++ natBits nBits val) := by
  induction fuel generalizing bits val nBits with
  | zero =>
    obtain rfl : nBits = 0 := by omega
    simp [packLoop, natBits]
  | succ fuel ih =>
    by_cases hz : nBits = 0
    · simp [packLoop, hz, natBits]
    have hval : val &&& (2 ^ nBits - 1) = val % 2 ^ nBits := and_two_pow_sub_one_eq_mod val nBits
    unfold packLoop
    simp only [if_neg hz, hval]
    by_cases hlast : 8 - bits.length % 8 > nBits
    · have h := addBack_toBytes bits (natBits nBits val) (by simpa using pos_of_ne_zero hz)
        (by rw [length_natBits]; omega)
      rw [length_natBits, ofBits_natBits] at h
      have hoff : (bits ++ natBits nBits val).length % 8 = bits.length % 8 + nBits := by
        rw [length_append, length_natBits]
        omega
      refine (if_pos hlast).trans ?_
      unfold ofBits
      rw [hoff]
      exact congrArg (BitRef.mk · _) h
    · -- the high bits fill the byte, the low bits go on from the next one
      obtain ⟨k, hk⟩ : ∃ k, nBits = 8 - bits.length % 8 + k := ⟨nBits - (8 - bits.length % 8), by omega⟩
      have hhigh : (val % 2 ^ nBits) >>> k < 2 ^ (8 - bits.length % 8) := by
        rw [Nat.shiftRight_eq_div_pow, Nat.div_lt_iff_lt_mul (Nat.two_pow_pos _), ← Nat.pow_add, ← hk]
        exact Nat.mod_lt _ (Nat.two_pow_pos _)
      have h := addBack_toBytes bits (natBits (8 - bits.length % 8) ((val % 2 ^ nBits) >>> k))
        (by rw [length_natBits]; omega) (by rw [length_natBits]; omega)
      rw [length_natBits, ofBits_natBits, Nat.mod_eq_of_lt hhigh, Nat.sub_self, Nat.shiftLeft_zero] at h
      have hoff : (bits ++ natBits (8 - bits.length % 8) ((val % 2 ^ nBits) >>> k)).length % 8 = 0 := by
        rw [length_append, length_natBits]
        omega
      have hih := ih (bits ++ natBits (8 - bits.length % 8) ((val % 2 ^ nBits) >>> k)) (val % 2 ^ nBits) k (by omega)
      rw [append_assoc, ← natBits_add, ← hk, natBits_mod] at hih
      refine (if_neg hlast).trans (Eq.trans ?_ hih)
      have hstart : ofBits (bits ++ natBits (8 - bits.length % 8) ((val % 2 ^ nBits) >>> k)) =
          ⟨toBytes (bits ++ natBits (8 - bits.length % 8) ((val % 2 ^ nBits) >>> k)), 0⟩ := congrArg _ hoff
      rw [hstart, ← h, show nBits + (ofBits bits).offset - 8 = k by show nBits + bits.length % 8 - 8 = k; omega,
        show nBits - (8 - (ofBits bits).offset) = k by show nBits - (8 - bits.length % 8) = k; omega]
      rfl

/-- zeros up to the end of the byte are already there -/
theorem ofBits_padding (bits : List Bool) :
    ofBits (bits ++ replicate (padding bits.length) false) = { ofBits bits with offset := 0 } := by
  have hoff : (bits ++ replicate (padding bits.length) false).length % 8 = 0 := by
    rw [length_append, length_replicate, padding]
    omega
  have hbytes : toBytes (bits ++ replicate (padding bits.length) false) = toBytes bits := by
    by_cases hz : padding bits.length = 0
    · rw [hz, replicate_zero, append_nil]
    · have h := addBack_toBytes bits (replicate (padding bits.length) false)
        (by rw [length_replicate]; omega) (by rw [length_replicate, padding]; omega)
      have hne : bits.length % 8 ≠ 0 := by
        intro h0
        rw [padding, h0] at hz
        exact hz rfl
      rw [if_neg hne, ofBits_replicate_false, zero_shiftLeft] at h
      have hnil : toBytes bits ≠ [] := by
        intro h0
        have hlen := length_toBytes bits
        rw [h0, length_nil] at hlen
        omega
      rw [← h, addBack, show UInt8.ofNat 0 = 0 from rfl, UInt8.add_zero, getLastD_eq_getLast?,
        getLast?_eq_getLast_of_ne_nil hnil, Option.getD_some, dropLast_append_getLast]
  unfold ofBits
  rw [hoff, hbytes]

end BitRef

/-- from a writer at this offset in its byte, the call succeeds and appends exactly these bits -/
def Writes (e : Packer) (p : ℕ) (bits : List Bool) : Prop :=
  ∀ pre : List Bool, pre.length % 8 = p % 8 → e (BitRef.ofBits pre) = (.ok (), BitRef.ofBits (pre ++ bits))

namespace Writes

variable {e e' : Packer} {p : ℕ} {a b : List Bool}

theorem nil (p : ℕ) : Writes (pure ()) p [] := by
  intro pre _
  rw [append_nil]
  rfl

theorem bind (h : Writes e p a) (h' : Writes e' (p + a.length) b) : Writes (do e; e') p (a ++ b) := by
  intro pre hpre
  have hlen : (pre ++ a).length % 8 = (p + a.length) % 8 := by
    rw [length_append]
    omega
  rw [bind_of_ok (h pre hpre), h' (pre ++ a) hlen, append_assoc]

theorem pack {v n : ℕ} (h : n < 64) (p : ℕ) : Writes (BitRef.pack v n) p (natBits n v) := by
  intro pre _
  unfold BitRef.pack
  rw [bind_of_ok (assert_of h _), modify_apply, BitRef.packLoop_ofBits _ _ _ _ le_rfl]

theorem alignBytesZero (p : ℕ) : Writes BitRef.alignBytesZero p (replicate (BitRef.padding p) false) := by
  intro pre hpre
  have hpad : BitRef.padding p = BitRef.padding pre.length := by rw [BitRef.padding, BitRef.padding, hpre]
  rw [hpad, BitRef.ofBits_padding]
  rfl

theorem forEach {α : Type} {item : α → Packer} {enc : α → List Bool} (as : List α)
    (h : ∀ a ∈ as, ∀ p, Writes (item a) p (enc a)) (p : ℕ) : Writes (forEach item as) p (as.flatMap enc) := by
  induction as generalizing p with
  | nil => exact nil p
  | cons a as ih =>
    rw [flatMap_cons]
    exact (h a mem_cons_self p).bind (ih (fun a' ha' => h a' (mem_cons_of_mem a ha')) _)

/-- whole bytes, at any offset -/
theorem forEach_pack (bytes : List UInt8) (p : ℕ) :
    Writes (Coded.forEach (fun b => BitRef.pack b.toNat 8) bytes) p (bitsOf bytes) :=
  forEach bytes (fun _ _ q => pack (by decide) q) p

theorem packBytes (bytes : List UInt8) (p : ℕ) : Writes (BitRef.packBytes bytes) p (bitsOf bytes) := by
  intro pre hpre
  unfold BitRef.packBytes
  split_ifs with hnil haligned
  · rw [hnil, bitsOf_nil, append_nil]
  · have hdvd : 8 ∣ pre.length := dvd_of_mod_eq_zero haligned
    have hlen : (pre ++ bitsOf bytes).length % 8 = pre.length % 8 := by
      rw [length_append, length_bitsOf]
      omega
    unfold BitRef.ofBits
    rw [toBytes_append hdvd, toBytes_bitsOf, hlen]
  · exact forEach_pack bytes p pre hpre

end Writes

/-! ## Reader -/

/-- `bytes` are those of the segment list, in which the view goes from `start` to `stop`; behind the last segment is the
null iterator -/
structure CbitRef where
  bytes : List UInt8
  start : ℕ
  stop : ℕ
  it : ℕ
  offset : ℕ
deriving DecidableEq, Repr

abbrev Unpacker (α : Type) : Type := Coded AsnError CbitRef α

namespace CbitRef

def ofBuffer (bytes : List UInt8) : CbitRef := ⟨bytes, 0, bytes.length, 0, 0⟩

section

variable (r : CbitRef)

/-- cbit_ref(byte_buffer_view{}) -/
def empty : CbitRef := ⟨r.bytes, r.bytes.length, r.bytes.length, r.bytes.length, 0⟩

/-- buffer.end() - it -/
def remaining : ℕ := r.stop - r.it

/-- one if the cursor is inside a byte -/
def partialByte : ℕ := if r.offset ≠ 0 then 1 else 0

def subview (offsetBytes lenBytes : ℕ) : CbitRef :=
  let bufferRemBytes := r.remaining % 2 ^ 32
  let nofBytesNeeded := (lenBytes + r.partialByte) % 2 ^ 32
  if (offsetBytes + nofBytesNeeded) % 2 ^ 32 > bufferRemBytes then r.empty
  else
    let startIt := r.it + offsetBytes
    ⟨r.bytes, startIt, startIt + nofBytesNeeded, startIt, r.offset⟩

/-- bits between two cursors -/
def distance (r other : CbitRef) : ℤ := ((r.it : ℤ) - other.it) * 8 + ((r.offset : ℤ) - other.offset)

/-- the loop of cbit_ref::unpack into an integer of `w` bits -/
def unpackLoop (w : ℕ) : ℕ → ℕ → ℕ → CbitRef → Except (Fault AsnError) ℕ × CbitRef
  | 0, val, _, r => (.ok val, r)
  | fuel + 1, val, nBits, r =>
    if nBits = 0 then (.ok val, r)
    else if r.it = r.stop then (.error (.code .decodeFail), r)
    else
      let b := (r.bytes.getD r.it 0).toNat
      if 8 - r.offset > nBits then
        (.ok ((val +
          (b &&& ((2 ^ (8 - r.offset) - 2 ^ (8 - r.offset - nBits)) % 2 ^ 8)) >>> (8 - r.offset - nBits)) % 2 ^ w),
          { r with offset := r.offset + nBits })
      else
        unpackLoop w fuel ((val + (b &&& ((2 ^ (8 - r.offset) - 1) % 2 ^ 8)) <<< (nBits + r.offset - 8)) % 2 ^ w)
          (nBits - (8 - r.offset)) { r with it := r.it + 1, offset := 0 }

def unpack (w nBits : ℕ) : Unpacker ℕ := fun r =>
  if nBits ≤ w then unpackLoop w nBits 0 nBits r else (.error .assertion, r)

/-- unpack of a bool -/
def unpackBool : Unpacker Bool := do
  let val ← unpack 8 1
  pure (decide (val ≠ 0))

def alignBytes : Unpacker Unit := fun r =>
  if r.offset ≠ 0 then
    if r.it = r.stop then (.error (.code .decodeFail), r) else (.ok (), { r with it := r.it + 1, offset := 0 })
  else (.ok (), r)

def advanceBits (nBits : ℕ) : Unpacker Unit := fun r =>
  let extraBits := (r.offset + nBits) % 2 ^ 32 % 8
  let bytesRequired := ((r.offset + nBits) % 2 ^ 32 + 7) % 2 ^ 32 / 8
  let bytesOffset := (r.offset + nBits) % 2 ^ 32 / 8
  if bytesRequired > r.remaining then (.error (.code .decodeFail), r)
  else (.ok (), { r with it := r.it + bytesOffset, offset := extraBits })

def advanceBytes (bytes : ℕ) : Unpacker Unit := fun r =>
  if (bytes + r.partialByte) % 2 ^ 32 > r.remaining then (.error (.code .decodeFail), r)
  else (.ok (), { r with it := r.it + bytes })

/-- the unaligned case of unpack_bytes, with the bytes written so far -/
def unpackBytesLoop : ℕ → List UInt8 → CbitRef → Except (Fault AsnError) Unit × List UInt8 × CbitRef
  | 0, written, r => (.ok (), written, r)
  | n + 1, written, r =>
    match unpack 8 8 r with
    | (.ok b, r) => unpackBytesLoop n (written ++ [UInt8.ofNat b]) r
    | (.error e, r) => (.error e, written, r)

/-- cbit_ref::unpack_bytes into a span of `size` bytes: the code, the bytes written from its start on, the cursor -/
def unpackBytes (size : ℕ) (r : CbitRef) : Except (Fault AsnError) Unit × List UInt8 × CbitRef :=
  if size = 0 then (.ok (), [], r)
  else if size > r.remaining then (.error (.code .decodeFail), [], r)
  else if r.offset = 0 then
    -- std::copy(buffer.begin(), buffer.end(), bytes.begin())
    (.ok (), (r.bytes.take r.stop).drop r.start, { r with it := r.it + size })
  else unpackBytesLoop size [] r

/-- the cursor is inside the view -/
structure Valid (r : CbitRef) : Prop where
  start_le : r.start ≤ r.it
  it_le : r.it ≤ r.stop
  stop_le : r.stop ≤ r.bytes.length
  offset_lt : r.offset < 8
  inside : r.offset ≠ 0 → r.it < r.stop

/-- bits in front of the cursor, counted from the first byte of the segment list -/
def pos : ℕ := 8 * r.it + r.offset

/-- the bits from the cursor to the end of the view -/
def rest : List Bool := (bitsOf ((r.bytes.take r.stop).drop r.it)).drop r.offset

/-- `n` bits on -/
def skip (n : ℕ) : CbitRef := { r with it := (r.pos + n) / 8, offset := (r.pos + n) % 8 }

/-- the end of the view -/
def atEnd : CbitRef := { r with it := r.stop, offset := 0 }

end

variable {r : CbitRef}

theorem valid_ofBuffer (bytes : List UInt8) : (ofBuffer bytes).Valid :=
  ⟨le_rfl, zero_le _, le_rfl, zero_lt_succ 7, fun h => absurd rfl h⟩

theorem rest_ofBuffer (bytes : List UInt8) : (ofBuffer bytes).rest = bitsOf bytes := by
  simp [rest, ofBuffer]

@[simp] theorem skip_zero (h : r.Valid) : r.skip 0 = r := by
  have h8 := h.offset_lt
  have hit : (r.pos + 0) / 8 = r.it := by unfold pos; omega
  have hoff : (r.pos + 0) % 8 = r.offset := by unfold pos; omega
  unfold skip
  rw [hit, hoff]

@[simp] theorem pos_skip (r : CbitRef) (n : ℕ) : (r.skip n).pos = r.pos + n := by
  show 8 * ((r.pos + n) / 8) + (r.pos + n) % 8 = _
  omega

@[simp] theorem skip_skip (r : CbitRef) (n m : ℕ) : (r.skip n).skip m = r.skip (n + m) := by
  have h : (r.skip n).pos + m = r.pos + (n + m) := by rw [pos_skip]; omega
  show CbitRef.mk _ _ _ (((r.skip n).pos + m) / 8) (((r.skip n).pos + m) % 8) = _
  rw [h]
  rfl

theorem Valid.length_rest (h : r.Valid) : r.rest.length = 8 * r.stop - r.pos := by
  have hstop := h.stop_le
  rw [rest, length_drop, length_bitsOf, length_drop, length_take, min_eq_left hstop, pos]
  omega

theorem Valid.pos_le (h : r.Valid) : r.pos ≤ 8 * r.stop := by
  have hle := h.it_le
  have h8 := h.offset_lt
  have hin := h.inside
  unfold pos
  omega

/-- the bits behind whole bytes and some bits of the next one -/
theorem drop_bitsOf (bytes : List UInt8) (n : ℕ) :
    (bitsOf bytes).drop n = (bitsOf (bytes.drop (n / 8))).drop (n % 8) := by
  have hsplit : bitsOf bytes = bitsOf (bytes.take (n / 8)) ++ bitsOf (bytes.drop (n / 8)) := by
    conv_lhs => rw [← take_append_drop (n / 8) bytes]
    exact flatMap_append
  by_cases hle : n / 8 ≤ bytes.length
  · have hlen : (bitsOf (bytes.take (n / 8))).length = 8 * (n / 8) := by
      rw [length_bitsOf, length_take, min_eq_left hle]
    rw [hsplit, drop_append, drop_of_length_le (by omega), hlen, nil_append]
    congr 1
    omega
  · rw [drop_of_length_le (by rw [length_bitsOf]; omega), drop_of_length_le (l := bytes) (by omega),
      bitsOf_nil, drop_nil]

theorem rest_skip (n : ℕ) : (r.skip n).rest = r.rest.drop n := by
  have hpos : r.pos = 8 * r.it + r.offset := rfl
  show (bitsOf ((r.bytes.take r.stop).drop ((r.pos + n) / 8))).drop ((r.pos + n) % 8) = _
  rw [rest, drop_drop, drop_bitsOf _ (r.offset + n), drop_drop,
    show r.it + (r.offset + n) / 8 = (r.pos + n) / 8 by omega, show (r.offset + n) % 8 = (r.pos + n) % 8 by omega]

section

variable (h : r.Valid)
include h

theorem Valid.skip {n : ℕ} (hn : n ≤ r.rest.length) : (r.skip n).Valid := by
  have hstart := h.start_le
  have hstop := h.stop_le
  have hpos : r.pos = 8 * r.it + r.offset := rfl
  have hle := h.pos_le
  rw [h.length_rest] at hn
  refine ⟨?_, ?_, hstop, Nat.mod_lt _ (by decide), ?_⟩
  · show r.start ≤ (r.pos + n) / 8
    omega
  · show (r.pos + n) / 8 ≤ r.stop
    omega
  · show (r.pos + n) % 8 ≠ 0 → (r.pos + n) / 8 < r.stop
    omega

theorem Valid.atEnd : r.atEnd.Valid :=
  ⟨h.start_le.trans h.it_le, le_rfl, h.stop_le, zero_lt_succ 7, fun h => absurd rfl h⟩

/-- the bits left of the byte at the cursor, then those of the next bytes -/
theorem Valid.rest_eq (hlt : r.it < r.stop) :
    r.rest = natBits (8 - r.offset) (r.bytes.getD r.it 0).toNat ++ (r.skip (8 - r.offset)).rest := by
  have h8 := h.offset_lt
  have hlen : r.it < (r.bytes.take r.stop).length := by
    rw [length_take, min_eq_left h.stop_le]
    exact hlt
  have hbyte : (r.bytes.take r.stop)[r.it] = r.bytes.getD r.it 0 := by
    have hlen' : r.it < r.bytes.length := hlt.trans_le h.stop_le
    rw [getElem_take, getD_eq_getElem?_getD, getElem?_eq_getElem hlen', Option.getD_some]
  have hsplit : natBits 8 (r.bytes.getD r.it 0).toNat =
      natBits r.offset ((r.bytes.getD r.it 0).toNat >>> (8 - r.offset)) ++
        natBits (8 - r.offset) (r.bytes.getD r.it 0).toNat := by
    rw [← natBits_add]
    congr 1
    omega
  have hnext : (r.skip (8 - r.offset)).rest = bitsOf ((r.bytes.take r.stop).drop (r.it + 1)) := by
    have hit : (r.pos + (8 - r.offset)) / 8 = r.it + 1 := by unfold pos; omega
    have hoff : (r.pos + (8 - r.offset)) % 8 = 0 := by unfold pos; omega
    show (bitsOf ((r.bytes.take r.stop).drop ((r.pos + (8 - r.offset)) / 8))).drop ((r.pos + (8 - r.offset)) % 8) = _
    rw [hit, hoff, drop_zero]
  rw [hnext, rest, drop_eq_getElem_cons hlen, hbyte, bitsOf_cons, hsplit, append_assoc]
  exact drop_left' (length_natBits _ _)

/-- the loop adds the value of the next bits, or runs into the end of the view -/
theorem Valid.unpackLoop_eq {w fuel nBits : ℕ} (val : ℕ) (hfuel : nBits ≤ fuel) (hval : val + 2 ^ nBits ≤ 2 ^ w) :
    unpackLoop w fuel val nBits r =
      if nBits ≤ r.rest.length then (.ok (val + BitStream.ofBits (r.rest.take nBits)), r.skip nBits)
      else (.error (.code .decodeFail), r.atEnd) := by
  induction fuel generalizing r nBits val with
  | zero =>
    obtain rfl : nBits = 0 := by omega
    rw [if_pos (zero_le _), skip_zero h]
    rfl
  | succ fuel ih =>
    have h8 := h.offset_lt
    unfold unpackLoop
    by_cases hz : nBits = 0
    · subst hz
      rw [if_pos rfl, if_pos (zero_le _), skip_zero h]
      rfl
    rw [if_neg hz]
    by_cases hend : r.it = r.stop
    · have hoff : r.offset = 0 := by
        by_contra hne
        exact absurd hend (h.inside hne).ne
      have hlen : r.rest.length = 0 := by
        rw [h.length_rest, pos]
        omega
      have hat : r.atEnd = r := by
        obtain ⟨bytes, start, stop, it, offset⟩ := r
        obtain rfl : it = stop := hend
        obtain rfl : offset = 0 := hoff
        rfl
      rw [if_pos hend, if_neg (by omega), hat]
    · have hlt : r.it < r.stop := lt_of_le_of_ne h.it_le hend
      rw [if_neg hend]
      have hrest := h.rest_eq hlt
      have hlen : 8 - r.offset ≤ r.rest.length := by
        rw [hrest, length_append, length_natBits]
        omega
      have hmod {x : ℕ} (hx : x < val + 2 ^ nBits) : x % 2 ^ w = x := Nat.mod_eq_of_lt (hx.trans_le hval)
      generalize (r.bytes.getD r.it 0).toNat = b at hrest
      by_cases hlast : 8 - r.offset > nBits
      · -- all of the bits are in this byte
        obtain ⟨k, hk⟩ : ∃ k, 8 - r.offset = nBits + k := ⟨8 - r.offset - nBits, by omega⟩
        have hmask : (2 ^ (8 - r.offset) - 2 ^ (8 - r.offset - nBits)) % 2 ^ 8 = (2 ^ nBits - 1) <<< k := by
          have hpow : 2 ^ (nBits + k) ≤ 2 ^ 8 := Nat.pow_le_pow_right (by decide) (by omega)
          have hpos := Nat.two_pow_pos k
          rw [hk, Nat.add_sub_cancel_left, Nat.shiftLeft_eq, Nat.sub_mul, one_mul, ← Nat.pow_add, Nat.mod_eq_of_lt]
          omega
        have hbits : BitStream.ofBits (r.rest.take nBits) = b / 2 ^ k % 2 ^ nBits := by
          rw [hrest, hk, natBits_add, append_assoc, take_left' (length_natBits _ _), ofBits_natBits,
            shiftRight_eq_div_pow]
        have hskip : r.skip nBits = { r with offset := r.offset + nBits } := by
          have hit : (r.pos + nBits) / 8 = r.it := by unfold pos; omega
          have hoff : (r.pos + nBits) % 8 = r.offset + nBits := by unfold pos; omega
          unfold CbitRef.skip
          rw [hit, hoff]
        rw [if_pos hlast, if_pos (by omega), hmask, hskip, hbits, show 8 - r.offset - nBits = k by omega,
          Bits.and_shr, hmod (by omega)]
      · -- the byte is read up to its end
        obtain ⟨k, hk⟩ : ∃ k, nBits = 8 - r.offset + k := ⟨nBits - (8 - r.offset), by omega⟩
        have hmask : (2 ^ (8 - r.offset) - 1) % 2 ^ 8 = 2 ^ (8 - r.offset) - 1 := by
          have hpow : 2 ^ (8 - r.offset) ≤ 2 ^ 8 := Nat.pow_le_pow_right (by decide) (by omega)
          have hpos := Nat.two_pow_pos (8 - r.offset)
          exact Nat.mod_eq_of_lt (by omega)
        have hhigh : b % 2 ^ (8 - r.offset) < 2 ^ (8 - r.offset) := Nat.mod_lt _ (Nat.two_pow_pos _)
        have hsum : b % 2 ^ (8 - r.offset) * 2 ^ k + 2 ^ k ≤ 2 ^ nBits := by
          rw [hk, Nat.pow_add]
          calc b % 2 ^ (8 - r.offset) * 2 ^ k + 2 ^ k = (b % 2 ^ (8 - r.offset) + 1) * 2 ^ k := by ring
            _ ≤ _ := mul_le_mul_right _ hhigh
        have hpos := Nat.two_pow_pos k
        have hskip : r.skip (8 - r.offset) = { r with it := r.it + 1, offset := 0 } := by
          have hit : (r.pos + (8 - r.offset)) / 8 = r.it + 1 := by unfold pos; omega
          have hoff : (r.pos + (8 - r.offset)) % 8 = 0 := by unfold pos; omega
          unfold CbitRef.skip
          rw [hit, hoff]
        have hih := @ih _ (h.skip hlen) k (val + b % 2 ^ (8 - r.offset) * 2 ^ k) (by omega) (by omega)
        have hend' : (r.skip (8 - r.offset)).atEnd = r.atEnd := rfl
        have hlen' : r.rest.length = 8 - r.offset + (r.skip (8 - r.offset)).rest.length := by
          conv_lhs => rw [hrest, length_append, length_natBits]
        rw [if_neg hlast, hmask, Bits.and_mask, Nat.shiftLeft_eq, show nBits + r.offset - 8 = k by omega,
          show nBits - (8 - r.offset) = k by omega, hmod (by omega), ← hskip, hih, hend']
        by_cases hk2 : k ≤ (r.skip (8 - r.offset)).rest.length
        · have hbits : BitStream.ofBits (r.rest.take nBits) =
              b % 2 ^ (8 - r.offset) * 2 ^ k + BitStream.ofBits ((r.skip (8 - r.offset)).rest.take k) := by
            have htake : r.rest.take nBits = natBits (8 - r.offset) b ++ (r.skip (8 - r.offset)).rest.take k := by
              conv_lhs => rw [hrest, hk]
              rw [take_append, length_natBits, Nat.add_sub_cancel_left,
                take_of_length_le (by rw [length_natBits]; omega)]
            rw [htake, ofBits_append, ofBits_natBits, length_take, min_eq_left hk2]
          rw [if_pos hk2, if_pos (by omega), hbits, skip_skip, ← hk, add_assoc]
        · rw [if_neg hk2, if_neg (by omega)]

/-- the next bits as a number -/
theorem Valid.unpack_eq {w nBits : ℕ} (hw : nBits ≤ w) : unpack w nBits r =
      if nBits ≤ r.rest.length then (.ok (BitStream.ofBits (r.rest.take nBits)), r.skip nBits)
      else (.error (.code .decodeFail), r.atEnd) := by
  have hloop := h.unpackLoop_eq (w := w) 0 (le_refl nBits)
    (by rw [Nat.zero_add]; exact Nat.pow_le_pow_right (by decide) hw)
  unfold unpack
  rw [if_pos hw, hloop, zero_add]

theorem Valid.alignBytes_eq : CbitRef.alignBytes r = (.ok (), r.skip (BitRef.padding r.pos)) := by
  have h8 := h.offset_lt
  unfold CbitRef.alignBytes
  by_cases hz : r.offset = 0
  · have hpad : BitRef.padding r.pos = 0 := by
      unfold BitRef.padding pos
      omega
    rw [if_neg (not_not.2 hz), hpad, skip_zero h]
  · have hlt := h.inside hz
    have hit : (r.pos + BitRef.padding r.pos) / 8 = r.it + 1 := by
      unfold BitRef.padding pos
      omega
    have hoff : (r.pos + BitRef.padding r.pos) % 8 = 0 := by
      unfold BitRef.padding pos
      omega
    unfold CbitRef.skip
    rw [if_pos hz, if_neg hlt.ne, hit, hoff]

theorem Valid.padding_le : BitRef.padding r.pos ≤ r.rest.length := by
  have h8 := h.offset_lt
  have hin := h.inside
  rw [h.length_rest]
  unfold BitRef.padding pos
  omega

end

end CbitRef

namespace CbitRef

variable {r r' : CbitRef} {w nBits val : ℕ}

theorem Valid.of_unpack (h : r.Valid) : (unpack w nBits r).2.Valid := by
  by_cases hw : nBits ≤ w
  · rw [h.unpack_eq hw]
    split_ifs with hlen
    · exact h.skip hlen
    · exact h.atEnd
  · unfold CbitRef.unpack
    rw [if_neg hw]
    exact h

theorem Valid.of_alignBytes (h : r.Valid) : (CbitRef.alignBytes r).2.Valid := by
  rw [h.alignBytes_eq]
  exact h.skip h.padding_le

/-- the bits between two positions of a reader -/
def Took (r : CbitRef) (bits : List Bool) (r' : CbitRef) : Prop :=
  (∃ tail, r.rest = bits ++ tail) ∧ r' = r.skip bits.length

namespace Took

variable {r'' : CbitRef} {bits bits' : List Bool}

theorem valid (h : r.Took bits r') (hr : r.Valid) : r'.Valid := by
  obtain ⟨⟨tail, hrest⟩, rfl⟩ := h
  refine hr.skip ?_
  rw [hrest, length_append]
  omega

theorem trans (h : r.Took bits r') (h' : r'.Took bits' r'') : r.Took (bits ++ bits') r'' := by
  obtain ⟨⟨tail, hrest⟩, rfl⟩ := h
  obtain ⟨⟨tail', hrest'⟩, rfl⟩ := h'
  rw [rest_skip, hrest, drop_left] at hrest'
  refine ⟨⟨tail', ?_⟩, ?_⟩
  · rw [hrest, hrest', append_assoc]
  · rw [skip_skip, length_append]

end Took

theorem Valid.unpack_ok (h : r.Valid) (hok : unpack w nBits r = (.ok val, r')) :
    nBits ≤ w ∧ val < 2 ^ nBits ∧ r.Took (natBits nBits val) r' := by
  by_cases hw : nBits ≤ w
  · rw [h.unpack_eq hw] at hok
    split_ifs at hok with hlen
    · obtain ⟨hval, rfl⟩ := Prod.mk.inj hok
      obtain rfl := Except.ok.inj hval
      have htake : (r.rest.take nBits).length = nBits := by rw [length_take, min_eq_left hlen]
      have hlt := ofBits_lt (r.rest.take nBits)
      have hbits := natBits_ofBits (r.rest.take nBits)
      rw [htake] at hlt hbits
      refine ⟨hw, hlt, ⟨r.rest.drop nBits, ?_⟩, ?_⟩
      · rw [hbits, take_append_drop]
      · rw [length_natBits]
    · cases hok
  · unfold CbitRef.unpack at hok
    rw [if_neg hw] at hok
    cases hok

theorem Valid.unpackBool_ok {b : Bool} (h : r.Valid) (hok : unpackBool r = (.ok b, r')) : r.Took [b] r' := by
  obtain ⟨val, r₁, h₁, hok⟩ := bind_eq_ok.1 hok
  obtain ⟨hb, rfl⟩ := Prod.mk.inj hok
  obtain rfl := Except.ok.inj hb
  obtain ⟨-, hlt, htook⟩ := h.unpack_ok h₁
  obtain rfl | rfl : val = 0 ∨ val = 1 := by omega
  · exact htook
  · exact htook

theorem Valid.alignBytes_ok (h : r.Valid) (hok : CbitRef.alignBytes r = (.ok (), r')) :
    ∃ pad, pad.length = BitRef.padding r.pos ∧ r.Took pad r' := by
  rw [h.alignBytes_eq] at hok
  obtain ⟨-, rfl⟩ := Prod.mk.inj hok
  have hlen : (r.rest.take (BitRef.padding r.pos)).length = BitRef.padding r.pos := by
    rw [length_take, min_eq_left h.padding_le]
  exact ⟨_, hlen, ⟨_, (take_append_drop _ _).symm⟩, by rw [hlen]⟩

end CbitRef

/-- from a reader at this offset in its byte with these bits next, the call returns `a` and stops right behind them -/
def Reads {α : Type} (d : Unpacker α) (p : ℕ) (bits : List Bool) (a : α) : Prop :=
  ∀ (r : CbitRef) (tail : List Bool), r.Valid → r.pos % 8 = p % 8 → r.rest = bits ++ tail →
    d r = (.ok a, r.skip bits.length)

namespace Reads

variable {α β : Type} {d : Unpacker α} {f : α → Unpacker β} {p : ℕ} {bits bits' : List Bool} {a : α} {b : β}

theorem pure (p : ℕ) (a : α) : Reads (Pure.pure a) p [] a := by
  intro r _ h _ _
  show (Except.ok a, r) = _
  rw [length_nil, CbitRef.skip_zero h]

theorem bind (h : Reads d p bits a) (h' : Reads (f a) (p + bits.length) bits' b) :
    Reads (d >>= f) p (bits ++ bits') b := by
  intro r tail hr hp hrest
  rw [append_assoc] at hrest
  have hlen : bits.length ≤ r.rest.length := by
    rw [hrest, length_append]
    omega
  have hpos : (r.skip bits.length).pos % 8 = (p + bits.length) % 8 := by
    rw [CbitRef.pos_skip]
    omega
  have hrest' : (r.skip bits.length).rest = bits' ++ tail := by rw [CbitRef.rest_skip, hrest, drop_left]
  rw [bind_of_ok (h r _ hr hp hrest), h' _ tail (hr.skip hlen) hpos hrest', CbitRef.skip_skip,
    length_append]

/-- a call that reads nothing first -/
theorem bind_nil (h : Reads d p [] a) (h' : Reads (f a) p bits b) : Reads (d >>= f) p bits b :=
  bind h h'

/-- a call that reads nothing afterwards -/
theorem bind_last (h : Reads d p bits a) (h' : Reads (f a) (p + bits.length) [] b) : Reads (d >>= f) p bits b := by
  have := h.bind h'
  rwa [append_nil] at this

theorem bind_pure {g : α → β} (h : Reads d p bits a) : Reads (d >>= fun a => Pure.pure (g a)) p bits (g a) :=
  h.bind_last (Reads.pure (p + bits.length) (g a))

theorem times {item : Unpacker α} {enc : α → List Bool} (as : List α)
    (h : ∀ a ∈ as, ∀ p, Reads item p (enc a) a) (p : ℕ) : Reads (times item as.length) p (as.flatMap enc) as := by
  induction as generalizing p with
  | nil => exact Reads.pure p []
  | cons a as ih =>
    have htail := ih (fun a' ha' => h a' (mem_cons_of_mem a ha')) (p + (enc a).length)
    rw [flatMap_cons]
    exact (h a mem_cons_self p).bind (htail.bind_pure (g := fun as => a :: as))

theorem of_unpack (bits : List Bool) {w : ℕ} (hw : bits.length ≤ w) (p : ℕ) :
    Reads (CbitRef.unpack w bits.length) p bits (BitStream.ofBits bits) := by
  intro r tail hr _ hrest
  have hlen : bits.length ≤ r.rest.length := by
    rw [hrest, length_append]
    omega
  rw [hr.unpack_eq hw, if_pos hlen, hrest, take_left]

theorem unpack {w nBits : ℕ} (hw : nBits ≤ w) (p val : ℕ) :
    Reads (CbitRef.unpack w nBits) p (natBits nBits val) (val % 2 ^ nBits) := by
  have h := of_unpack (natBits nBits val) (w := w) (by rwa [length_natBits]) p
  rwa [length_natBits, ofBits_natBits] at h

theorem unpack_lt {w n v : ℕ} (hw : n ≤ w) (h : v < 2 ^ n) (p : ℕ) : Reads (CbitRef.unpack w n) p (natBits n v) v := by
  have := Reads.unpack hw p v
  rwa [Nat.mod_eq_of_lt h] at this

theorem unpackBool (p : ℕ) (b : Bool) : Reads CbitRef.unpackBool p [b] b := by
  have h := (of_unpack [b] (w := 8) one_le_ofNat p).bind_pure (g := fun val => decide (val ≠ 0))
  cases b <;> exact h

theorem alignBytes (p : ℕ) (bits : List Bool) (h : bits.length = BitRef.padding p) :
    Reads CbitRef.alignBytes p bits () := by
  intro r _ hr hp _
  have hpad : BitRef.padding r.pos = BitRef.padding p := by rw [BitRef.padding, BitRef.padding, hp]
  rw [hr.alignBytes_eq, h, hpad]

end Reads

end OcuduRan.Asn1
