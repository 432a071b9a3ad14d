/-
RLC AM PDUs: the data PDU header, the STATUS PDU with its NACK list, and the byte formats of both
(lib/rlc/rlc_am_pdu.h and rlc_am_pdu.cpp).

  snSize   12- or 18-bit sequence numbers; the SN space is cardinality, the AM window half of it.
  header   D/C, poll bit, segmentation info, SN and, for middle and last segments, a 16-bit segment offset SO.
  status   ACK_SN and a list of NACKs. A NACK names one SN or a range of up to 255 SNs, and may carry a start offset
           for its first SN and an end offset for its last one. push_nack merges a NACK into its predecessor whenever
           the two denote a contiguous piece of missing data; packed_size is maintained on every change.
  unpack   reads through a byte_buffer_reader. Reading a byte and stepping over it is `readByte`, which fails with
           `pastEnd` outside the buffer, so that staying inside is a theorem and not an assumption. The NACK loop runs
           while E1 is set, on fuel; running out of it would be `outOfFuel`.

Offsets are 16-bit and a NACK range is 8-bit in the source; they are naturals here, `RlcAmStatusNack.Fits` being what
the field widths guarantee. The CPT field is left out of the record: unpack rejects every value but status_pdu.
-/
import OcuduRan.Core.ModWindow

namespace OcuduRan.Rlc

open ModWindow Nat

abbrev Bytes := List UInt8

/-! ## Sequence number spaces -/

inductive RlcAmSnSize where
  | size12bits
  | size18bits
deriving DecidableEq, Repr

def RlcAmSnSize.toNumber : RlcAmSnSize → ℕ
  | .size12bits => 12
  | .size18bits => 18

/-- number of values of an SN of the given width -/
def cardinality (snSize : ℕ) : ℕ := 2 ^ snSize

/-- the AM window size: half of the SN space -/
def windowSize (snSize : ℕ) : ℕ := 2 ^ (snSize - 1)

variable (n : RlcAmSnSize)

def RlcAmSnSize.mod : ℕ := cardinality n.toNumber

def RlcAmSnSize.amWindowSize : ℕ := windowSize n.toNumber

@[simp] theorem mod_size12bits : RlcAmSnSize.size12bits.mod = 4096 := rfl

@[simp] theorem mod_size18bits : RlcAmSnSize.size18bits.mod = 262144 := rfl

theorem mod_eq : n.mod = 2 * n.amWindowSize := by cases n <;> rfl

theorem amWindowSize_ge : 2048 ≤ n.amWindowSize := by cases n <;> decide

theorem sizes : n.mod = 2 * n.amWindowSize ∧ 2048 ≤ n.amWindowSize :=
  ⟨mod_eq n, amWindowSize_ge n⟩

theorem mod_dvd : n.mod ∣ 2 ^ 32 := by cases n <;> decide

theorem mod_pos : 0 < n.mod := by cases n <;> decide

theorem mod_le : n.mod ≤ 2 ^ 18 := by cases n <;> decide

section Index

variable {n : RlcAmSnSize} {base sn R i j : ℕ}

/-- the distance of an SN from a window base is that of their indices -/
theorem modBase_index (hR : base = R % n.mod) (hsn : sn % n.mod = i % n.mod) (hle : R ≤ i) (hlt : i < R + n.mod) :
    modBase n.mod base sn = i - R := by
  have hm := mod_le n
  have hbase : R % n.mod < n.mod := mod_lt _ (mod_pos n)
  refine modBase_of_le (mod_dvd n) (by omega) hsn ?_ hle hlt
  rw [hR, mod_mod]

/-- an index behind the base wraps around the SN space -/
theorem modBase_index_of_lt (hR : base = R % n.mod) (hsn : sn % n.mod = i % n.mod) (hlt : i < R)
    (hle : R ≤ i + n.mod) : modBase n.mod base sn = i + n.mod - R := by
  have hm := mod_le n
  have hbase : R % n.mod < n.mod := mod_lt _ (mod_pos n)
  refine modBase_of_lt (mod_dvd n) (by omega) hsn ?_ hlt hle
  rw [hR, mod_mod]

/-- an SN stands for exactly one index from the base on -/
theorem exists_index_of_base (hR : base = R % n.mod) (sn : ℕ) :
    ∃ i, R ≤ i ∧ i < R + n.mod ∧ sn % n.mod = i % n.mod ∧ modBase n.mod base sn = i - R := by
  have hm := mod_le n
  have hlt : R % n.mod < n.mod := mod_lt _ (mod_pos n)
  have hbase : modBase n.mod base sn < n.mod := modBase_lt (mod_pos n)
  refine ⟨R + modBase n.mod base sn, le_add_right _ _, by omega, ?_, by omega⟩
  have hmod : (modBase n.mod base sn + R) % n.mod = sn % n.mod := by
    refine modBase_add_modEq (mod_dvd n) (by omega) rfl ?_
    rw [hR, mod_mod]
  rw [add_comm, hmod]

/-- indices of one window have different SNs -/
theorem sn_inj (hi : R ≤ i) (hi' : i ≤ R + n.amWindowSize) (hj : R ≤ j) (hj' : j ≤ R + n.amWindowSize)
    (h : i % n.mod = j % n.mod) : i = j := by
  have h1 := mod_eq n
  have h2 := amWindowSize_ge n
  exact eq_of_mod_eq h (by omega) (by omega)

/-- and live in different slots of a map with AM_Window_Size slots -/
theorem slot_inj (hi : R ≤ i) (hi' : i < R + n.amWindowSize) (hj : R ≤ j) (hj' : j < R + n.amWindowSize)
    (h : i % n.mod % n.amWindowSize = j % n.mod % n.amWindowSize) : i = j := by
  have hdvd : n.amWindowSize ∣ n.mod := ⟨2, by rw [mod_eq, mul_comm]⟩
  rw [mod_mod_of_dvd _ hdvd, mod_mod_of_dvd _ hdvd] at h
  exact eq_of_mod_eq h (by omega) (by omega)

end Index

def invalidRlcSn : ℕ := 0xffffffff

theorem mod_ne_invalid (i : ℕ) : i % n.mod ≠ invalidRlcSn := by
  have h1 : i % n.mod < n.mod := mod_lt _ (mod_pos n)
  have h2 := mod_le n
  unfold invalidRlcSn
  omega

def retxCountNotStarted : ℕ := 0xffffffff

def soEndOfSdu : ℕ := 0xffff

/-! ## Data PDU header -/

inductive RlcDcField where
  | control
  | data
deriving DecidableEq, Repr

def RlcDcField.toNumber : RlcDcField → ℕ
  | .control => 0
  | .data => 1

inductive RlcSiField where
  | fullSdu
  | firstSegment
  | lastSegment
  | middleSegment
deriving DecidableEq, Repr

def RlcSiField.toNumber : RlcSiField → ℕ
  | .fullSdu => 0
  | .firstSegment => 1
  | .lastSegment => 2
  | .middleSegment => 3

/-- the two SI bits of a header byte -/
def RlcSiField.ofNumber : ℕ → RlcSiField
  | 0 => .fullSdu
  | 1 => .firstSegment
  | 2 => .lastSegment
  | _ => .middleSegment

/-- whether a PDU with this SI carries a segment offset -/
def RlcSiField.hasSo (si : RlcSiField) : Bool := si = .lastSegment || si = .middleSegment

structure RlcAmPduHeader where
  dc : RlcDcField
  p : Bool
  si : RlcSiField
  snSize : RlcAmSnSize
  sn : ℕ
  so : ℕ
deriving DecidableEq, Repr

def rlcAmPduHeaderSoSize : ℕ := 2

def rlcAmPduHeaderMinSize : RlcAmSnSize → ℕ
  | .size12bits => 2
  | .size18bits => 3

def rlcAmPduHeaderMaxSize : ℕ := rlcAmPduHeaderMinSize n + rlcAmPduHeaderSoSize

def RlcAmPduHeader.getPackedSize (h : RlcAmPduHeader) : ℕ :=
  if h.si.hasSo then rlcAmPduHeaderMaxSize h.snSize else rlcAmPduHeaderMinSize h.snSize

/-- first header byte: D/C, P, SI and the given upper SN bits -/
def headerByte (h : RlcAmPduHeader) (upperSn : ℕ) : ℕ :=
  (h.dc.toNumber &&& 0x01) <<< 7 ||| (h.p.toNat &&& 0x01) <<< 6 ||| (h.si.toNumber &&& 0x03) <<< 4 ||| upperSn

def rlcAmWriteDataPduHeader (h : RlcAmPduHeader) : Bytes :=
  (match h.snSize with
    | .size12bits => [UInt8.ofNat (headerByte h ((h.sn >>> 8) &&& 0x0f)), UInt8.ofNat (h.sn &&& 0xff)]
    | .size18bits => [UInt8.ofNat (headerByte h ((h.sn >>> 16) &&& 0x3)), UInt8.ofNat (h.sn >>> 8),
        UInt8.ofNat (h.sn &&& 0xff)])
  ++ (if h.so ≠ 0 then [UInt8.ofNat (h.so >>> 8), UInt8.ofNat (h.so &&& 0xff)] else [])

/-- D/C, P and SI of the first header byte, with an SN; SO stays 0 where the PDU has none -/
def fixedHeader (b sn : ℕ) : RlcAmPduHeader :=
  { dc := if (b >>> 7) &&& 0x01 = 0 then .control else .data
    p := (b >>> 6) &&& 0x01 ≠ 0
    si := RlcSiField.ofNumber ((b >>> 4) &&& 0x03)
    snSize := n
    sn := sn
    so := 0 }

/-- the fixed part of the header, with the bytes behind it -/
def readFixedHeader : RlcAmSnSize → Bytes → Option (RlcAmPduHeader × Bytes)
  | .size12bits, b0 :: b1 :: r =>
    some (fixedHeader .size12bits b0.toNat ((b0.toNat &&& 0x0f) <<< 8 ||| (b1.toNat &&& 0xff)), r)
  | .size18bits, b0 :: b1 :: b2 :: r =>
    if b0.toNat &&& 0x0c ≠ 0 then none
    else some (fixedHeader .size18bits b0.toNat
      ((b0.toNat &&& 0x03) <<< 16 ||| (b1.toNat &&& 0xff) <<< 8 ||| (b2.toNat &&& 0xff)), r)
  | _, _ => none

/-- the segment offset of a middle or last segment -/
def readHeaderSo (h : RlcAmPduHeader) (r : Bytes) : Option (RlcAmPduHeader × Bytes) :=
  if h.si.hasSo then
    match r with
    | s0 :: s1 :: r => some ({ h with so := (s0.toNat &&& 0xff) <<< 8 ||| (s1.toNat &&& 0xff) }, r)
    | _ => none
  else some (h, r)

/-- header fields read from the PDU, with the bytes behind the header -/
def rlcAmReadDataPduHeader (pdu : Bytes) : Option (RlcAmPduHeader × Bytes) :=
  if pdu.length ≤ rlcAmPduHeaderMinSize n then none
  else
    match readFixedHeader n pdu with
    | none => none
    | some (h, r) => readHeaderSo h r

/-! ## NACKs and the STATUS PDU -/

structure RlcAmStatusNack where
  nackSn : ℕ := 0
  hasSo : Bool := false
  soStart : ℕ := 0
  soEnd : ℕ := soEndOfSdu
  hasNackRange : Bool := false
  nackRange : ℕ := 0
deriving DecidableEq, Repr

/-- what the field widths of the source guarantee, for SNs of the given size -/
structure RlcAmStatusNack.Fits (n : RlcAmSnSize) (nack : RlcAmStatusNack) : Prop where
  sn : nack.nackSn < n.mod
  start : nack.soStart < 2 ^ 16
  stop : nack.soEnd < 2 ^ 16
  range : nack.nackRange < 2 ^ 8

instance (n : RlcAmSnSize) (nack : RlcAmStatusNack) : Decidable (nack.Fits n) :=
  decidable_of_iff (nack.nackSn < n.mod ∧ nack.soStart < 2 ^ 16 ∧ nack.soEnd < 2 ^ 16 ∧ nack.nackRange < 2 ^ 8)
    ⟨fun h => ⟨h.1, h.2.1, h.2.2.1, h.2.2.2⟩, fun h => ⟨h.sn, h.start, h.stop, h.range⟩⟩

/-- number of SNs the NACK covers -/
def RlcAmStatusNack.range (nack : RlcAmStatusNack) : ℕ := if nack.hasNackRange then nack.nackRange else 1

structure RlcAmStatusPdu where
  snSize : RlcAmSnSize
  nacks : List RlcAmStatusNack := []
  packedSize : ℕ := 3
  ackSn : ℕ := invalidRlcSn
deriving DecidableEq, Repr

namespace RlcAmStatusPdu

def sizeofHeaderAckSn : ℕ := 3

def sizeofNackSnExt : RlcAmSnSize → ℕ
  | .size12bits => 2
  | .size18bits => 3

def sizeofNackSo : ℕ := 4

def sizeofNackRange : ℕ := 1

variable (st : RlcAmStatusPdu)

def reset : RlcAmStatusPdu :=
  { st with ackSn := invalidRlcSn, nacks := [], packedSize := sizeofHeaderAckSn }

/-- checks that two NACKs form a contiguous sequence of at most 255 SNs -/
def canBeMerged (left right : RlcAmStatusNack) : Bool :=
  if right.nackSn ≠ (if left.hasNackRange then left.nackSn + left.nackRange else left.nackSn + 1) % n.mod then false
  else if left.hasSo && left.soEnd ≠ soEndOfSdu then false
  else if right.hasSo && right.soStart ≠ 0 then false
  else left.range + right.range ≤ 255

variable (nack : RlcAmStatusNack)

def nackSize : ℕ :=
  sizeofNackSnExt n + (if nack.hasSo then sizeofNackSo else 0) + (if nack.hasNackRange then sizeofNackRange else 0)

/-- the previous NACK expanded by one that can be merged into it; the check keeps the range within its 8 bits -/
def expandPrev (prev nack : RlcAmStatusNack) : RlcAmStatusNack :=
  -- enable and update NACK range
  let ranged : RlcAmStatusNack :=
    if nack.hasNackRange then
      if prev.hasNackRange then { prev with nackRange := prev.nackRange + nack.nackRange }
      else { prev with nackRange := nack.nackRange + 1, hasNackRange := true }
    else
      if prev.hasNackRange then { prev with nackRange := prev.nackRange + 1 }
      else { prev with nackRange := 2, hasNackRange := true }
  -- enable and update segment offsets
  if nack.hasSo then
    let started : RlcAmStatusNack := if !prev.hasSo then { ranged with hasSo := true, soStart := 0 } else ranged
    { started with soEnd := nack.soEnd }
  else
    if prev.hasSo then { ranged with soEnd := soEndOfSdu } else ranged

def pushNack : RlcAmStatusPdu :=
  match st.nacks.getLast? with
  | none => { st with nacks := st.nacks ++ [nack], packedSize := st.packedSize + nackSize st.snSize nack }
  | some prev =>
    if !canBeMerged st.snSize prev nack then
      { st with nacks := st.nacks ++ [nack], packedSize := st.packedSize + nackSize st.snSize nack }
    else
      { st with
        nacks := st.nacks.dropLast ++ [expandPrev prev nack]
        packedSize := st.packedSize - nackSize st.snSize prev + nackSize st.snSize (expandPrev prev nack) }

/-- the NACK removal loop of trim; each round removes one NACK -/
def trimLoop (maxPackedSize : ℕ) : ℕ → RlcAmStatusPdu → RlcAmStatusPdu
  | 0, st => st
  | fuel + 1, st =>
    match st.nacks.getLast? with
    | none => st
    | some back =>
      if maxPackedSize < st.packedSize ∨ back.nackSn = st.ackSn then
        trimLoop maxPackedSize fuel
          { st with
            packedSize := st.packedSize - nackSize st.snSize back
            ackSn := back.nackSn
            nacks := st.nacks.dropLast }
      else st

/-- whether the report fits after removing NACKs from the back, and the report -/
def trim (maxPackedSize : ℕ) : Bool × RlcAmStatusPdu :=
  if maxPackedSize ≥ st.packedSize then (true, st)
  else if maxPackedSize < sizeofHeaderAckSn then (false, st)
  else (true, trimLoop maxPackedSize st.nacks.length st)

/-! ## Packing -/

/-- segment offsets and NACK range behind the NACK SN; the same bytes for both SN sizes -/
def packNackExt : Bytes :=
  (if nack.hasSo then [UInt8.ofNat (nack.soStart >>> 8), UInt8.ofNat nack.soStart,
    UInt8.ofNat (nack.soEnd >>> 8), UInt8.ofNat nack.soEnd] else [])
  ++ (if nack.hasNackRange then [UInt8.ofNat nack.nackRange] else [])

/-- NACK SN with E1 (more NACKs follow), E2 (offsets follow) and E3 (a range follows) -/
def packNackSn12bit (e1 : Bool) : Bytes :=
  [UInt8.ofNat ((nack.nackSn >>> 4) &&& 0xff),
   UInt8.ofNat ((nack.nackSn &&& 0x0f) <<< 4 ||| (if e1 then 0x08 else 0) ||| (if nack.hasSo then 0x04 else 0)
    ||| (if nack.hasNackRange then 0x02 else 0))]

def packNackSn18bit (e1 : Bool) : Bytes :=
  [UInt8.ofNat ((nack.nackSn >>> 10) &&& 0xff),
   UInt8.ofNat ((nack.nackSn >>> 2) &&& 0xff),
   UInt8.ofNat ((nack.nackSn <<< 6) &&& 0xc0 ||| (if e1 then 0x20 else 0) ||| (if nack.hasSo then 0x10 else 0)
    ||| (if nack.hasNackRange then 0x08 else 0))]

/-- the NACK entries; E1 is set on all but the last -/
def packNacks (packSn : RlcAmStatusNack → Bool → Bytes) : List RlcAmStatusNack → Bytes
  | [] => []
  | nack :: rest => packSn nack (!rest.isEmpty) ++ packNackExt nack ++ packNacks packSn rest

def pack12bit : Bytes :=
  [UInt8.ofNat ((st.ackSn >>> 8) &&& 0x0f), UInt8.ofNat (st.ackSn &&& 0xff),
   if !st.nacks.isEmpty then 0x80 else 0x00]
  ++ packNacks packNackSn12bit st.nacks

def pack18bit : Bytes :=
  [UInt8.ofNat ((st.ackSn >>> 14) &&& 0x0f), UInt8.ofNat ((st.ackSn >>> 6) &&& 0xff),
   UInt8.ofNat ((st.ackSn <<< 2) &&& 0xfc ||| (if !st.nacks.isEmpty then 0x02 else 0))]
  ++ packNacks packNackSn18bit st.nacks

def pack : Bytes :=
  match st.snSize with
  | .size12bits => st.pack12bit
  | .size18bits => st.pack18bit

/-! ## Unpacking -/

inductive UnpackError where
  | inputTooShort
  | notStatusPdu
  | unsupportedCpt
  | reservedBits
  | pastEnd
  | outOfFuel
deriving DecidableEq, Repr

/-- `*pdu_reader` followed by `++pdu_reader` -/
def readByte : Bytes → Except UnpackError (ℕ × Bytes)
  | [] => .error .pastEnd
  | b :: r => .ok (b.toNat, r)

/-- NACK SN with the extension flags behind it -/
structure NackSnExt where
  sn : ℕ
  e1 : Bool
  e2 : Bool
  e3 : Bool
deriving DecidableEq, Repr

def readNackSn12bit (r : Bytes) : Except UnpackError (NackSnExt × Bytes) :=
  if r.length < sizeofNackSnExt .size12bits then .error .inputTooShort
  else do
    let (b0, r) ← readByte r
    let (b1, r) ← readByte r
    if b1 &&& 0x01 ≠ 0 then .error .reservedBits
    else .ok (⟨(b0 &&& 0xff) <<< 4 ||| (b1 &&& 0xf0) >>> 4, b1 &&& 0x08 ≠ 0, b1 &&& 0x04 ≠ 0, b1 &&& 0x02 ≠ 0⟩, r)

def readNackSn18bit (r : Bytes) : Except UnpackError (NackSnExt × Bytes) :=
  if r.length < sizeofNackSnExt .size18bits then .error .inputTooShort
  else do
    let (b0, r) ← readByte r
    let (b1, r) ← readByte r
    let (b2, r) ← readByte r
    if b2 &&& 0x07 ≠ 0 then .error .reservedBits
    else .ok (⟨(b0 &&& 0xff) <<< 10 ||| (b1 &&& 0xff) <<< 2 ||| (b2 &&& 0xc0) >>> 6,
      b2 &&& 0x20 ≠ 0, b2 &&& 0x10 ≠ 0, b2 &&& 0x08 ≠ 0⟩, r)

def readNackSo (e2 : Bool) (nack : RlcAmStatusNack) (r : Bytes) : Except UnpackError (RlcAmStatusNack × Bytes) :=
  if !e2 then .ok (nack, r)
  else if r.length < sizeofNackSo then .error .inputTooShort
  else do
    let (b0, r) ← readByte r
    let (b1, r) ← readByte r
    let (b2, r) ← readByte r
    let (b3, r) ← readByte r
    .ok ({ nack with hasSo := true, soStart := b0 <<< 8 ||| b1, soEnd := b2 <<< 8 ||| b3 }, r)

def readNackRange (e3 : Bool) (nack : RlcAmStatusNack) (r : Bytes) : Except UnpackError (RlcAmStatusNack × Bytes) :=
  if !e3 then .ok (nack, r)
  else if r.length < sizeofNackRange then .error .inputTooShort
  else do
    let (b, r) ← readByte r
    .ok ({ nack with hasNackRange := true, nackRange := b }, r)

/-- `while (e1 != 0)`: one NACK entry per round -/
def unpackNacks (readSn : Bytes → Except UnpackError (NackSnExt × Bytes)) :
    ℕ → Bool → Bytes → RlcAmStatusPdu → Except UnpackError RlcAmStatusPdu
  | _, false, _, st => .ok st
  | 0, true, _, _ => .error .outOfFuel
  | fuel + 1, true, r, st => do
    let (ext, r) ← readSn r
    let (nack, r) ← readNackSo ext.e2 { nackSn := ext.sn } r
    let (nack, r) ← readNackRange ext.e3 nack r
    unpackNacks readSn fuel ext.e1 r (st.pushNack nack)

def isControlPdu (pdu : Bytes) : Except UnpackError Bool := do
  let (b, _) ← readByte pdu
  .ok ((b >>> 7) &&& 0x01 = RlcDcField.control.toNumber)

/-- the checks on the first byte that both formats share; afterwards the reader stands on that byte -/
def unpackFixed (pdu : Bytes) : Except UnpackError Unit :=
  if pdu.length < sizeofHeaderAckSn then .error .inputTooShort
  else do
    let control ← isControlPdu pdu
    if !control then .error .notStatusPdu
    else
      let (b, _) ← readByte pdu
      if (b >>> 4) &&& 0x07 ≠ 0 then .error .unsupportedCpt else .ok ()

def unpack12bit (pdu : Bytes) : Except UnpackError RlcAmStatusPdu := do
  unpackFixed pdu
  let (b0, r) ← readByte pdu
  let (b1, r) ← readByte r
  let (b2, r) ← readByte r
  let st : RlcAmStatusPdu := { snSize := .size12bits, ackSn := (b0 &&& 0x0f) <<< 8 ||| (b1 &&& 0xff) }
  if b2 &&& 0x7f ≠ 0 then .error .reservedBits
  else unpackNacks readNackSn12bit pdu.length (b2 &&& 0x80 ≠ 0) r st

def unpack18bit (pdu : Bytes) : Except UnpackError RlcAmStatusPdu := do
  unpackFixed pdu
  let (b0, r) ← readByte pdu
  let (b1, r) ← readByte r
  let (b2, r) ← readByte r
  let st : RlcAmStatusPdu :=
    { snSize := .size18bits, ackSn := (b0 &&& 0x0f) <<< 14 ||| (b1 &&& 0xff) <<< 6 ||| (b2 &&& 0xfc) >>> 2 }
  if b2 &&& 0x01 ≠ 0 then .error .reservedBits
  else unpackNacks readNackSn18bit pdu.length (b2 &&& 0x02 ≠ 0) r st

def unpack (pdu : Bytes) : Except UnpackError RlcAmStatusPdu :=
  match n with
  | .size12bits => unpack12bit pdu
  | .size18bits => unpack18bit pdu

/-- the report obtained by pushing NACKs one by one onto an empty report -/
def build (ackSn : ℕ) (ns : List RlcAmStatusNack) : RlcAmStatusPdu :=
  ns.foldl pushNack { snSize := n, ackSn := ackSn }

end RlcAmStatusPdu

end OcuduRan.Rlc
