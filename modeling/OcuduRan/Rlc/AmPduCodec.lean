/-
The byte format of the STATUS PDU.

  pack     writes exactly packed_size bytes.
  round    unpacking a packed report gives the report back. Each NACK entry is read back field by field; unpack pushes
           the entries through push_nack again, and because a built list is normal nothing merges the second time.
  bounds   unpack checks the remaining length before each group of fields, so no byte outside the buffer is read
           whatever the buffer holds; every round of the NACK loop consumes an entry, so the loop ends.
-/
import OcuduRan.Core.Bits
import OcuduRan.Rlc.AmPduMerge

namespace OcuduRan.Rlc

open Bits List Nat

/-- the NACK as its bytes determine it: fields whose flag is off read as the constructor's defaults -/
def RlcAmStatusNack.onWire (nack : RlcAmStatusNack) : RlcAmStatusNack :=
  { nackSn := nack.nackSn
    hasSo := nack.hasSo
    soStart := if nack.hasSo then nack.soStart else 0
    soEnd := if nack.hasSo then nack.soEnd else soEndOfSdu
    hasNackRange := nack.hasNackRange
    nackRange := if nack.hasNackRange then nack.nackRange else 0 }

namespace RlcAmStatusPdu

variable {n : RlcAmSnSize} {ns : List RlcAmStatusNack} {nack : RlcAmStatusNack} {b0 b1 b2 : UInt8} {r pdu : Bytes}
  {st : RlcAmStatusPdu}

theorem canBeMerged_onWire (left right : RlcAmStatusNack) :
    canBeMerged n left.onWire right.onWire = canBeMerged n left right := by
  unfold canBeMerged RlcAmStatusNack.range RlcAmStatusNack.onWire
  cases left.hasNackRange <;> cases right.hasNackRange <;> cases left.hasSo <;> cases right.hasSo <;> rfl

theorem normal_onWire (h : Normal n ns) : Normal n (ns.map (·.onWire)) := by
  rw [Normal, isChain_map]
  simp only [canBeMerged_onWire]
  exact h

/-- a NACK survives the wire if its unused fields hold the constructor's values -/
theorem onWire_eq_iff (nack : RlcAmStatusNack) : nack.onWire = nack ↔
    (nack.hasSo = false → nack.soStart = 0 ∧ nack.soEnd = soEndOfSdu) ∧
    (nack.hasNackRange = false → nack.nackRange = 0) := by
  obtain ⟨sn, so, start, stop, hr, range⟩ := nack
  cases so <;> cases hr <;> simp [RlcAmStatusNack.onWire, eq_comm, and_assoc]

theorem expandPrev_onWire {prev : RlcAmStatusNack} (hp : prev.onWire = prev) :
    (expandPrev prev nack).onWire = expandPrev prev nack := by
  rw [onWire_eq_iff] at hp ⊢
  refine ⟨?_, by simp⟩
  intro hso
  rw [expandPrev_hasSo, Bool.or_eq_false_iff] at hso
  simpa [expandPrev_soStart, expandPrev_soEnd, hso.1, hso.2] using hp.1 hso.1

@[simp] theorem nackSize_onWire (nack : RlcAmStatusNack) : nackSize n nack.onWire = nackSize n nack := rfl

theorem nacksSize_onWire (ns : List RlcAmStatusNack) : nacksSize n (ns.map (·.onWire)) = nacksSize n ns := by
  induction ns with
  | nil => rfl
  | cons nack ns ih => simp [ih]

/-! ## One NACK entry -/

def packNackSn : RlcAmSnSize → RlcAmStatusNack → Bool → Bytes
  | .size12bits => packNackSn12bit
  | .size18bits => packNackSn18bit

def readNackSn : RlcAmSnSize → Bytes → Except UnpackError (NackSnExt × Bytes)
  | .size12bits => readNackSn12bit
  | .size18bits => readNackSn18bit

theorem flags12bit (a : Fin 16) (e1 e2 e3 : Bool) :
    let b := a.val <<< 4 ||| (if e1 then 0x08 else 0) ||| (if e2 then 0x04 else 0) ||| (if e3 then 0x02 else 0)
    b < 256 ∧ b &&& 0x01 = 0 ∧ (b &&& 0xf0) >>> 4 = a.val ∧ decide (b &&& 0x08 ≠ 0) = e1 ∧
      decide (b &&& 0x04 ≠ 0) = e2 ∧ decide (b &&& 0x02 ≠ 0) = e3 := by
  revert a e1 e2 e3
  decide

theorem flags18bit (a : Fin 4) (e1 e2 e3 : Bool) :
    let b := a.val <<< 6 ||| (if e1 then 0x20 else 0) ||| (if e2 then 0x10 else 0) ||| (if e3 then 0x08 else 0)
    b < 256 ∧ b &&& 0x07 = 0 ∧ (b &&& 0xc0) >>> 6 = a.val ∧ decide (b &&& 0x20 ≠ 0) = e1 ∧
      decide (b &&& 0x10 ≠ 0) = e2 ∧ decide (b &&& 0x08 ≠ 0) = e3 := by
  revert a e1 e2 e3
  decide

section

variable (nack : RlcAmStatusNack)

theorem readNackSn12bit_pack (e1 : Bool) (r : Bytes) (h : nack.nackSn < 4096) :
    readNackSn12bit (packNackSn12bit nack e1 ++ r) = .ok (⟨nack.nackSn, e1, nack.hasSo, nack.hasNackRange⟩, r) := by
  obtain ⟨hlt, hres, hsn, h1, h2, h3⟩ :=
    flags12bit ⟨nack.nackSn % 16, mod_lt _ (by decide)⟩ e1 nack.hasSo nack.hasNackRange
  have hupper : nack.nackSn >>> 4 % 256 % 256 = nack.nackSn / 16 := by
    rw [shiftRight_eq_div_pow]
    omega
  have hsum : (nack.nackSn / 16) <<< 4 ||| nack.nackSn % 16 = nack.nackSn := by
    rw [shl_or _ (by omega)]
    omega
  simp only [packNackSn12bit, and_0x0f, and_0xff, cons_append, nil_append, readNackSn12bit,
    sizeofNackSnExt, length_cons, readByte, bind, Except.bind, UInt8.toNat_ofNat', reducePow,
    mod_eq_of_lt hlt, hres, hsn, h1, h2, h3, hupper]
  simp [mod_eq_of_lt (show nack.nackSn / 16 < 256 by omega), hsum]

theorem readNackSn18bit_pack (e1 : Bool) (r : Bytes) (h : nack.nackSn < 262144) :
    readNackSn18bit (packNackSn18bit nack e1 ++ r) = .ok (⟨nack.nackSn, e1, nack.hasSo, nack.hasNackRange⟩, r) := by
  obtain ⟨hlt, hres, hsn, h1, h2, h3⟩ :=
    flags18bit ⟨nack.nackSn % 4, mod_lt _ (by decide)⟩ e1 nack.hasSo nack.hasNackRange
  have hlow : nack.nackSn <<< 6 &&& 0xc0 = (nack.nackSn % 4) <<< 6 := shl_and nack.nackSn 6 2
  have hupper : nack.nackSn >>> 10 % 256 % 256 = nack.nackSn / 1024 := by
    rw [shiftRight_eq_div_pow]
    omega
  have hcenter : nack.nackSn >>> 2 % 256 % 256 = nack.nackSn / 4 % 256 := by
    rw [shiftRight_eq_div_pow]
    omega
  have hsum : (nack.nackSn / 1024) <<< 10 ||| (nack.nackSn / 4 % 256) <<< 2 ||| nack.nackSn % 4 = nack.nackSn := by
    rw [Nat.or_assoc, shl_or (nack.nackSn / 4 % 256) (by omega), shl_or _ (by omega)]
    omega
  simp only [packNackSn18bit, and_0xff, hlow, cons_append, nil_append, readNackSn18bit,
    sizeofNackSnExt, length_cons, readByte, bind, Except.bind, UInt8.toNat_ofNat', reducePow,
    mod_eq_of_lt hlt, hres, hsn, h1, h2, h3, hupper, hcenter]
  simp [mod_eq_of_lt (show nack.nackSn / 1024 < 256 by omega), hsum]

theorem readNackSn_pack (e1 : Bool) (r : Bytes) (h : nack.nackSn < n.mod) :
    readNackSn n (packNackSn n nack e1 ++ r) = .ok (⟨nack.nackSn, e1, nack.hasSo, nack.hasNackRange⟩, r) := by
  cases n with
  | size12bits => exact readNackSn12bit_pack nack e1 r h
  | size18bits => exact readNackSn18bit_pack nack e1 r h

@[simp] theorem readNackSo_cons (b0 b1 b2 b3 : UInt8) (r : Bytes) :
    readNackSo true nack (b0 :: b1 :: b2 :: b3 :: r) = .ok ({ nack with
      hasSo := true
      soStart := b0.toNat <<< 8 ||| b1.toNat
      soEnd := b2.toNat <<< 8 ||| b3.toNat }, r) := by
  have : ¬ (r.length + 1 + 1 + 1 + 1 < 4) := by omega
  simp [readNackSo, sizeofNackSo, readByte, bind, Except.bind, this]

@[simp] theorem readNackRange_cons (b : UInt8) (r : Bytes) :
    readNackRange true nack (b :: r) = .ok ({ nack with hasNackRange := true, nackRange := b.toNat }, r) := by
  simp [readNackRange, sizeofNackRange, readByte, bind, Except.bind]

@[simp] theorem readNackSo_false (r : Bytes) : readNackSo false nack r = .ok (nack, r) := rfl

@[simp] theorem readNackRange_false (r : Bytes) :
    readNackRange false nack r = .ok (nack, r) := rfl

end

/-- offsets and range are read back in the order they are written -/
theorem readNackExt_pack (h : nack.Fits n) (r : Bytes) :
    ∃ x r', readNackSo nack.hasSo { nackSn := nack.nackSn } (packNackExt nack ++ r) = .ok (x, r') ∧
      readNackRange nack.hasNackRange x r' = .ok (nack.onWire, r) := by
  have hrange : nack.nackRange % 256 = nack.nackRange := mod_eq_of_lt h.range
  cases hso : nack.hasSo <;> cases hr : nack.hasNackRange <;>
    simp [packNackExt, RlcAmStatusNack.onWire, hso, hr, two_bytes h.start, two_bytes h.stop, hrange]

/-! ## The whole report -/

theorem length_packNackSn (nack : RlcAmStatusNack) (e1 : Bool) :
    (packNackSn n nack e1).length = sizeofNackSnExt n := by cases n <;> rfl

theorem length_packNackExt (nack : RlcAmStatusNack) :
    sizeofNackSnExt n + (packNackExt nack).length = nackSize n nack := by
  unfold packNackExt nackSize
  cases nack.hasSo <;> cases nack.hasNackRange <;> rfl

theorem length_packNacks (ns : List RlcAmStatusNack) : (packNacks (packNackSn n) ns).length = nacksSize n ns := by
  induction ns with
  | nil => rfl
  | cons nack ns ih =>
    simp only [packNacks, length_append, length_packNackSn, ih, nacksSize_cons, ← length_packNackExt (n := n)]

theorem unpackNacks_pack (hns : ∀ nack ∈ ns, nack.Fits n) (st : RlcAmStatusPdu) (fuel : ℕ) (hf : ns.length ≤ fuel) :
    unpackNacks (readNackSn n) fuel (!ns.isEmpty) (packNacks (packNackSn n) ns) st =
      .ok ((ns.map (·.onWire)).foldl pushNack st) := by
  induction ns generalizing st fuel with
  | nil => cases fuel <;> rfl
  | cons nack ns ih =>
    cases fuel with
    | zero => simp at hf
    | succ fuel =>
      have hnack := hns nack (by simp)
      have hrest := ih (fun x hx => hns x (by simp [hx])) (st.pushNack nack.onWire) fuel (by simpa using hf)
      obtain ⟨x, r', hso, hrange⟩ := readNackExt_pack hnack (packNacks (packNackSn n) ns)
      simp only [packNacks, isEmpty_cons, Bool.not_false, unpackNacks, append_assoc,
        readNackSn_pack nack _ _ hnack.sn, bind, Except.bind, hso, hrange]
      simpa using hrest

theorem sizeofNackSnExt_pos (n : RlcAmSnSize) : 2 ≤ sizeofNackSnExt n := by cases n <;> decide

theorem sizeofNackSnExt_le_nackSize (nack : RlcAmStatusNack) : sizeofNackSnExt n ≤ nackSize n nack := by
  unfold nackSize
  omega

theorem nacksSize_ge (ns : List RlcAmStatusNack) : ns.length ≤ nacksSize n ns := by
  induction ns with
  | nil => simp
  | cons nack ns ih =>
    have h1 := sizeofNackSnExt_pos n
    have h2 := sizeofNackSnExt_le_nackSize (n := n) nack
    simp only [length_cons, nacksSize_cons]
    omega

/-- the loop has a round for each NACK -/
theorem length_le_packNacks (ns : List RlcAmStatusNack) : ns.length ≤ (packNacks (packNackSn n) ns).length + 3 := by
  rw [length_packNacks]
  exact (nacksSize_ge ns).trans (le_add_right _ _)

theorem length_pack (st : RlcAmStatusPdu) : st.pack.length = sizeofHeaderAckSn + nacksSize st.snSize st.nacks := by
  unfold pack pack12bit pack18bit
  cases hn : st.snSize with
  | size12bits =>
    have := length_packNacks (n := .size12bits) st.nacks
    simp only [packNackSn] at this
    simp [this, sizeofHeaderAckSn]
    omega
  | size18bits =>
    have := length_packNacks (n := .size18bits) st.nacks
    simp only [packNackSn] at this
    simp [this, sizeofHeaderAckSn]
    omega

theorem unpackFixed_cons (b1 b2 : UInt8) (r : Bytes) (h : b0.toNat < 16) :
    unpackFixed (b0 :: b1 :: b2 :: r) = .ok () := by
  have h7 : b0.toNat >>> 7 = 0 := by
    rw [shiftRight_eq_div_pow]
    omega
  have h4 : b0.toNat >>> 4 = 0 := by
    rw [shiftRight_eq_div_pow]
    omega
  have hlen : ¬ (r.length + 1 + 1 + 1 < 3) := by omega
  simp [unpackFixed, isControlPdu, readByte, bind, Except.bind, sizeofHeaderAckSn, RlcDcField.toNumber, h7, h4, hlen]

theorem unpack12bit_cons (h : b0.toNat < 16) : unpack12bit (b0 :: b1 :: b2 :: r) =
      if b2.toNat &&& 0x7f ≠ 0 then .error .reservedBits
      else unpackNacks readNackSn12bit (r.length + 3) (b2.toNat &&& 0x80 ≠ 0) r
        { snSize := .size12bits, ackSn := (b0.toNat &&& 0x0f) <<< 8 ||| (b1.toNat &&& 0xff) } := by
  simp only [unpack12bit, unpackFixed_cons b1 b2 r h, readByte, bind, Except.bind, length_cons]

theorem unpack18bit_cons (h : b0.toNat < 16) : unpack18bit (b0 :: b1 :: b2 :: r) =
      if b2.toNat &&& 0x01 ≠ 0 then .error .reservedBits
      else unpackNacks readNackSn18bit (r.length + 3) (b2.toNat &&& 0x02 ≠ 0) r
        { snSize := .size18bits,
          ackSn := (b0.toNat &&& 0x0f) <<< 14 ||| (b1.toNat &&& 0xff) <<< 6 ||| (b2.toNat &&& 0xfc) >>> 2 } := by
  simp only [unpack18bit, unpackFixed_cons b1 b2 r h, readByte, bind, Except.bind, length_cons]

theorem unpack_pack12bit (ha : st.ackSn < 4096)
    (hns : ∀ nack ∈ st.nacks, nack.Fits .size12bits) : unpack12bit st.pack12bit =
      .ok ((st.nacks.map (·.onWire)).foldl pushNack { snSize := .size12bits, ackSn := st.ackSn }) := by
  have hloop := unpackNacks_pack hns { snSize := .size12bits, ackSn := st.ackSn } _
    (length_le_packNacks (n := .size12bits) st.nacks)
  have hupper : st.ackSn >>> 8 = st.ackSn / 256 := shiftRight_eq_div_pow _ 8
  have hack : (st.ackSn / 256) <<< 8 ||| st.ackSn % 256 = st.ackSn := by
    rw [shl_or _ (by omega)]
    omega
  have hb0 : (UInt8.ofNat (st.ackSn >>> 8 &&& 0x0f)).toNat = st.ackSn / 256 := by
    rw [and_0x0f, hupper, UInt8.toNat_ofNat']
    omega
  have hb1 : (UInt8.ofNat (st.ackSn &&& 0xff)).toNat = st.ackSn % 256 := by
    rw [and_0xff, UInt8.toNat_ofNat']
    omega
  rw [pack12bit, cons_append, cons_append, cons_append, nil_append,
    unpack12bit_cons (by rw [hb0]; omega), hb0, hb1, and_0x0f, and_0xff,
    mod_eq_of_lt (show st.ackSn / 256 < 16 by omega), mod_mod, hack, ← hloop]
  cases st.nacks.isEmpty <;> rfl

theorem unpack_pack18bit (ha : st.ackSn < 262144)
    (hns : ∀ nack ∈ st.nacks, nack.Fits .size18bits) : unpack18bit st.pack18bit =
      .ok ((st.nacks.map (·.onWire)).foldl pushNack { snSize := .size18bits, ackSn := st.ackSn }) := by
  have hloop := unpackNacks_pack hns { snSize := .size18bits, ackSn := st.ackSn } _
    (length_le_packNacks (n := .size18bits) st.nacks)
  have hupper : st.ackSn >>> 14 = st.ackSn / 16384 := shiftRight_eq_div_pow _ 14
  have hcenter : st.ackSn >>> 6 = st.ackSn / 64 := shiftRight_eq_div_pow _ 6
  have hlow : st.ackSn <<< 2 &&& 0xfc = (st.ackSn % 64) <<< 2 := shl_and st.ackSn 2 6
  have hack : (st.ackSn / 16384) <<< 14 ||| (st.ackSn / 64 % 256) <<< 6 ||| st.ackSn % 64 = st.ackSn := by
    rw [Nat.or_assoc, shl_or (st.ackSn / 64 % 256) (by omega), shl_or _ (by omega)]
    omega
  have hb0 : (UInt8.ofNat (st.ackSn >>> 14 &&& 0x0f)).toNat = st.ackSn / 16384 := by
    rw [and_0x0f, hupper, UInt8.toNat_ofNat']
    omega
  have hb1 : (UInt8.ofNat (st.ackSn >>> 6 &&& 0xff)).toNat = st.ackSn / 64 % 256 := by
    rw [and_0xff, hcenter, UInt8.toNat_ofNat']
    omega
  -- third byte: six SN bits above E1
  have hb2 : ∀ e : Bool, ∀ b : ℕ, b = (UInt8.ofNat ((st.ackSn % 64) <<< 2 ||| if e then 0x02 else 0)).toNat →
      b &&& 0x01 = 0 ∧ (b &&& 0xfc) >>> 2 = st.ackSn % 64 ∧ decide (b &&& 0x02 ≠ 0) = e := by
    rintro e b rfl
    have : ∀ a : Fin 64, ∀ e : Bool, let b := (UInt8.ofNat (a.val <<< 2 ||| if e then 0x02 else 0)).toNat
        b &&& 0x01 = 0 ∧ (b &&& 0xfc) >>> 2 = a.val ∧ decide (b &&& 0x02 ≠ 0) = e := by decide
    exact this ⟨st.ackSn % 64, mod_lt _ (by decide)⟩ e
  obtain ⟨hres, hsn, he1⟩ := hb2 (!st.nacks.isEmpty) _ rfl
  rw [pack18bit, hlow, cons_append, cons_append, cons_append, nil_append,
    unpack18bit_cons (by rw [hb0]; omega), hb0, hb1, hsn, he1, hres, and_0x0f, and_0xff,
    mod_eq_of_lt (show st.ackSn / 16384 < 16 by omega), mod_mod, hack, ← hloop]
  rfl

/-- unpacking a packed report pushes the NACKs, as they are on the wire, onto an empty report -/
theorem unpack_pack (ha : st.ackSn < st.snSize.mod)
    (hns : ∀ nack ∈ st.nacks, nack.Fits st.snSize) : unpack st.snSize st.pack =
      .ok (build st.snSize st.ackSn (st.nacks.map (·.onWire))) := by
  unfold unpack pack
  cases hn : st.snSize with
  | size12bits => exact unpack_pack12bit (by simpa [hn] using ha) (by simpa [hn] using hns)
  | size18bits => exact unpack_pack18bit (by simpa [hn] using ha) (by simpa [hn] using hns)

/-- a built report survives packing and unpacking -/
theorem unpack_pack_of_wf (h : st.Wf) (ha : st.ackSn < st.snSize.mod) :
    unpack st.snSize st.pack = .ok { st with nacks := st.nacks.map (·.onWire) } := by
  rw [unpack_pack ha h.fits, build, foldl_pushNack_normal (by simpa using normal_onWire h.normal)]
  simp [nacksSize_onWire, h.size, sizeofHeaderAckSn]

/-! ## Reading stays inside the buffer -/

/-- neither a read outside the buffer nor an unfinished loop -/
def UnpackError.Benign (e : UnpackError) : Prop := e ≠ .pastEnd ∧ e ≠ .outOfFuel

/-- the reader fails benignly, or consumes at least `k` of the bytes in front of it -/
def Consumes {α : Type} (k : ℕ) (r : Bytes) : Except UnpackError (α × Bytes) → Prop
  | .error e => e.Benign
  | .ok (_, r') => r'.length + k ≤ r.length

theorem readNackSn_consumes (r : Bytes) : Consumes (sizeofNackSnExt n) r (readNackSn n r) := by
  cases n with
  | size12bits =>
    rcases r with _ | ⟨b0, _ | ⟨b1, r⟩⟩
    iterate 2 simp [readNackSn, readNackSn12bit, sizeofNackSnExt, Consumes, UnpackError.Benign]
    · have hlen : ¬ (r.length + 1 + 1 < 2) := by omega
      simp only [readNackSn, readNackSn12bit, sizeofNackSnExt, length_cons, hlen, if_false, readByte, bind,
        Except.bind]
      split_ifs <;> simp [Consumes, UnpackError.Benign]
  | size18bits =>
    rcases r with _ | ⟨b0, _ | ⟨b1, _ | ⟨b2, r⟩⟩⟩
    iterate 3 simp [readNackSn, readNackSn18bit, sizeofNackSnExt, Consumes, UnpackError.Benign]
    · have hlen : ¬ (r.length + 1 + 1 + 1 < 3) := by omega
      simp only [readNackSn, readNackSn18bit, sizeofNackSnExt, length_cons, hlen, if_false, readByte, bind,
        Except.bind]
      split_ifs <;> simp [Consumes, UnpackError.Benign]

theorem readNackSo_consumes (e2 : Bool) (nack : RlcAmStatusNack) (r : Bytes) :
    Consumes 0 r (readNackSo e2 nack r) := by
  cases e2 with
  | false => simp [Consumes]
  | true =>
    match r with
    | [] | [_] | [_, _] | [_, _, _] => simp [readNackSo, sizeofNackSo, Consumes, UnpackError.Benign]
    | b0 :: b1 :: b2 :: b3 :: r => simp [Consumes]; omega

theorem readNackRange_consumes (e3 : Bool) (nack : RlcAmStatusNack) (r : Bytes) :
    Consumes 0 r (readNackRange e3 nack r) := by
  cases e3 with
  | false => simp [Consumes]
  | true =>
    match r with
    | [] => simp [readNackRange, sizeofNackRange, Consumes, UnpackError.Benign]
    | b :: r => simp [Consumes]

theorem length_pushNack (st : RlcAmStatusPdu) (nack : RlcAmStatusNack) :
    (st.pushNack nack).nacks.length ≤ st.nacks.length + 1 := by
  rcases eq_nil_or_concat' st.nacks with hnil | ⟨pre, prev, hsnoc⟩
  · simp [pushNack_of_nil hnil]
  · rw [pushNack_of_snoc hsnoc, hsnoc]
    split_ifs <;> simp

/-- result of a read of whole reports: a benign failure, or at most one NACK per `k` of the `len` bytes -/
def Bounded (k len : ℕ) (nacks0 : ℕ) : Except UnpackError RlcAmStatusPdu → Prop
  | .error e => e.Benign
  | .ok st => k * st.nacks.length ≤ k * nacks0 + len

theorem unpackNacks_bounded (fuel : ℕ) (e1 : Bool) (r : Bytes) (st : RlcAmStatusPdu) (hf : r.length < fuel) :
    Bounded (sizeofNackSnExt n) r.length st.nacks.length (unpackNacks (readNackSn n) fuel e1 r st) := by
  induction fuel generalizing e1 r st with
  | zero => omega
  | succ fuel ih =>
    cases e1 with
    | false => simp [unpackNacks, Bounded]
    | true =>
      have hpos := sizeofNackSnExt_pos n
      have h1 := readNackSn_consumes (n := n) r
      simp only [unpackNacks, bind, Except.bind]
      cases hsn : readNackSn n r with
      | error e => simpa [hsn, Consumes, Bounded] using h1
      | ok v =>
        simp only [hsn, Consumes] at h1
        have h2 := readNackSo_consumes v.1.e2 { nackSn := v.1.sn } v.2
        cases hso : readNackSo v.1.e2 { nackSn := v.1.sn } v.2 with
        | error e => simpa [hso, Consumes, Bounded] using h2
        | ok w =>
          simp only [hso, Consumes] at h2
          have h3 := readNackRange_consumes v.1.e3 w.1 w.2
          cases hra : readNackRange v.1.e3 w.1 w.2 with
          | error e => simpa [hso, hra, Consumes, Bounded] using h3
          | ok u =>
            simp only [hra, Consumes] at h3
            have hrec := ih v.1.e1 u.2 (st.pushNack u.1) (by omega)
            have hlen := mul_le_mul_left (sizeofNackSnExt n) (length_pushNack st u.1)
            -- the bytes of this entry pay for the NACK it adds
            cases hloop : unpackNacks (readNackSn n) fuel v.1.e1 u.2 (st.pushNack u.1) with
            | error e => simpa [hso, hra, hloop, Bounded] using hrec
            | ok y =>
              simp only [hso, hra, hloop, Bounded, mul_add, mul_one] at hrec hlen ⊢
              omega

theorem unpackFixed_error {e : UnpackError} (h : unpackFixed pdu = .error e) : e.Benign := by
  match pdu with
  | [] | [_] | [_, _] =>
    simp only [unpackFixed, sizeofHeaderAckSn, length_cons, length_nil] at h
    simp at h
    simp [← h, UnpackError.Benign]
  | b0 :: b1 :: b2 :: r =>
    have hlen : ¬ (r.length + 1 + 1 + 1 < 3) := by omega
    simp only [unpackFixed, isControlPdu, readByte, bind, Except.bind, sizeofHeaderAckSn, length_cons, hlen,
      if_false] at h
    split_ifs at h <;> simp at h <;> simp [← h, UnpackError.Benign]

theorem length_of_unpackFixed (h : unpackFixed pdu = .ok ()) : 3 ≤ pdu.length := by
  by_contra hlen
  have : pdu.length < sizeofHeaderAckSn := by unfold sizeofHeaderAckSn; omega
  simp [unpackFixed, this] at h

theorem length_of_unpack {y : RlcAmStatusPdu} (h : unpack n pdu = .ok y) : 3 ≤ pdu.length := by
  cases hfix : unpackFixed pdu with
  | error e => cases n <;> simp [unpack, unpack12bit, unpack18bit, hfix, bind, Except.bind] at h
  | ok => exact length_of_unpackFixed hfix

theorem unpack_bounded (pdu : Bytes) : Bounded (sizeofNackSnExt n) (pdu.length - sizeofHeaderAckSn) 0
    (unpack n pdu) := by
  cases hfix : unpackFixed pdu with
  | error e =>
    have := unpackFixed_error hfix
    cases n <;> simpa [unpack, unpack12bit, unpack18bit, hfix, bind, Except.bind, Bounded] using this
  | ok =>
    match pdu, length_of_unpackFixed hfix with
    | b0 :: b1 :: b2 :: r, _ =>
      have hlen : (b0 :: b1 :: b2 :: r).length - sizeofHeaderAckSn = r.length := by simp [sizeofHeaderAckSn]
      rw [hlen]
      cases n with
      | size12bits =>
        simp only [unpack, unpack12bit, hfix, readByte, bind, Except.bind, length_cons]
        split_ifs
        · simp [Bounded, UnpackError.Benign]
        · exact unpackNacks_bounded (n := .size12bits) _ _ r _ (by omega)
      | size18bits =>
        simp only [unpack, unpack18bit, hfix, readByte, bind, Except.bind, length_cons]
        split_ifs
        · simp [Bounded, UnpackError.Benign]
        · exact unpackNacks_bounded (n := .size18bits) _ _ r _ (by omega)

/-- The STATUS PDU codec. A report built by pushing NACKs whose fields fit their widths packs into exactly
packed_size bytes and unpacks to the same ACK_SN, the same packed size and the same NACKs (a field whose flag is off is
not on the wire; where it holds the constructor's default, the NACK lists are equal). Unpacking any byte string never
reads outside it, always ends, and yields no more NACKs than its length pays for. -/
theorem statusPdu_codec (n : RlcAmSnSize) :
    (∀ (ackSn : ℕ) (ns : List RlcAmStatusNack), ackSn < n.mod → (∀ nack ∈ ns, nack.Fits n) →
      (build n ackSn ns).pack.length = (build n ackSn ns).packedSize ∧
      ∃ y, unpack n (build n ackSn ns).pack = .ok y ∧ y.ackSn = ackSn ∧
        y.packedSize = (build n ackSn ns).packedSize ∧
        y.nacks = (build n ackSn ns).nacks.map (·.onWire) ∧
        ((∀ nack ∈ ns, nack.onWire = nack) → y.nacks = (build n ackSn ns).nacks)) ∧
    (∀ pdu : Bytes, unpack n pdu ≠ .error .pastEnd ∧ unpack n pdu ≠ .error .outOfFuel ∧
      ∀ y, unpack n pdu = .ok y → sizeofHeaderAckSn + sizeofNackSnExt n * y.nacks.length ≤ pdu.length) := by
  refine ⟨?_, ?_⟩
  · intro ackSn ns ha hns
    have hwf : (build n ackSn ns).Wf := build_wf hns
    have hround := unpack_pack_of_wf hwf (by simpa using ha)
    rw [build_snSize] at hround
    refine ⟨by rw [length_pack, hwf.size], _, hround, build_ackSn n ackSn ns, rfl, rfl, ?_⟩
    intro hwire
    have hall : ∀ x ∈ (build n ackSn ns).nacks, x.onWire = x :=
      forall_mem_foldl_pushNack (fun prev nack hp _ _ => expandPrev_onWire hp) (by simp) hwire
    exact (map_congr_left hall).trans (map_id' _)
  · intro pdu
    have h := unpack_bounded (n := n) pdu
    refine ⟨?_, ?_, ?_⟩
    · intro he
      exact (show UnpackError.Benign .pastEnd by simpa [he, Bounded] using h).1 rfl
    · intro he
      exact (show UnpackError.Benign .outOfFuel by simpa [he, Bounded] using h).2 rfl
    · intro y hy
      simp only [hy, Bounded] at h
      have := length_of_unpack hy
      simp only [sizeofHeaderAckSn] at h ⊢
      omega

/-- a segment NACK, a plain one behind it that merges into a range, and a separate one -/
def sampleNacks : List RlcAmStatusNack :=
  [{ nackSn := 7, hasSo := true, soStart := 20 }, { nackSn := 8 }, { nackSn := 4095, hasSo := true, soEnd := 9 }]

theorem statusPdu_codec_sample :
    (build .size12bits 20 sampleNacks).pack.length = (build .size12bits 20 sampleNacks).packedSize ∧
    ∃ y, unpack .size12bits (build .size12bits 20 sampleNacks).pack = .ok y ∧
      y.nacks = (build .size12bits 20 sampleNacks).nacks := by
  obtain ⟨hlen, y, hy, -, -, -, heq⟩ := (statusPdu_codec .size12bits).1 20 sampleNacks (by decide) (by decide)
  exact ⟨hlen, y, hy, heq (by decide)⟩

end RlcAmStatusPdu

end OcuduRan.Rlc
