/-
Expanding the NACKs of a STATUS PDU on the transmitting side.

handle_status_pdu expands a NACK range into one NACK per SN and computes from each the bytes to be sent again. The
expansion denotes what the NACK denotes, as long as the range ends before ACK_SN; and for a NACK whose offsets lie in
its SDU the bytes asked for are those it denotes, without a protocol failure.
-/
import OcuduRan.Rlc.AmNackSet
import OcuduRan.Rlc.AmTx

namespace OcuduRan.Rlc

open ModWindow RlcAmStatusPdu RlcTxAmEntity RlcAmStatusNack Nat

variable {n : RlcAmSnSize} {nack : RlcAmStatusNack} {ackSn byte : ℕ}

/-- the NACK for the SN `k` places behind the first one of a NACK range -/
def singleNack (n : RlcAmSnSize) (nack : RlcAmStatusNack) (k : ℕ) : RlcAmStatusNack :=
  let soStart := if k = 0 then nack.soStart else 0
  let soEnd := if k + 1 = nack.range then nack.soEnd else soEndOfSdu
  if nack.hasSo then
    { nackSn := (nack.nackSn + k) % n.mod
      hasSo := soStart ≠ 0 || soEnd ≠ soEndOfSdu
      soStart := soStart
      soEnd := soEnd }
  else { nackSn := (nack.nackSn + k) % n.mod }

@[simp] theorem singleNack_nackSn (nack : RlcAmStatusNack) (k : ℕ) :
    (singleNack n nack k).nackSn = (nack.nackSn + k) % n.mod := by
  unfold singleNack
  split_ifs <;> rfl

@[simp] theorem singleNack_hasNackRange (nack : RlcAmStatusNack) (k : ℕ) :
    (singleNack n nack k).hasNackRange = false := by
  unfold singleNack
  split_ifs <;> rfl

theorem singleNack_range (nack : RlcAmStatusNack) (k : ℕ) : (singleNack n nack k).range = 1 := by
  rw [range, singleNack_hasNackRange]
  rfl

/-- a NACK without range denotes bytes of its own SN -/
theorem denotes_of_range_one (hr : nack.range = 1) (hsn : nack.nackSn < n.mod) (sn byte : ℕ) :
    nack.Denotes n sn byte ↔ sn = nack.nackSn ∧
      (nack.hasSo = true → nack.soStart ≤ byte ∧ (nack.soEnd ≠ soEndOfSdu → byte ≤ nack.soEnd)) := by
  unfold RlcAmStatusNack.Denotes
  rw [hr]
  constructor
  · rintro ⟨i, hi, rfl, hso⟩
    obtain rfl : i = 0 := by omega
    refine ⟨by rw [add_zero, mod_eq_of_lt hsn], fun h => ?_⟩
    obtain ⟨h1, h2⟩ := hso h
    exact ⟨h1 rfl, h2 rfl⟩
  · rintro ⟨rfl, hso⟩
    refine ⟨0, by omega, by rw [add_zero, mod_eq_of_lt hsn], fun h => ?_⟩
    obtain ⟨h1, h2⟩ := hso h
    exact ⟨fun _ => h1, fun _ => h2⟩

/-- leaving out offsets that cut nothing off changes nothing -/
theorem offsets_iff (a e b : ℕ) :
    ((decide (a ≠ 0) || decide (e ≠ soEndOfSdu)) = true → a ≤ b ∧ (e ≠ soEndOfSdu → b ≤ e)) ↔
      a ≤ b ∧ (e ≠ soEndOfSdu → b ≤ e) := by
  refine ⟨fun h => ?_, fun h _ => h⟩
  by_cases ha : a = 0
  · by_cases he : e = soEndOfSdu
    · exact ⟨by omega, fun hne => absurd he hne⟩
    · exact h (by simp [he])
  · exact h (by simp [ha])

/-- offsets of an SN of a range: only the first SN has a start offset, only the last one an end offset -/
theorem singleNack_denotes (nack : RlcAmStatusNack) (k sn byte : ℕ) : (singleNack n nack k).Denotes n sn byte ↔
    sn = (nack.nackSn + k) % n.mod ∧ (nack.hasSo = true → (k = 0 → nack.soStart ≤ byte) ∧
        (k + 1 = nack.range → nack.soEnd ≠ soEndOfSdu → byte ≤ nack.soEnd)) := by
  have hlt : (nack.nackSn + k) % n.mod < n.mod := mod_lt _ (mod_pos n)
  have hstart : (if k = 0 then nack.soStart else 0) ≤ byte ↔ (k = 0 → nack.soStart ≤ byte) := by
    split_ifs with hk <;> simp [hk]
  have hend : ((if k + 1 = nack.range then nack.soEnd else soEndOfSdu) ≠ soEndOfSdu →
      byte ≤ if k + 1 = nack.range then nack.soEnd else soEndOfSdu) ↔
      (k + 1 = nack.range → nack.soEnd ≠ soEndOfSdu → byte ≤ nack.soEnd) := by
    split_ifs with hk <;> simp [hk]
  rw [denotes_of_range_one (singleNack_range nack k) (by rwa [singleNack_nackSn]), singleNack_nackSn]
  refine and_congr_right fun _ => ?_
  unfold singleNack
  cases nack.hasSo with
  | false => simp
  | true =>
    rw [if_pos rfl, offsets_iff, hstart, hend]
    simp

/-- SNs of a range are told apart by their place in it -/
theorem range_sn_inj {x j k : ℕ} (hj : j < n.mod) (hk : k < n.mod) : (x + j) % n.mod = (x + k) % n.mod ↔ j = k := by
  refine ⟨fun h => ?_, fun h => by rw [h]⟩
  have := eq_of_mod_eq h (by omega) (by omega)
  omega

/-- the expansion of a NACK whose SNs all precede ACK_SN: one NACK per SN -/
theorem expandRange_eq (hsn : nack.nackSn < n.mod) (hr : nack.hasNackRange = true)
    (hrange : nack.nackRange < n.mod) (hack : ∀ k < nack.nackRange, (nack.nackSn + k) % n.mod ≠ ackSn)
    (j fuel : ℕ) (hj : j + fuel = nack.nackRange) :
    expandRange n ackSn nack fuel ((nack.nackSn + j) % n.mod) = (List.range' j fuel).map (singleNack n nack) := by
  induction fuel generalizing j with
  | zero => rfl
  | succ fuel ih =>
    have hm := mod_le n
    have hfirst : (nack.nackSn + j) % n.mod = nack.nackSn ↔ j = 0 := by
      have h0 : nack.nackSn = (nack.nackSn + 0) % n.mod := by rw [add_zero, mod_eq_of_lt hsn]
      nth_rewrite 2 [h0]
      exact range_sn_inj (by omega) (by omega)
    have hsub : sub32 (nack.nackSn + nack.nackRange) 1 = nack.nackSn + (nack.nackRange - 1) := by
      unfold sub32
      omega
    have hlast : (nack.nackSn + j) % n.mod = sub32 (nack.nackSn + nack.nackRange) 1 % n.mod ↔
        j + 1 = nack.nackRange := by
      rw [hsub, range_sn_inj (by omega) (by omega)]
      omega
    have hstop : (nack.nackSn + j) % n.mod ≠ (nack.nackSn + nack.nackRange) % n.mod := by
      rw [Ne, range_sn_inj (by omega) hrange]
      omega
    have hnext : ((nack.nackSn + j) % n.mod + 1) % n.mod = (nack.nackSn + (j + 1)) % n.mod := by
      rw [mod_add_mod, add_assoc]
    rw [expandRange, if_neg hstop, if_neg (hack j (by omega)), hnext, ih (j + 1) (by omega), List.range'_succ,
      List.map_cons]
    refine List.cons_eq_cons.2 ⟨?_, rfl⟩
    unfold singleNack range
    simp only [hfirst, hlast, hr, if_true]

/-- expanding a NACK keeps what it denotes -/
theorem expandNack_denote (hsn : nack.nackSn < n.mod) (hrange : nack.range < n.mod)
    (hack : ∀ k < nack.range, (nack.nackSn + k) % n.mod ≠ ackSn) (sn byte : ℕ) :
    NacksDenote n (expandNack n ackSn nack) sn byte ↔ nack.Denotes n sn byte := by
  unfold expandNack
  cases hr : nack.hasNackRange with
  | false => simp
  | true =>
    have hrg : nack.range = nack.nackRange := by rw [range, hr, if_pos rfl]
    rw [hrg] at hrange hack
    have hexp := expandRange_eq hsn hr hrange hack 0 nack.nackRange (by omega)
    rw [add_zero, mod_eq_of_lt hsn] at hexp
    rw [if_pos rfl, hexp]
    unfold NacksDenote RlcAmStatusNack.Denotes
    rw [hrg]
    constructor
    · rintro ⟨x, hx, hden⟩
      obtain ⟨k, hk, rfl⟩ := List.mem_map.1 hx
      rw [List.mem_range'_1] at hk
      obtain ⟨rfl, hso⟩ := (singleNack_denotes nack k sn byte).1 hden
      rw [hrg] at hso
      exact ⟨k, by omega, rfl, hso⟩
    · rintro ⟨k, hk, rfl, hso⟩
      refine ⟨singleNack n nack k, List.mem_map.2 ⟨k, by rw [List.mem_range'_1]; omega, rfl⟩, ?_⟩
      refine (singleNack_denotes nack k _ byte).2 ⟨rfl, ?_⟩
      rw [hrg]
      exact hso

theorem nacksDenote_flatMap {f : RlcAmStatusNack → List RlcAmStatusNack} {nacks : List RlcAmStatusNack}
    {sn : ℕ} (h : ∀ x ∈ nacks, NacksDenote n (f x) sn byte ↔ x.Denotes n sn byte) :
    NacksDenote n (nacks.flatMap f) sn byte ↔ NacksDenote n nacks sn byte := by
  constructor
  · rintro ⟨y, hy, hden⟩
    obtain ⟨x, hx, hyx⟩ := List.mem_flatMap.1 hy
    exact ⟨x, hx, (h x hx).1 ⟨y, hyx, hden⟩⟩
  · rintro ⟨x, hx, hden⟩
    obtain ⟨y, hy, hyd⟩ := (h x hx).2 hden
    exact ⟨y, List.mem_flatMap.2 ⟨x, hx, hy⟩, hyd⟩

/-! ## Bytes asked for -/

/-- offsets of a NACK without range that lie in an SDU of the given length -/
structure RlcAmStatusNack.OffsetsIn (nack : RlcAmStatusNack) (len : ℕ) : Prop where
  single : nack.hasNackRange = false
  start : nack.hasSo = true → nack.soStart < len
  stop : nack.hasSo = true → nack.soEnd ≠ soEndOfSdu → nack.soStart ≤ nack.soEnd ∧ nack.soEnd < len

/-- the NACK makes the transmitter queue byte `byte` of the SDU, without a protocol failure -/
def RlcTxAmEntity.Requests (t : RlcTxAmEntity) (info : RlcTxAmSduInfo) (nack : RlcAmStatusNack) (byte : ℕ) : Prop :=
  ∃ soStart soEnd, t.nackOffsets info nack = some (soStart, soEnd) ∧
    sanitizeOffsets info.sdu.length soStart soEnd = (soStart, soEnd, []) ∧ soStart ≤ byte ∧ byte ≤ soEnd

/-- the bytes asked for are those denoted -/
theorem requests_iff {t : RlcTxAmEntity} {info : RlcTxAmSduInfo}
    (hsn : nack.nackSn < n.mod) (hoff : nack.OffsetsIn info.sdu.length) (hlen : info.sdu.length ≤ 2 ^ 16)
    (hseg : nack.nackSn ≠ t.snUnderSegmentation) (hbyte : byte < info.sdu.length) :
    t.Requests info nack byte ↔ nack.Denotes n nack.nackSn byte := by
  have hlast : sub32 info.sdu.length 1 % 2 ^ 16 = info.sdu.length - 1 := by
    unfold sub32
    omega
  have hr : nack.range = 1 := by rw [range, hoff.single]; rfl
  rw [denotes_of_range_one hr hsn]
  -- the offsets computed for the SDU
  have hcase : ∃ a e, t.nackOffsets info nack = some (a, e) ∧ a ≤ e ∧ e < info.sdu.length ∧
      (a ≤ byte ∧ byte ≤ e ↔ (nack.hasSo = true → nack.soStart ≤ byte ∧
      (nack.soEnd ≠ soEndOfSdu → byte ≤ nack.soEnd))) := by
    unfold nackOffsets
    rw [hlast]
    cases hso : nack.hasSo with
    | false =>
      refine ⟨0, info.sdu.length - 1, ?_, by omega, by omega, ?_⟩
      · simp [hseg]
      · simp only [Bool.false_eq_true, false_implies, iff_true]
        omega
    | true =>
      have h1 := hoff.start hso
      have h2 := hoff.stop hso
      by_cases hend : nack.soEnd = soEndOfSdu
      · refine ⟨nack.soStart, info.sdu.length - 1, ?_, by omega, by omega, ?_⟩
        · simp [hend, hseg]
        · simp only [hend, ne_eq, not_true_eq_false, false_implies, and_true, forall_const]
          omega
      · obtain ⟨h3, h4⟩ := h2 hend
        refine ⟨nack.soStart, nack.soEnd, ?_, h3, h4, ?_⟩
        · simp [hend]
        · simp [hend]
  obtain ⟨a, e, hoffs, hae, hel, hiff⟩ := hcase
  have hsan : sanitizeOffsets info.sdu.length a e = (a, e, []) := by
    have h1 : ¬ a > e := by omega
    have h2 : ¬ a ≥ info.sdu.length := by omega
    have h3 : ¬ e ≥ info.sdu.length := by omega
    simp [sanitizeOffsets, h1, h2, h3]
  rw [← hiff]
  constructor
  · rintro ⟨a', e', h1, -, h2, h3⟩
    rw [hoffs] at h1
    cases h1
    exact ⟨rfl, h2, h3⟩
  · rintro ⟨-, h2, h3⟩
    exact ⟨a, e, hoffs, hsan, h2, h3⟩

end OcuduRan.Rlc
