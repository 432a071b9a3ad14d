/-
COUNT, hyper frame number and sequence number of a PDCP entity (lib/pdcp/pdcp_sn.h, pdcp_entity_tx_rx_base.h,
ran/pdcp/pdcp_sn_size.h).

COUNT is a 32-bit number: its low 12 or 18 bits are the SN that travels in the PDU header, the rest is the HFN. Both
ends complete a received SN to a COUNT by comparing it with the SN of a window edge; `countEstimation` is that
comparison, in the integer types of the source. `countEstimation_eq`: every COUNT at most half the SN space away from
the edge is recovered, on both sides of an HFN boundary and at HFN 0.
-/
import OcuduRan.Core.Bits
import OcuduRan.Rlc.TxQueues

namespace OcuduRan.Pdcp

open Nat

inductive PdcpRbType where
  | srb
  | drb
deriving DecidableEq, Repr

inductive PdcpRlcMode where
  | um
  | am
deriving DecidableEq, Repr

inductive PdcpSecurityDirection where
  | uplink
  | downlink
deriving DecidableEq, Repr

/-- thresholds on COUNT: beyond `notify` the RRC is told, from `hard` on the entity refuses to go on -/
structure PdcpMaxCount where
  notify : UInt32
  hard : UInt32
deriving DecidableEq, Repr

end OcuduRan.Pdcp

namespace OcuduRan.Rlc.PdcpSnSize

open ModWindow

variable (n : PdcpSnSize)

def toUint : PdcpSnSize → ℕ
  | size12bits => 12
  | size18bits => 18

/-- `pdcp_sn_cardinality` -/
def cardinality : ℕ := 2 ^ n.toUint

def windowSize : PdcpSnSize → ℕ
  | size12bits => 2048
  | size18bits => 131072

def dataPduHeaderSize : PdcpSnSize → ℕ
  | size12bits => 2
  | size18bits => 3

def computeSnMask : ℕ := 0xffffffff >>> (32 - n.toUint)

/-- `pdcp_compute_sn` -/
def computeSn (count : ℕ) : ℕ := count &&& n.computeSnMask

/-- `pdcp_compute_hfn` -/
def computeHfn (count : ℕ) : ℕ := count >>> n.toUint

/-- `pdcp_compute_count`, in 32-bit arithmetic -/
def computeCount (hfn sn : ℕ) : ℕ := (hfn <<< n.toUint) % 2 ^ 32 ||| sn

/-- the COUNT a received SN stands for, seen from the window edge `lower` -/
def countEstimation (lower sn : ℕ) : ℕ :=
  let hfn :=
    if (sn : ℤ) < (n.computeSn lower : ℤ) - (n.windowSize : ℤ) then n.computeHfn lower + 1
    else if sn ≥ n.computeSn lower + n.windowSize then sub32 (n.computeHfn lower) 1
    else n.computeHfn lower
  n.computeCount hfn sn

/-! ## Arithmetic of the fields -/

theorem cardinality_eq : n.cardinality = 2 * n.windowSize := by cases n <;> rfl

theorem computeSn_eq (count : ℕ) : n.computeSn count = count % n.cardinality := by
  cases n
  · exact Bits.and_mask count 12
  · exact Bits.and_mask count 18

theorem computeSn_lt (count : ℕ) : n.computeSn count < n.cardinality := by
  rw [computeSn_eq]
  exact Nat.mod_lt _ (Nat.two_pow_pos _)

theorem computeHfn_eq (count : ℕ) : n.computeHfn count = count / n.cardinality :=
  Nat.shiftRight_eq_div_pow count n.toUint

theorem hfn_mul_add_sn (count : ℕ) : n.computeHfn count * n.cardinality + n.computeSn count = count := by
  rw [computeHfn_eq, computeSn_eq]
  exact Nat.div_add_mod' count n.cardinality

/-- a COUNT below 2^32 is put together from its two parts -/
theorem computeCount_lt (hfn : ℕ) {sn : ℕ} (hsn : sn < 2 ^ 32) : n.computeCount hfn sn < 2 ^ 32 :=
  Nat.or_lt_two_pow (Nat.mod_lt _ (by decide)) hsn

theorem computeCount_eq {hfn sn : ℕ} (hsn : sn < n.cardinality) (hlt : hfn * n.cardinality + sn < 2 ^ 32) :
    n.computeCount hfn sn = hfn * n.cardinality + sn := by
  have hshift : hfn <<< n.toUint = hfn * n.cardinality := Nat.shiftLeft_eq hfn n.toUint
  have hsmall : (hfn <<< n.toUint) % 2 ^ 32 = hfn <<< n.toUint :=
    Nat.mod_eq_of_lt (by rw [hshift]; omega)
  rw [computeCount, hsmall]
  exact Bits.shl_or hfn hsn

/-! ## Completing an SN to a COUNT -/

/-- every COUNT less than half the SN space above the edge, or at most half the SN space below it, is recovered from
its SN -/
theorem countEstimation_eq {lower count : ℕ} (hcount : count < 2 ^ 32) (hlow : lower ≤ count + n.windowSize)
    (hup : count < lower + n.windowSize) : n.countEstimation lower (n.computeSn count) = count := by
  have hsl := n.computeSn_lt lower
  have hsc := n.computeSn_lt count
  have hl := n.hfn_mul_add_sn lower
  have hc := n.hfn_mul_add_sn count
  have hcard := n.cardinality_eq
  have hcardpos : 0 < n.cardinality := by omega
  rw [← hc] at hcount
  -- the HFN the comparison selects is the one of the COUNT
  suffices hhfn : (if (n.computeSn count : ℤ) < (n.computeSn lower : ℤ) - (n.windowSize : ℤ) then
      n.computeHfn lower + 1 else if n.computeSn count ≥ n.computeSn lower + n.windowSize then
      sub32 (n.computeHfn lower) 1 else n.computeHfn lower) = n.computeHfn count by
    rw [countEstimation, hhfn, n.computeCount_eq hsc hcount, hc]
  split_ifs with habove hbelow
  · -- the SN wrapped around above the edge
    have h1 : n.computeHfn lower * n.cardinality < n.computeHfn count * n.cardinality := by omega
    have h2 : n.computeHfn count * n.cardinality < (n.computeHfn lower + 2) * n.cardinality := by
      rw [add_mul]
      omega
    have h3 := lt_of_mul_lt_mul_right h1
    have h4 := lt_of_mul_lt_mul_right h2
    omega
  · -- the SN wrapped around below the edge: then the edge is not in HFN 0
    have h1 : n.computeHfn count * n.cardinality < n.computeHfn lower * n.cardinality := by omega
    have h2 : n.computeHfn lower * n.cardinality < (n.computeHfn count + 2) * n.cardinality := by
      rw [add_mul]
      omega
    have h3 := lt_of_mul_lt_mul_right h1
    have h4 := lt_of_mul_lt_mul_right h2
    have h5 : n.computeHfn lower ≤ 2 ^ 32 := by
      have : n.computeHfn count ≤ n.computeHfn count * n.cardinality := Nat.le_mul_of_pos_right _ hcardpos
      omega
    unfold sub32
    omega
  · have h1 : n.computeHfn lower * n.cardinality < (n.computeHfn count + 1) * n.cardinality := by
      rw [add_mul]
      omega
    have h2 : n.computeHfn count * n.cardinality < (n.computeHfn lower + 1) * n.cardinality := by
      rw [add_mul]
      omega
    have h3 := lt_of_mul_lt_mul_right h1
    have h4 := lt_of_mul_lt_mul_right h2
    omega

end OcuduRan.Rlc.PdcpSnSize
