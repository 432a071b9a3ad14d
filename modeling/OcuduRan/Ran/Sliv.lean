/-
Start and length indicator values (include/ocudu/ran/resource_allocation/sliv.h) and the resource indication values
built on them (lib/ran/resource_allocation/resource_allocation_frequency.cpp).

`slivFromSAndL` codes a start and a length inside [0, N) as one number and `slivToSAndL` reads them back, both in the
`unsigned` arithmetic of the source: products and sums are taken modulo 2^32. The special type 1 allocation divides
start and length by K before it codes them in the initial BWP, where `determineK` is the loop over 8, 4, 2, 1.

Results:
- `slivFromSAndL_toNat` / `slivToSAndL_toNat`: while N(N+1)/2 is at most 2^32 nothing wraps, and the two functions are
  the numbering of the intervals of [0, N) (`IntervalCode`) and its inverse;
- `sliv_riv_coding`: the coding is a bijection onto [0, N(N+1)/2), with `slivToSAndL` as its inverse, exactly for such
  N, and the special RIV of every admissible allocation, decoded in the initial BWP and scaled by K, gives it back.
Witnesses:
- `sliv_riv_coding_275`: N = 275, and an allocation in an active BWP four times the initial one;
- `sliv_wraps`: N = 100000 with start 0 and length 50001 is coded as 705032704 and read back as (32704, 7051);
  and a length of 0 fails the assertion of the special RIV.
-/
import OcuduRan.Core.IntervalCode

namespace OcuduRan.Ran

open IntervalCode Nat

/-! ## Model -/

def slivToSAndL (N sliv : UInt32) : UInt32 × UInt32 :=
  let low := sliv % N
  let high := sliv / N
  if high + 1 + low ≤ N then (low, high + 1) else (N - 1 - low, N - high + 1)

def slivFromSAndL (N S L : UInt32) : UInt32 :=
  if L - 1 ≤ N / 2 then N * (L - 1) + S else N * (N - L + 1) + (N - 1 - S)

structure RaFrequencyType1Configuration where
  N_bwp_size : UInt32
  start_vrb : UInt32
  length_vrb : UInt32
deriving DecidableEq, Repr

structure RaFrequencyType1SpecialConfiguration where
  N_bwp_initial : UInt32
  N_bwp_active : UInt32
  start_vrb : UInt32
  length_vrb : UInt32
deriving DecidableEq, Repr

/-- `none`: an assertion fails -/
def raFrequencyType1GetRiv (config : RaFrequencyType1Configuration) : Option UInt32 :=
  if 1 ≤ config.length_vrb ∧ config.length_vrb ≤ config.N_bwp_size - config.start_vrb then
    some (slivFromSAndL config.N_bwp_size config.start_vrb config.length_vrb)
  else none

def raFrequencyType1FromRiv (N_bwp_size riv : UInt32) : RaFrequencyType1Configuration :=
  let p := slivToSAndL N_bwp_size riv
  ⟨N_bwp_size, p.1, p.2⟩

/-- the loop `while (K > 1)`, entered with K = 8 and so left after three halvings at the latest -/
def determineK (ratio : UInt32) : ℕ → UInt32 → UInt32
  | 0, K => K
  | fuel + 1, K => if 1 < K then (if K ≤ ratio then K else determineK ratio fuel (K / 2)) else K

variable (config : RaFrequencyType1SpecialConfiguration)

def RaFrequencyType1SpecialConfiguration.K : UInt32 :=
  determineK (config.N_bwp_active / config.N_bwp_initial) 4 8

/-- `none`: an assertion fails -/
def raFrequencyType1SpecialGetRiv : Option UInt32 :=
  let start_vrb := config.start_vrb / config.K
  let length_vrb := config.length_vrb / config.K
  if 1 ≤ length_vrb ∧ length_vrb ≤ config.N_bwp_initial - start_vrb then
    some (slivFromSAndL config.N_bwp_initial start_vrb length_vrb)
  else none

/-! ## The arithmetic does not wrap -/

/-- a start and a length as numbers -/
def nats (p : UInt32 × UInt32) : ℕ × ℕ := (p.1.toNat, p.2.toNat)

theorem nats_injective : Function.Injective nats := by
  rintro ⟨s, l⟩ ⟨s', l'⟩ h
  simp only [nats, Prod.mk.injEq, UInt32.toNat_inj] at h
  exact Prod.ext h.1 h.2

/-- N(N+1)/2 values fit in the `unsigned` the coding returns -/
def Fits (N : UInt32) : Prop := N.toNat * (N.toNat + 1) / 2 ≤ 2 ^ 32

variable {N : UInt32} {p : UInt32 × UInt32} {sliv : UInt32}

theorem Fits.lt (h : Fits N) : N.toNat < 2 ^ 17 := by
  have htri := two_mul_triangle (n := N.toNat)
  unfold Fits at h
  nlinarith

/-- a cell of the table has a number that fits, and so has its row start -/
theorem Fits.toNat_number {c : UInt32 × UInt32} (h : Fits N) (hc : Cell N.toNat (nats c)) :
    (N * c.1 + c.2).toNat = number N.toNat (nats c) := by
  have hlt : number N.toNat (nats c) < 2 ^ 32 := lt_of_lt_of_le ((cell_iff hc.1).1 hc) h
  have hrow : N.toNat * c.1.toNat < 2 ^ 32 := lt_of_le_of_lt (le_add_right _ _) hlt
  rw [UInt32.toNat_add, UInt32.toNat_mul, mod_eq_of_lt hrow]
  exact mod_eq_of_lt hlt

theorem slivFromSAndL_toNat (h : Fits N) (hp : Inside N.toNat (nats p)) :
    (slivFromSAndL N p.1 p.2).toNat = number N.toNat (place N.toNat (nats p)) := by
  have hcell := cell_place hp
  obtain ⟨hl, hs⟩ := hp
  simp only [nats] at hl hs
  have hl1 : (p.2 - 1).toNat = p.2.toNat - 1 := UInt32.toNat_sub_of_le _ _ (UInt32.le_iff_toNat_le.2 hl)
  by_cases hh : p.2.toNat - 1 ≤ N.toNat / 2
  · have hplace : place N.toNat (nats p) = nats (p.2 - 1, p.1) := by simp [place, nats, hh, hl1]
    have hle : p.2 - 1 ≤ N / 2 := by simpa [UInt32.le_iff_toNat_le, hl1] using hh
    rw [hplace] at hcell ⊢
    rw [slivFromSAndL, if_pos hle]
    exact h.toNat_number (c := (p.2 - 1, p.1)) hcell
  · have hNL : (N - p.2).toNat = N.toNat - p.2.toNat :=
      UInt32.toNat_sub_of_le _ _ (UInt32.le_iff_toNat_le.2 (by omega))
    have hrow : (N - p.2 + 1).toNat = N.toNat - p.2.toNat + 1 := by
      rw [UInt32.toNat_add, hNL]
      exact mod_eq_of_lt (by have := h.lt; simp; omega)
    have hN1 : (N - 1).toNat = N.toNat - 1 :=
      UInt32.toNat_sub_of_le _ _ (UInt32.le_iff_toNat_le.2 (by simp; omega))
    have hcol : (N - 1 - p.1).toNat = N.toNat - 1 - p.1.toNat := by
      rw [UInt32.toNat_sub_of_le _ _ (UInt32.le_iff_toNat_le.2 (by rw [hN1]; omega)), hN1]
    have hplace : place N.toNat (nats p) = nats (N - p.2 + 1, N - 1 - p.1) := by
      simp [place, nats, hh, hrow, hcol]
    have hlt : ¬ p.2 - 1 ≤ N / 2 := by simpa [UInt32.le_iff_toNat_le, hl1] using hh
    rw [hplace] at hcell ⊢
    rw [slivFromSAndL, if_neg hlt]
    exact h.toNat_number (c := (N - p.2 + 1, N - 1 - p.1)) hcell

theorem slivToSAndL_toNat (h : Fits N) (hN : 1 ≤ N.toNat) (hv : sliv.toNat < N.toNat * (N.toNat + 1) / 2) :
    nats (slivToSAndL N sliv) = interval N.toNat (sliv.toNat / N.toNat, sliv.toNat % N.toNat) := by
  have hcell := cell_of_lt hN hv
  have hlt := h.lt
  obtain ⟨hlow, hrow⟩ := hcell
  simp only at hlow hrow
  have hh1 : (sliv / N + 1).toNat = sliv.toNat / N.toNat + 1 := by
    rw [UInt32.toNat_add, UInt32.toNat_div]
    exact mod_eq_of_lt (by simp; omega)
  have hsum : (sliv / N + 1 + sliv % N).toNat = sliv.toNat / N.toNat + 1 + sliv.toNat % N.toNat := by
    rw [UInt32.toNat_add, hh1, UInt32.toNat_mod]
    exact mod_eq_of_lt (by omega)
  by_cases hh : sliv.toNat / N.toNat + 1 + sliv.toNat % N.toNat ≤ N.toNat
  · have hle : sliv / N + 1 + sliv % N ≤ N := by rw [UInt32.le_iff_toNat_le, hsum]; exact hh
    simp [slivToSAndL, interval, nats, hle, hh, hh1]
  · have hle : ¬ sliv / N + 1 + sliv % N ≤ N := by rw [UInt32.le_iff_toNat_le, hsum]; exact hh
    have hN1 : (N - 1).toNat = N.toNat - 1 := UInt32.toNat_sub_of_le _ _ (UInt32.le_iff_toNat_le.2 hN)
    have hS : (N - 1 - sliv % N).toNat = N.toNat - 1 - sliv.toNat % N.toNat := by
      have hb : sliv % N ≤ N - 1 := by rw [UInt32.le_iff_toNat_le, hN1, UInt32.toNat_mod]; omega
      rw [UInt32.toNat_sub_of_le _ _ hb, hN1, UInt32.toNat_mod]
    have hL : (N - sliv / N + 1).toNat = N.toNat - sliv.toNat / N.toNat + 1 := by
      have hb : sliv / N ≤ N := by rw [UInt32.le_iff_toNat_le, UInt32.toNat_div]; omega
      rw [UInt32.toNat_add, UInt32.toNat_sub_of_le _ _ hb, UInt32.toNat_div]
      exact mod_eq_of_lt (by simp; omega)
    simp [slivToSAndL, interval, nats, hle, hh, hS, hL]

/-! ## The coding -/

/-- the pairs of a start and a length inside [0, N), with a length of at least 1 -/
def intervals (N : UInt32) : Set (UInt32 × UInt32) := {p | 1 ≤ p.2.toNat ∧ p.1.toNat + p.2.toNat ≤ N.toNat}

/-- the SLIV is one-to-one from the intervals onto [0, N(N+1)/2), and `slivToSAndL` is its inverse there -/
structure IsCoding (N : UInt32) : Prop where
  bij : Set.BijOn (fun p => (slivFromSAndL N p.1 p.2).toNat) (intervals N)
    (Set.Iio (N.toNat * (N.toNat + 1) / 2))
  decode_encode : ∀ p ∈ intervals N, slivToSAndL N (slivFromSAndL N p.1 p.2) = p
  encode_decode : ∀ sliv : UInt32, sliv.toNat < N.toNat * (N.toNat + 1) / 2 →
    slivToSAndL N sliv ∈ intervals N ∧
      slivFromSAndL N (slivToSAndL N sliv).1 (slivToSAndL N sliv).2 = sliv

theorem slivFromSAndL_lt (h : Fits N) (hp : p ∈ intervals N) :
    (slivFromSAndL N p.1 p.2).toNat < N.toNat * (N.toNat + 1) / 2 := by
  have hcell : Cell N.toNat (place N.toNat (nats p)) := cell_place hp
  rw [slivFromSAndL_toNat h hp]
  exact (cell_iff hcell.1).1 hcell

theorem slivToSAndL_slivFromSAndL (h : Fits N) (hp : p ∈ intervals N) :
    slivToSAndL N (slivFromSAndL N p.1 p.2) = p := by
  have hin : Inside N.toNat (nats p) := hp
  have hN : 1 ≤ N.toNat := by have := hp.1; have := hp.2; omega
  have hcell := cell_place hin
  apply nats_injective
  rw [slivToSAndL_toNat h hN (slivFromSAndL_lt h hp), slivFromSAndL_toNat h hin, number_div hcell.1,
    number_mod hcell.1]
  exact interval_place hin

theorem slivToSAndL_mem (h : Fits N) (hN : 1 ≤ N.toNat)
    (hv : sliv.toNat < N.toNat * (N.toNat + 1) / 2) : slivToSAndL N sliv ∈ intervals N := by
  have hin := inside_interval (cell_of_lt hN hv)
  rw [← slivToSAndL_toNat h hN hv] at hin
  exact hin

theorem slivFromSAndL_slivToSAndL (h : Fits N) (hN : 1 ≤ N.toNat) (hv : sliv.toNat < N.toNat * (N.toNat + 1) / 2) :
    slivFromSAndL N (slivToSAndL N sliv).1 (slivToSAndL N sliv).2 = sliv := by
  apply UInt32.toNat_inj.1
  rw [slivFromSAndL_toNat h (slivToSAndL_mem h hN hv), slivToSAndL_toNat h hN hv,
    place_interval (cell_of_lt hN hv)]
  exact number_div_mod _

theorem Fits.isCoding (h : Fits N) (hN : 1 ≤ N.toNat) : IsCoding N where
  bij := by
    refine ⟨fun p hp => slivFromSAndL_lt h hp, ?_, ?_⟩
    · intro p hp q hq hpq
      have heq : slivFromSAndL N p.1 p.2 = slivFromSAndL N q.1 q.2 := UInt32.toNat_inj.1 hpq
      rw [← slivToSAndL_slivFromSAndL h hp, ← slivToSAndL_slivFromSAndL h hq, heq]
    · intro v hv
      have hv' : v < N.toNat * (N.toNat + 1) / 2 := hv
      have hto : (UInt32.ofNat v).toNat = v := UInt32.toNat_ofNat_of_lt' (lt_of_lt_of_le hv' h)
      rw [← hto] at hv'
      refine ⟨slivToSAndL N (UInt32.ofNat v), slivToSAndL_mem h hN hv', ?_⟩
      simp only [slivFromSAndL_slivToSAndL h hN hv', hto]
  decode_encode := fun _ hp => slivToSAndL_slivFromSAndL h hp
  encode_decode := fun _ hv => ⟨slivToSAndL_mem h hN hv, slivFromSAndL_slivToSAndL h hN hv⟩

/-- more than 2^32 values cannot all be taken by an `unsigned` -/
theorem IsCoding.fits (h : IsCoding N) : Fits N := by
  by_contra hc
  obtain ⟨p, -, hp⟩ := h.bij.surjOn (show 2 ^ 32 ∈ Set.Iio (N.toNat * (N.toNat + 1) / 2) from not_le.1 hc)
  have hlt := (slivFromSAndL N p.1 p.2).toNat_lt
  simp only at hp
  omega

/-- an allocation inside the BWP passes the assertions, and its RIV decodes to it -/
theorem raFrequencyType1FromRiv_of_getRiv {c : RaFrequencyType1Configuration} (h : Fits c.N_bwp_size)
    (hp : (c.start_vrb, c.length_vrb) ∈ intervals c.N_bwp_size) :
    ∃ riv, raFrequencyType1GetRiv c = some riv ∧ raFrequencyType1FromRiv c.N_bwp_size riv = c := by
  have hback := slivToSAndL_slivFromSAndL h hp
  obtain ⟨hlen, hin⟩ := hp
  simp only at hlen hin
  have hpass : 1 ≤ c.length_vrb ∧ c.length_vrb ≤ c.N_bwp_size - c.start_vrb := by
    have hle : c.start_vrb ≤ c.N_bwp_size := UInt32.le_iff_toNat_le.2 (by omega)
    rw [UInt32.le_iff_toNat_le, UInt32.le_iff_toNat_le, UInt32.toNat_sub_of_le _ _ hle]
    exact ⟨hlen, by omega⟩
  refine ⟨_, if_pos hpass, ?_⟩
  simp only [raFrequencyType1FromRiv, hback]

/-! ## The special resource indication value -/

/-- K is the largest of 1, 2, 4 and 8 that does not exceed the ratio, and 1 if none does -/
structure IsK (ratio K : ℕ) : Prop where
  mem : K = 1 ∨ K = 2 ∨ K = 4 ∨ K = 8
  le : K = 1 ∨ K ≤ ratio
  max : ∀ k, k = 1 ∨ k = 2 ∨ k = 4 ∨ k = 8 → k ≤ ratio → k ≤ K

theorem determineK_eq (ratio : UInt32) :
    determineK ratio 4 8 = if 8 ≤ ratio then 8 else if 4 ≤ ratio then 4 else if 2 ≤ ratio then 2 else 1 := rfl

theorem isK_determineK (ratio : UInt32) : IsK ratio.toNat (determineK ratio 4 8).toNat := by
  rw [determineK_eq]
  simp only [UInt32.le_iff_toNat_le]
  split_ifs with h8 h4 h2 <;> refine ⟨?_, ?_, ?_⟩ <;> simp_all

theorem isK_K : IsK (config.N_bwp_active.toNat / config.N_bwp_initial.toNat) config.K.toNat := by
  have h := isK_determineK (config.N_bwp_active / config.N_bwp_initial)
  rw [UInt32.toNat_div] at h
  exact h

theorem IsK.pos {ratio K : ℕ} (h : IsK ratio K) : 0 < K := by
  rcases h.mem with rfl | rfl | rfl | rfl <;> norm_num

/-- an allocation the special coding is for: whole groups of K blocks, at least one, inside the initial BWP -/
structure Admissible (config : RaFrequencyType1SpecialConfiguration) : Prop where
  start : config.K.toNat ∣ config.start_vrb.toNat
  length : config.K.toNat ∣ config.length_vrb.toNat
  pos : 0 < config.length_vrb.toNat
  inside : config.start_vrb.toNat / config.K.toNat + config.length_vrb.toNat / config.K.toNat
    ≤ config.N_bwp_initial.toNat

/-- decoded in the initial BWP and scaled by K, the RIV is the allocation -/
def Recovers (riv : UInt32) : Prop :=
  let out := raFrequencyType1FromRiv config.N_bwp_initial riv
  config.K.toNat * out.start_vrb.toNat = config.start_vrb.toNat ∧
    config.K.toNat * out.length_vrb.toNat = config.length_vrb.toNat

theorem raFrequencyType1SpecialGetRiv_recovers {config : RaFrequencyType1SpecialConfiguration}
    (h : Fits config.N_bwp_initial) (ha : Admissible config) :
    ∃ riv, raFrequencyType1SpecialGetRiv config = some riv ∧ Recovers config riv := by
  have hpos : 0 < config.K.toNat := (isK_K config).pos
  have hlen : 1 ≤ config.length_vrb.toNat / config.K.toNat :=
    (one_le_div_iff hpos).2 (le_of_dvd ha.pos ha.length)
  have hp : (config.start_vrb / config.K, config.length_vrb / config.K) ∈ intervals config.N_bwp_initial := by
    simp only [intervals, Set.mem_ofPred_eq, UInt32.toNat_div]
    exact ⟨hlen, ha.inside⟩
  obtain ⟨riv, hriv, hback⟩ := raFrequencyType1FromRiv_of_getRiv
    (c := ⟨config.N_bwp_initial, config.start_vrb / config.K, config.length_vrb / config.K⟩) h hp
  refine ⟨riv, hriv, ?_⟩
  simp only at hback
  simp only [Recovers, hback, UInt32.toNat_div]
  exact ⟨Nat.mul_div_cancel' ha.start, Nat.mul_div_cancel' ha.length⟩

/-- the SLIV coding is a bijection with its decoder as inverse exactly while N(N+1)/2 values fit in an `unsigned`; and
there the special RIV, decoded and scaled by K, gives back every admissible allocation -/
theorem sliv_riv_coding (N : UInt32) (hN : 1 ≤ N.toNat) :
    (IsCoding N ↔ N.toNat * (N.toNat + 1) / 2 ≤ 2 ^ 32) ∧
      (N.toNat * (N.toNat + 1) / 2 ≤ 2 ^ 32 → ∀ config : RaFrequencyType1SpecialConfiguration,
        config.N_bwp_initial = N → IsK (config.N_bwp_active.toNat / N.toNat) config.K.toNat ∧
          (Admissible config → ∃ riv, raFrequencyType1SpecialGetRiv config = some riv ∧ Recovers config riv)) := by
  refine ⟨⟨fun h => h.fits, fun h => Fits.isCoding h hN⟩, ?_⟩
  rintro h config rfl
  exact ⟨isK_K config, fun ha => raFrequencyType1SpecialGetRiv_recovers h ha⟩

theorem sliv_riv_coding_275 :
    IsCoding 275 ∧ (∃ riv, raFrequencyType1SpecialGetRiv ⟨48, 216, 8, 184⟩ = some riv ∧
      Recovers ⟨48, 216, 8, 184⟩ riv) := by
  refine ⟨(sliv_riv_coding 275 (by decide)).1.2 (by decide), ?_⟩
  refine ((sliv_riv_coding 48 (by decide)).2 (by decide) ⟨48, 216, 8, 184⟩ rfl).2 ?_
  exact ⟨by decide, by decide, by decide, by decide⟩

theorem sliv_wraps :
    ((0, 50001) : UInt32 × UInt32) ∈ intervals 100000 ∧ slivFromSAndL 100000 0 50001 = 705032704 ∧
      slivToSAndL 100000 705032704 = (32704, 7051) ∧ raFrequencyType1SpecialGetRiv ⟨48, 216, 8, 0⟩ = none := by
  refine ⟨?_, by decide, by decide, by decide⟩
  simp only [intervals, Set.mem_ofPred_eq]
  decide

end OcuduRan.Ran
