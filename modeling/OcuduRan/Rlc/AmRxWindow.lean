/-
The receive window on absolute indices.

SNs of the receiver stand for unbounded indices: RX_Next for `R`, RX_Highest_Status for `S`, RX_Next_Highest for `H`,
with R ≤ S ≤ H ≤ R + AM_Window_Size, and every SDU in the window has an index in [R, H) and satisfies a property `P` of
what is stored (`Window`): `InfoOk` where the segments are right, a weaker one where they need not be. Between two
operations also: the SDU of RX_Next is not fully received, nor that of RX_Highest_Status unless it is RX_Next_Highest,
the SDU below RX_Next_Highest is in the window unless the window is empty, and a running t-Reassembly watches an index
in (R, H] (`Inv`).

One lemma per function says what it does to the indices and to the window; `afterStore_spec` composes them: storing
something for index `i` raises H above `i`, and if the SDU of `i` is complete moves S and R over the complete SDUs.
-/
import OcuduRan.Rlc.AmRxSegments

namespace OcuduRan.Rlc

open ModWindow CircularMap Nat

/-- what is stored of an SDU: its segments are right, and an incomplete SDU has segments that do not complete it -/
structure InfoOk (info : RlcRxAmSduInfo) : Prop where
  segs : ∀ segments, info.sduData = .segmentSet segments → SegsOk segments
  incomplete : info.fullyReceived = false →
    ∃ segments, info.sduData = .segmentSet segments ∧ segments ≠ [] ∧ inventoryLoop 0 segments = (info.hasGap, false)

/-- a property of what is stored that an SDU keeps when its buffers are released -/
class Releasable (P : RlcRxAmSduInfo → Prop) : Prop where
  released : ∀ info : RlcRxAmSduInfo, info.fullyReceived = true → P { info with sduData := .slice [] }

instance : Releasable InfoOk where
  released := fun info hfull => ⟨fun _ hseg => (nomatch hseg), fun hno => absurd (hfull.symm.trans hno) (by simp)⟩

namespace RlcRxAmEntity

variable {P : RlcRxAmSduInfo → Prop} {cfg : RlcRxAmConfig} {s : RlcRxAmEntity} {R S H i j : ℕ} {sn a mod n k b : ℕ}
  {w : CircularMap RlcRxAmSduInfo} {info : RlcRxAmSduInfo} {s' s'' : RlcRxAmEntity}

/-! ## Indices -/

/-- absolute indices of the state variables, and of the SDUs in the window -/
structure Window (P : RlcRxAmSduInfo → Prop) (cfg : RlcRxAmConfig) (R S H : ℕ) (s : RlcRxAmEntity) : Prop where
  cap : s.rxWindow.cap = cfg.snFieldLength.amWindowSize
  rxNext : s.st.rxNext = R % cfg.snFieldLength.mod
  rxHighestStatus : s.st.rxHighestStatus = S % cfg.snFieldLength.mod
  rxNextHighest : s.st.rxNextHighest = H % cfg.snFieldLength.mod
  next_le : R ≤ S
  status_le : S ≤ H
  highest_le : H ≤ R + cfg.snFieldLength.amWindowSize
  keys : ∀ sn ∈ s.rxWindow.keys, ∃ i, R ≤ i ∧ i < H ∧ sn = i % cfg.snFieldLength.mod
  infos : ∀ sn info, s.rxWindow.find? sn = some info → P info

/-- what is stored for an index -/
def infoAt (cfg : RlcRxAmConfig) (s : RlcRxAmEntity) (i : ℕ) : Option RlcRxAmSduInfo :=
  s.rxWindow.find? (i % cfg.snFieldLength.mod)

/-- the SDU of an index in the window is fully received -/
def Full (cfg : RlcRxAmConfig) (s : RlcRxAmEntity) (i : ℕ) : Prop :=
  s.fullyReceived (i % cfg.snFieldLength.mod) = true

/-- between two operations -/
structure Inv (P : RlcRxAmSduInfo → Prop) (cfg : RlcRxAmConfig) (R S H : ℕ) (s : RlcRxAmEntity) :
    Prop extends Window P cfg R S H s where
  next : ¬ Full cfg s R
  status : S = H ∨ ¬ Full cfg s S
  top : R = H ∨ (H - 1) % cfg.snFieldLength.mod ∈ s.rxWindow.keys
  timer : s.reassemblyTimer = true →
    ∃ T, R < T ∧ T ≤ H ∧ s.st.rxNextStatusTrigger = T % cfg.snFieldLength.mod

section

variable (hR : s.st.rxNext = R % cfg.snFieldLength.mod)
include hR

/-- the distance of an SN from RX_Next is that of its index -/
theorem rxModBase_of_le
    (hsn : sn % cfg.snFieldLength.mod = i % cfg.snFieldLength.mod) (hle : R ≤ i) (hlt : i < R + cfg.snFieldLength.mod) :
    s.rxModBase cfg sn = i - R := modBase_index hR hsn hle hlt

theorem rxModBase_index (hle : R ≤ i)
    (hlt : i < R + cfg.snFieldLength.mod) : s.rxModBase cfg (i % cfg.snFieldLength.mod) = i - R :=
  rxModBase_of_le hR (mod_mod _ _) hle hlt

/-- an SN stands for exactly one index from RX_Next on -/
theorem exists_index (hsn : sn < cfg.snFieldLength.mod) :
    ∃ i, R ≤ i ∧ i < R + cfg.snFieldLength.mod ∧ sn = i % cfg.snFieldLength.mod ∧ s.rxModBase cfg sn = i - R := by
  obtain ⟨i, h1, h2, h3, h4⟩ := exists_index_of_base hR sn
  rw [mod_eq_of_lt hsn] at h3
  exact ⟨i, h1, h2, h3, h4⟩

end

theorem full_iff : Full cfg s i ↔ ∃ info, infoAt cfg s i = some info ∧ info.fullyReceived = true := by
  unfold Full fullyReceived infoAt
  simp [Option.any_eq_true]

section

variable (h : Window P cfg R S H s)
include h

theorem Window.bounds :
    cfg.snFieldLength.mod = 2 * cfg.snFieldLength.amWindowSize ∧ 2048 ≤ cfg.snFieldLength.amWindowSize ∧
      R ≤ S ∧ S ≤ H ∧ H ≤ R + cfg.snFieldLength.amWindowSize :=
  ⟨mod_eq _, amWindowSize_ge _, h.next_le, h.status_le, h.highest_le⟩

/-- the distances of the state variables from RX_Next -/
theorem Window.bases : s.rxModBase cfg s.st.rxNext = 0 ∧
    s.rxModBase cfg s.st.rxHighestStatus = S - R ∧ s.rxModBase cfg s.st.rxNextHighest = H - R := by
  obtain ⟨h1, h2, h3, h4, h5⟩ := h.bounds
  rw [h.rxHighestStatus, h.rxNextHighest, rxModBase_index h.rxNext h3 (by omega),
    rxModBase_index h.rxNext (h3.trans h4) (by omega), rxModBase_of_le h.rxNext (by rw [h.rxNext, mod_mod]) le_rfl
    (by omega), Nat.sub_self]
  exact ⟨rfl, rfl, rfl⟩

/-- nothing is stored for an index from H on -/
theorem Window.infoAt_none (hi : H ≤ i) (hi' : i < R + cfg.snFieldLength.mod) : infoAt cfg s i = none := by
  by_contra hne
  obtain ⟨info, hinfo⟩ := Option.ne_none_iff_exists'.1 hne
  obtain ⟨j, hj, hj', heq⟩ := h.keys _ (mem_keys.2 ⟨info, hinfo⟩)
  have := eq_of_mod_eq heq (by omega) (by omega)
  omega

theorem Window.not_full (hi : H ≤ i) (hi' : i ≤ R + cfg.snFieldLength.amWindowSize) : ¬ Full cfg s i := by
  obtain ⟨h0, h1⟩ := sizes cfg.snFieldLength
  intro hf
  obtain ⟨info, hinfo, -⟩ := full_iff.1 hf
  rw [h.infoAt_none hi (by omega)] at hinfo
  cases hinfo

end

/-! ## Scans over the window -/

theorem full_erase (hij : i % cfg.snFieldLength.mod ≠ j % cfg.snFieldLength.mod) :
    Full cfg { s with rxWindow := s.rxWindow.erase (i % cfg.snFieldLength.mod) } j ↔ Full cfg s j := by
  unfold Full fullyReceived
  rw [find?_erase, if_neg (Ne.symm hij)]

/-- the scan for the first SDU that is not fully received ends at an index up to H, over fully received SDUs -/
theorem firstNotFullyReceived_spec (hR : s.st.rxNext = R % cfg.snFieldLength.mod)
    (hH : s.st.rxNextHighest = H % cfg.snFieldLength.mod) (hlt : H < R + cfg.snFieldLength.mod) (fuel : ℕ)
    (ha : R ≤ a) (haH : a ≤ H) (hfuel : H - a ≤ fuel) :
    ∃ b, a ≤ b ∧ b ≤ H ∧ s.firstNotFullyReceived cfg fuel (a % cfg.snFieldLength.mod) = b % cfg.snFieldLength.mod ∧
      (∀ j, a ≤ j → j < b → Full cfg s j) ∧ (b = H ∨ ¬ Full cfg s b) := by
  induction fuel generalizing a with
  | zero => exact ⟨a, le_rfl, haH, rfl, fun j h1 h2 => by omega, .inl (by omega)⟩
  | succ fuel ih =>
    rw [firstNotFullyReceived, hH, rxModBase_index hR ha (by omega), rxModBase_index hR (by omega) hlt]
    split_ifs with h1 h2
    · obtain ⟨b, hab, hbH, heq, hall, hend⟩ := ih (by omega : R ≤ a + 1) (by omega) (by omega)
      refine ⟨b, by omega, hbH, ?_, ?_, hend⟩
      · rw [mod_add_mod]
        exact heq
      · intro j hj hjb
        rcases eq_or_lt_of_le hj with rfl | hj
        · exact h2
        · exact hall j hj hjb
    · exact ⟨a, le_rfl, haH, rfl, fun j h1 h2 => by omega, .inr h2⟩
    · exact ⟨a, le_rfl, haH, rfl, fun j h1 h2 => by omega, .inl (by omega)⟩

/-- the window without the SDUs of `n` indices from `a` on -/
def eraseRange (mod : ℕ) (w : CircularMap RlcRxAmSduInfo) : ℕ → ℕ → CircularMap RlcRxAmSduInfo
  | _, 0 => w
  | a, n + 1 => eraseRange mod (w.erase (a % mod)) (a + 1) n

@[simp] theorem cap_eraseRange (mod : ℕ) (w : CircularMap RlcRxAmSduInfo) (a n : ℕ) :
    (eraseRange mod w a n).cap = w.cap := by
  induction n generalizing w a with
  | zero => rfl
  | succ n ih => rw [eraseRange, ih, cap_erase]

theorem find?_eraseRange_of_notMem
    (h : ∀ j, a ≤ j → j < a + n → k ≠ j % mod) : (eraseRange mod w a n).find? k = w.find? k := by
  induction n generalizing w a with
  | zero => rfl
  | succ n ih =>
    rw [eraseRange, ih fun j hj hj' => h j (by omega) (by omega), find?_erase,
      if_neg (h a le_rfl (by omega))]

theorem find?_eraseRange_of_mem {j : ℕ} (hj : a ≤ j)
    (hj' : j < a + n) (hk : k = j % mod) : (eraseRange mod w a n).find? k = none := by
  have herase : ∀ (w : CircularMap RlcRxAmSduInfo) (b l : ℕ), w.find? k = none →
      (eraseRange mod w b l).find? k = none := by
    intro w b l
    induction l generalizing w b with
    | zero => exact id
    | succ l ih =>
      intro hw
      refine ih _ _ ?_
      rw [find?_erase, hw, ite_self]
  induction n generalizing w a with
  | zero => omega
  | succ n ih =>
    rw [eraseRange]
    rcases eq_or_lt_of_le hj with rfl | hlt
    · refine herase _ _ _ ?_
      rw [find?_erase, if_pos hk]
    · exact ih hlt (by omega)

/-- RX_Next moved from index `R` to `b`; the SDUs between them left the window -/
def dropTo (cfg : RlcRxAmConfig) (s : RlcRxAmEntity) (R b : ℕ) : RlcRxAmEntity :=
  { s with
    st := { s.st with rxNext := b % cfg.snFieldLength.mod }
    rxWindow := eraseRange cfg.snFieldLength.mod s.rxWindow R (b - R) }

/-- RX_Next moves over the fully received SDUs, which leave the window -/
theorem advanceRxNext_spec (hR : s.st.rxNext = R % cfg.snFieldLength.mod)
    (hH : s.st.rxNextHighest = H % cfg.snFieldLength.mod) (hlt : H ≤ R + cfg.snFieldLength.amWindowSize) (fuel : ℕ)
    (ha : R ≤ a) (haH : a ≤ H) (hfuel : H - a ≤ fuel) :
    ∃ b, a ≤ b ∧ b ≤ H ∧ (∀ j, a ≤ j → j < b → Full cfg s j) ∧ (b = H ∨ ¬ Full cfg s b) ∧
      advanceRxNext cfg fuel (a % cfg.snFieldLength.mod) s = dropTo cfg s a b := by
  obtain ⟨hmod, hwin⟩ := sizes cfg.snFieldLength
  induction fuel generalizing a s with
  | zero =>
    refine ⟨a, le_rfl, haH, fun j h1 h2 => by omega, .inl (by omega), ?_⟩
    rw [dropTo, Nat.sub_self]
    rfl
  | succ fuel ih =>
    rw [advanceRxNext, hH, rxModBase_index hR ha (by omega), rxModBase_index hR (by omega) (by omega)]
    split_ifs with h1 h2
    · obtain ⟨b, hab, hbH, hall, hend, heq⟩ :=
        ih (s := { s with rxWindow := s.rxWindow.erase (a % cfg.snFieldLength.mod) }) hR hH
          (by omega : R ≤ a + 1) (by omega) (by omega)
      have hne : ∀ j, a < j → j ≤ H → a % cfg.snFieldLength.mod ≠ j % cfg.snFieldLength.mod := by
        intro j hj hjH h
        have := sn_inj (R := R) ha (by omega) (by omega) (by omega) h
        omega
      refine ⟨b, by omega, hbH, ?_, ?_, ?_⟩
      · intro j hj hjb
        rcases eq_or_lt_of_le hj with rfl | hj
        · exact h2
        · exact (full_erase (hne j hj (by omega))).1 (hall j hj hjb)
      · rcases hend with hend | hend
        · exact .inl hend
        · exact .inr fun hf => hend ((full_erase (hne b (by omega) hbH)).2 hf)
      · rw [mod_add_mod, heq, dropTo, dropTo, show b - a = b - (a + 1) + 1 by omega]
        rfl
    · refine ⟨a, le_rfl, haH, fun j h1 h2 => by omega, .inr h2, ?_⟩
      rw [dropTo, Nat.sub_self]
      rfl
    · refine ⟨a, le_rfl, haH, fun j h1 h2 => by omega, .inl (by omega), ?_⟩
      rw [dropTo, Nat.sub_self]
      rfl

/-! ## Storing an SDU info -/

theorem find?_putInfo (hfree : ∀ k ∈ s.rxWindow.keys, k ≠ sn → k % s.rxWindow.cap ≠ sn % s.rxWindow.cap) :
    (s.putInfo sn info).rxWindow.find? k = if k = sn then some info else s.rxWindow.find? k := by
  unfold putInfo
  split_ifs with hc hk hk
  · obtain ⟨v, hv⟩ := mem_keys.1 (contains_iff_mem_keys.1 hc)
    rw [find?_modify, if_pos hk, hv]
    rfl
  · rw [find?_modify, if_neg hk]
  · rw [find?_overwrite, if_pos hk]
  · rw [find?_overwrite, if_neg hk]
    by_cases hmem : k ∈ s.rxWindow.keys
    · rw [if_neg (hfree k hmem hk)]
    · rw [notMem_keys.1 hmem, ite_self]

section

variable (h : Window P cfg R S H s)
include h

section

variable (hi : R ≤ i) (hi' : i < R + cfg.snFieldLength.amWindowSize)
include hi hi'

/-- the slot of an index of the window is free or its own -/
theorem Window.slot_free : ∀ k ∈ s.rxWindow.keys, k ≠ i % cfg.snFieldLength.mod →
      k % s.rxWindow.cap ≠ (i % cfg.snFieldLength.mod) % s.rxWindow.cap := by
  intro k hk hne heq
  obtain ⟨j, hj, hj', rfl⟩ := h.keys k hk
  rw [h.cap] at heq
  have hhi := h.highest_le
  exact hne (by rw [slot_inj hj (by omega) hi hi' heq])

theorem Window.find?_putInfo
    (info : RlcRxAmSduInfo) (k : ℕ) : (s.putInfo (i % cfg.snFieldLength.mod) info).rxWindow.find? k =
      if k = i % cfg.snFieldLength.mod then some info else s.rxWindow.find? k :=
  RlcRxAmEntity.find?_putInfo (h.slot_free hi hi')

theorem Window.infoAt_putInfo (info : RlcRxAmSduInfo) (hj : R ≤ j) (hj' : j < R + cfg.snFieldLength.mod) :
    infoAt cfg (s.putInfo (i % cfg.snFieldLength.mod) info) j = if j = i then some info else infoAt cfg s j := by
  have h1 := mod_eq cfg.snFieldLength
  unfold infoAt
  rw [h.find?_putInfo hi hi']
  by_cases hij : j = i
  · simp [hij]
  · rw [if_neg hij, if_neg fun heq => hij (eq_of_mod_eq heq (by omega) (by omega))]

end

theorem Window.put (hi : R ≤ i) (hiH : i < H) (hinfo : P info) :
    Window P cfg R S H (s.putInfo (i % cfg.snFieldLength.mod) info) := by
  have hhi := h.highest_le
  have hfind := h.find?_putInfo hi (by omega) info
  refine { h with cap := ?_, keys := ?_, infos := ?_ }
  · unfold putInfo
    split_ifs
    · exact h.cap
    · exact h.cap
  · intro sn hsn
    obtain ⟨v, hv⟩ := mem_keys.1 hsn
    rw [hfind] at hv
    split_ifs at hv with hk
    · exact ⟨i, hi, hiH, hk⟩
    · exact h.keys sn (mem_keys.2 ⟨v, hv⟩)
  · intro sn v hv
    rw [hfind] at hv
    split_ifs at hv with hk
    · cases hv
      exact hinfo
    · exact h.infos sn v hv

theorem raiseNextHighest_eq (hi : R ≤ i) (hi' : i < R + cfg.snFieldLength.amWindowSize) :
    s.raiseNextHighest cfg (i % cfg.snFieldLength.mod) =
      { s with st := { s.st with rxNextHighest := max H (i + 1) % cfg.snFieldLength.mod } } := by
  obtain ⟨h1, h2, h3, h4, h5⟩ := h.bounds
  rw [raiseNextHighest, h.bases.2.2, rxModBase_index h.rxNext hi (by omega), mod_add_mod]
  split_ifs with hc
  · rw [max_eq_right (by omega)]
  · rw [max_eq_left (by omega), ← h.rxNextHighest]

theorem Window.raise (hi : R ≤ i) (hi' : i < R + cfg.snFieldLength.amWindowSize) :
    Window P cfg R S (max H (i + 1)) (s.raiseNextHighest cfg (i % cfg.snFieldLength.mod)) := by
  have h1 := h.status_le
  have h2 := h.highest_le
  rw [raiseNextHighest_eq h hi hi']
  refine ⟨h.cap, h.rxNext, h.rxHighestStatus, rfl, h.next_le, by omega, by omega, ?_, h.infos⟩
  intro sn hsn
  obtain ⟨j, hj, hj', heq⟩ := h.keys sn hsn
  exact ⟨j, hj, by omega, heq⟩

end

/-- raising RX_Next_Highest and storing are independent -/
theorem raiseNextHighest_putInfo (s : RlcRxAmEntity) (sn : ℕ) (info : RlcRxAmSduInfo) :
    (s.putInfo sn info).raiseNextHighest cfg sn = (s.raiseNextHighest cfg sn).putInfo sn info := by
  unfold raiseNextHighest
  split_ifs with h1 h2 h2
  · rfl
  · exact absurd h1 h2
  · exact absurd h2 h1
  · rfl

/-! ## Completing an SDU -/

theorem full_iff_of_infoAt (h : infoAt cfg s' i = infoAt cfg s i) : Full cfg s' i ↔ Full cfg s i := by
  rw [full_iff, full_iff, h]

theorem updateHighestStatus_spec (h : Window P cfg R S H s) (hi : R ≤ i) (hiH : i < H)
    (hS : S = H ∨ S = i ∨ ¬ Full cfg s S) :
    ∃ S', S ≤ S' ∧ S' ≤ H ∧ (S' = H ∨ ¬ Full cfg s S') ∧ (∀ j, S ≤ j → j < S' → j = i ∨ Full cfg s j) ∧
      s.updateHighestStatus cfg (i % cfg.snFieldLength.mod) =
        { s with st := { s.st with rxHighestStatus := S' % cfg.snFieldLength.mod } } := by
  obtain ⟨h1, h2, h3, h4, h5⟩ := h.bounds
  rw [updateHighestStatus, h.bases.2.1, rxModBase_index h.rxNext hi (by omega)]
  split_ifs with hc
  · obtain rfl : i = S := by omega
    obtain ⟨b, hb, hbH, heq, hall, hend⟩ :=
      firstNotFullyReceived_spec h.rxNext h.rxNextHighest (by omega) cfg.snFieldLength.mod
        (by omega : R ≤ i + 1) (by omega) (by omega)
    refine ⟨b, by omega, hbH, hend, ?_, ?_⟩
    · intro j hj hjb
      rcases eq_or_lt_of_le hj with hij | hij
      · exact .inl hij.symm
      · exact .inr (hall j hij hjb)
    · rw [h.rxHighestStatus, mod_add_mod, heq]
  · refine ⟨S, le_rfl, h4, ?_, fun j h1 h2 => by omega, ?_⟩
    · rcases hS with hS | hS | hS
      · exact .inl hS
      · omega
      · exact .inr hS
    · rw [← h.rxHighestStatus]

/-- `s'` differs from `s` only in the window, the state variables, t-Reassembly and the delivered SDUs -/
structure SameReport (cfg : RlcRxAmConfig) (s s' : RlcRxAmEntity) : Prop where
  doStatus : s'.doStatus = s.doStatus
  writer : s'.statusOwnedByWriter = s.statusOwnedByWriter
  exchange : s'.statusForExchange = s.statusForExchange
  reader : s'.statusOwnedByReader = s.statusOwnedByReader
  size : s'.statusReportSize = s.statusReportSize
  prohibit : s'.statusProhibitTimerIsRunning = s.statusProhibitTimerIsRunning
  faults : cfg.tReassembly ≠ 0 → s'.faults = s.faults

theorem SameReport.refl (s : RlcRxAmEntity) : SameReport cfg s s := ⟨rfl, rfl, rfl, rfl, rfl, rfl, fun _ => rfl⟩

theorem SameReport.trans {s : RlcRxAmEntity} (h1 : SameReport cfg s s') (h2 : SameReport cfg s' s'') :
    SameReport cfg s s'' :=
  ⟨h2.doStatus.trans h1.doStatus, h2.writer.trans h1.writer, h2.exchange.trans h1.exchange,
    h2.reader.trans h1.reader, h2.size.trans h1.size, h2.prohibit.trans h1.prohibit,
    fun ht => (h2.faults ht).trans (h1.faults ht)⟩

/-- what processing stored data for index `i` does: RX_Next moves over fully received SDUs, which leave the window -/
structure Moved (P : RlcRxAmSduInfo → Prop) (cfg : RlcRxAmConfig) (R R' S' H i : ℕ) (info : RlcRxAmSduInfo)
    (out : List Bytes) (s s' : RlcRxAmEntity) : Prop where
  window : Window P cfg R' S' H s'
  le : R ≤ R'
  next : ¬ Full cfg s' R'
  status : S' = H ∨ ¬ Full cfg s' S'
  passed : ∀ j, R ≤ j → j < R' → Full cfg s j
  infos : ∀ j, R' ≤ j → j < R' + cfg.snFieldLength.amWindowSize →
    infoAt cfg s' j = if j = i then some info else infoAt cfg s j
  timer : s'.reassemblyTimer = s.reassemblyTimer
  trigger : s'.st.rxNextStatusTrigger = s.st.rxNextStatusTrigger
  delivered : s'.delivered = s.delivered ++ out
  report : SameReport cfg s s'

theorem infoAt_dropTo (hb : R ≤ b) (hbW : b ≤ R + cfg.snFieldLength.amWindowSize) (hj : b ≤ j)
    (hj' : j < b + cfg.snFieldLength.amWindowSize) : infoAt cfg (dropTo cfg s R b) j = infoAt cfg s j := by
  have h1 := mod_eq cfg.snFieldLength
  refine find?_eraseRange_of_notMem fun l hl hl' hlj => ?_
  have := eq_of_mod_eq hlj (by omega) (by omega)
  omega

section

variable (h : Window P cfg R S H s)
include h

/-- what is still in the window was there before, for an index from `b` on -/
theorem Window.find?_dropTo (hb : R ≤ b) (hsn : (dropTo cfg s R b).rxWindow.find? sn = some info) :
    s.rxWindow.find? sn = some info ∧ ∃ i, b ≤ i ∧ i < H ∧ sn = i % cfg.snFieldLength.mod := by
  have hout : ∀ j, R ≤ j → j < R + (b - R) → sn ≠ j % cfg.snFieldLength.mod := by
    intro j hj hjb hk
    have hnone : (dropTo cfg s R b).rxWindow.find? sn = none := find?_eraseRange_of_mem hj hjb hk
    rw [hnone] at hsn
    cases hsn
  have hin : s.rxWindow.find? sn = some info := (find?_eraseRange_of_notMem hout).symm.trans hsn
  obtain ⟨i, hi, hiH, hk⟩ := h.keys sn (mem_keys.2 ⟨info, hin⟩)
  refine ⟨hin, i, ?_, hiH, hk⟩
  by_contra hlt
  exact hout i hi (by omega) hk

theorem Window.dropTo (hb : R ≤ b) (hbS : b ≤ S) : Window P cfg b S H (dropTo cfg s R b) := by
  refine ⟨(cap_eraseRange _ _ _ _).trans h.cap, rfl, h.rxHighestStatus, h.rxNextHighest, hbS, h.status_le, ?_, ?_, ?_⟩
  · have := h.highest_le
    omega
  · intro sn hsn
    obtain ⟨info, hinfo⟩ := mem_keys.1 hsn
    exact (h.find?_dropTo hb hinfo).2
  · intro sn info hinfo
    exact h.infos sn info (h.find?_dropTo hb hinfo).1

/-- RX_Next moves on from an SDU that is fully received -/
theorem advance_moved (hS : S = H ∨ ¬ Full cfg s S) (hinfo : infoAt cfg s i = some info) :
    ∃ R', Moved P cfg R R' S H i info [] s (advanceRxNext cfg cfg.snFieldLength.mod (R % cfg.snFieldLength.mod) s) := by
  obtain ⟨h1, h2, h3, h4, h5⟩ := h.bounds
  obtain ⟨b, hb, hbH, hall, hend, heq⟩ := advanceRxNext_spec h.rxNext h.rxNextHighest h5 cfg.snFieldLength.mod
    le_rfl (by omega) (by omega)
  have hbS : b ≤ S := by
    by_contra hlt
    rcases hS with hS | hS
    · omega
    · exact hS (hall S h3 (by omega))
  have hwin := h.dropTo hb hbS
  have hkept : ∀ j, b ≤ j → j < b + cfg.snFieldLength.amWindowSize →
      infoAt cfg (RlcRxAmEntity.dropTo cfg s R b) j = infoAt cfg s j :=
    fun j hj hj' => infoAt_dropTo hb (by omega) hj hj'
  refine ⟨b, ?_⟩
  rw [heq]
  refine ⟨hwin, hb, ?_, ?_, hall, ?_, rfl, rfl, (List.append_nil _).symm,
    ⟨rfl, rfl, rfl, rfl, rfl, rfl, fun _ => rfl⟩⟩
  · rcases hend with hend | hend
    · exact hwin.not_full (by omega) (by omega)
    · exact fun hf => hend ((full_iff_of_infoAt (hkept b le_rfl (by omega))).1 hf)
  · by_cases hSH : S = H
    · exact .inl hSH
    · have hSf := hS.resolve_left hSH
      exact .inr fun hf => hSf ((full_iff_of_infoAt (hkept S hbS (by omega))).1 hf)
  · intro j hj hj'
    rw [hkept j hj hj']
    split_ifs with hij
    · rw [hij, hinfo]
    · rfl

theorem updateNext_moved (hS : S = H ∨ ¬ Full cfg s S)
    (hi : R ≤ i) (hiH : i < H) (hinfo : infoAt cfg s i = some info) (hnext : R ≠ i → ¬ Full cfg s R) :
    ∃ R', Moved P cfg R R' S H i info [] s (s.updateNext cfg (i % cfg.snFieldLength.mod)) := by
  obtain ⟨h1, h2, -, -, h5⟩ := h.bounds
  rw [updateNext, h.bases.1, rxModBase_index h.rxNext hi (by omega), h.rxNext, mod_mod]
  split_ifs with hc
  · exact advance_moved h hS hinfo
  · refine ⟨R, h, le_rfl, hnext (by omega), hS, fun j hj hj' => by omega, ?_, rfl, rfl,
      (List.append_nil _).symm, SameReport.refl s⟩
    intro j hj hj'
    split_ifs with hij
    · rw [hij, hinfo]
    · rfl

end

theorem deliverSdu_eq (s : RlcRxAmEntity) (sn : ℕ) (info : RlcRxAmSduInfo) (allocOk : Bool) :
    s.deliverSdu sn info allocOk =
      { s with delivered := s.delivered ++ (reassembleSdu info allocOk).toList }.putInfo sn
        { info with sduData := .slice [] } := by
  unfold deliverSdu
  cases reassembleSdu info allocOk with
  | none => simp
  | some sdu => rfl

/-- delivering an SDU keeps the window, and which SDUs are fully received -/
theorem Window.deliver [Releasable P] (allocOk : Bool) (h : Window P cfg R S H s) (hi : R ≤ i) (hiH : i < H)
    (hfull : info.fullyReceived = true) : Window P cfg R S H (s.deliverSdu (i % cfg.snFieldLength.mod) info allocOk) ∧
    ∀ j, R ≤ j → j < R + cfg.snFieldLength.mod → infoAt cfg (s.deliverSdu (i % cfg.snFieldLength.mod) info allocOk) j =
        if j = i then some { info with sduData := .slice [] } else infoAt cfg s j := by
  have h5 := h.highest_le
  have hw : Window P cfg R S H { s with delivered := s.delivered ++ (reassembleSdu info allocOk).toList } :=
    { h with }
  rw [deliverSdu_eq]
  exact ⟨hw.put hi hiH (Releasable.released info hfull), fun j hj hj' => hw.infoAt_putInfo hi (by omega) _ hj hj'⟩

/-- the SDU of index `i` is complete -/
theorem completeSdu_moved [Releasable P] (allocOk : Bool) (h : Window P cfg R S H s) (hi : R ≤ i) (hiH : i < H)
    (hinfo : infoAt cfg s i = some info) (hfull : info.fullyReceived = true) (hnext : R ≠ i → ¬ Full cfg s R)
    (hS : S = H ∨ S = i ∨ ¬ Full cfg s S) :
    ∃ R' S', Moved P cfg R R' S' H i { info with sduData := .slice [] } (reassembleSdu info allocOk).toList s
      (s.completeSdu cfg (i % cfg.snFieldLength.mod) info allocOk) ∧
      S ≤ S' ∧ ∀ j, S ≤ j → j < S' → Full cfg s j := by
  obtain ⟨h0, -, h3, h4, h5⟩ := h.bounds
  obtain ⟨hw1, hat1⟩ := h.deliver allocOk hi hiH hfull
  have heq1 := deliverSdu_eq s (i % cfg.snFieldLength.mod) info allocOk
  unfold completeSdu
  generalize s.deliverSdu (i % cfg.snFieldLength.mod) info allocOk = s1 at hw1 hat1 heq1 ⊢
  have hfull1 : ∀ j, R ≤ j → j < R + cfg.snFieldLength.mod → (Full cfg s1 j ↔ Full cfg s j) := by
    intro j hj hj'
    rw [full_iff, full_iff, hat1 j hj hj']
    by_cases hij : j = i
    · simp [hij, hinfo, hfull]
    · rw [if_neg hij]
  have hS1 : S = H ∨ S = i ∨ ¬ Full cfg s1 S := by
    rw [hfull1 S h3 (by omega)]
    exact hS
  obtain ⟨S', hSS, hSH, hSend, hclimb, heq2⟩ := updateHighestStatus_spec hw1 hi hiH hS1
  generalize s1.updateHighestStatus cfg (i % cfg.snFieldLength.mod) = s2 at heq2 ⊢
  have hw2 : Window P cfg R S' H s2 := by
    rw [heq2]
    exact { hw1 with rxHighestStatus := rfl, next_le := le_trans h3 hSS, status_le := hSH }
  have hat2 : ∀ j, infoAt cfg s2 j = infoAt cfg s1 j := by
    intro j
    rw [heq2]
    rfl
  have hfull2 : ∀ j, R ≤ j → j < R + cfg.snFieldLength.mod → (Full cfg s2 j ↔ Full cfg s j) :=
    fun j hj hj' => (full_iff_of_infoAt (hat2 j)).trans (hfull1 j hj hj')
  have hSend2 : S' = H ∨ ¬ Full cfg s2 S' := by
    rw [full_iff_of_infoAt (hat2 S')]
    exact hSend
  have hinfo2 : infoAt cfg s2 i = some { info with sduData := .slice [] } := by
    rw [hat2, hat1 i hi (by omega), if_pos rfl]
  have hnext2 : R ≠ i → ¬ Full cfg s2 R := by
    intro hne
    rw [hfull2 R le_rfl (by omega)]
    exact hnext hne
  have hrest : s2.reassemblyTimer = s.reassemblyTimer ∧ s2.st.rxNextStatusTrigger = s.st.rxNextStatusTrigger ∧
      s2.delivered = s.delivered ++ (reassembleSdu info allocOk).toList ∧ SameReport cfg s s2 := by
    rw [heq2, heq1]
    exact ⟨rfl, rfl, rfl, ⟨rfl, rfl, rfl, rfl, rfl, rfl, fun _ => rfl⟩⟩
  obtain ⟨R', hm⟩ := updateNext_moved hw2 hSend2 hi hiH hinfo2 hnext2
  have hle := hm.le
  have hR'H : R' ≤ H := le_trans hm.window.next_le hm.window.status_le
  refine ⟨R', S', ⟨hm.window, hm.le, hm.next, hm.status, ?_, ?_, hm.timer.trans hrest.1, hm.trigger.trans hrest.2.1, ?_,
    hrest.2.2.2.trans hm.report⟩, hSS, ?_⟩
  · intro j hj hj'
    exact (hfull2 j hj (by omega)).1 (hm.passed j hj hj')
  · intro j hj hj'
    rw [hm.infos j hj hj', hat2, hat1 j (by omega) (by omega)]
    split_ifs with hij
    · rfl
    · rfl
  · rw [hm.delivered, hrest.2.2.1, List.append_nil]
  · intro j hj hj'
    rcases hclimb j hj hj' with rfl | hf
    · exact full_iff.2 ⟨info, hinfo, hfull⟩
    · exact (hfull1 j (by omega) (by omega)).1 hf

/-! ## t-Reassembly -/

/-- starting t-Reassembly makes it watch RX_Next_Highest, which is behind RX_Next -/
theorem restartReassembly_spec (h : Window P cfg R S H s) (ha : R ≤ a) (haH : a ≤ H) :
    s.restartReassembly cfg (a % cfg.snFieldLength.mod) = s ∨
    R < H ∧ ∃ faults, (cfg.tReassembly ≠ 0 → faults = s.faults) ∧
      s.restartReassembly cfg (a % cfg.snFieldLength.mod) = { s with
        reassemblyTimer := true
        st := { s.st with rxNextStatusTrigger := H % cfg.snFieldLength.mod }
        faults := faults } := by
  obtain ⟨h1, h2, h3, h4, h5⟩ := h.bounds
  have ha1 : s.rxModBase cfg (a % cfg.snFieldLength.mod + 1) = a + 1 - R :=
    rxModBase_of_le h.rxNext (by rw [mod_add_mod]) (by omega) (by omega)
  unfold restartReassembly startReassembly
  rw [h.bases.2.2, ha1, h.rxNextHighest]
  split
  · rename_i hc
    refine .inr ⟨?_, _, fun ht => if_neg ht, rfl⟩
    simp only [gt_iff_lt, Bool.or_eq_true, Bool.and_eq_true, decide_eq_true_eq] at hc
    omega
  · exact .inl rfl

/-- the part of the state t-Reassembly is about, once RX_Next has moved from `R₀` to `R` -/
theorem updateReassemblyTimer_spec {R₀ : ℕ} (h : Window P cfg R S H s) (hR₀ : R ≤ R₀ + cfg.snFieldLength.amWindowSize)
    (htimer : s.reassemblyTimer = true → ∃ T, R₀ < T ∧ T ≤ H ∧ s.st.rxNextStatusTrigger = T % cfg.snFieldLength.mod) :
    ∃ t trig faults, s.updateReassemblyTimer cfg =
        { s with reassemblyTimer := t, st := { s.st with rxNextStatusTrigger := trig }, faults := faults } ∧
      (cfg.tReassembly ≠ 0 → faults = s.faults) ∧
      (t = true → ∃ T, R < T ∧ T ≤ H ∧ trig = T % cfg.snFieldLength.mod) ∧
      (t = true → trig = H % cfg.snFieldLength.mod ∨ s.reassemblyTimer = true ∧ trig = s.st.rxNextStatusTrigger) := by
  obtain ⟨h1, h2⟩ := sizes cfg.snFieldLength
  have h3 := le_trans h.next_le h.status_le
  -- whether or not the timer is started anew
  have hstart : ∀ t : RlcRxAmEntity, Window P cfg R S H t → t.reassemblyTimer = false →
      (∃ t' trig faults, t.restartReassembly cfg t.st.rxNext =
        { t with reassemblyTimer := t', st := { t.st with rxNextStatusTrigger := trig }, faults := faults } ∧
      (cfg.tReassembly ≠ 0 → faults = t.faults) ∧ (t' = true → R < H ∧ trig = H % cfg.snFieldLength.mod)) := by
    intro t ht hoff
    rw [ht.rxNext]
    rcases restartReassembly_spec ht le_rfl h3 with heq | ⟨hlt, faults, hfaults, heq⟩
    · refine ⟨t.reassemblyTimer, t.st.rxNextStatusTrigger, t.faults, by rw [heq], fun _ => rfl, fun hon => ?_⟩
      rw [hoff] at hon
      cases hon
    · exact ⟨true, _, faults, heq, hfaults, fun _ => ⟨hlt, rfl⟩⟩
  unfold updateReassemblyTimer
  cases hrun : s.reassemblyTimer with
  | false =>
    simp only [Bool.false_and, Bool.false_eq_true, if_false, hrun, Bool.not_false, if_true]
    obtain ⟨t, trig, faults, heq, hfaults, hT⟩ := hstart s h hrun
    exact ⟨t, trig, faults, by rw [heq], hfaults, fun hon => ⟨H, (hT hon).1, le_rfl, (hT hon).2⟩,
      fun hon => .inl (hT hon).2⟩
  | true =>
    cases hstop : s.stopReassembly cfg with
    | true =>
      simp only [Bool.and_self, if_true, Bool.not_false]
      have hoff : Window P cfg R S H { s with reassemblyTimer := false } := { h with }
      obtain ⟨t, trig, faults, heq, hfaults, hT⟩ := hstart _ hoff rfl
      exact ⟨t, trig, faults, heq, hfaults, fun hon => ⟨H, (hT hon).1, le_rfl, (hT hon).2⟩, fun hon => .inl (hT hon).2⟩
    | false =>
      simp only [Bool.and_false, Bool.false_eq_true, if_false, hrun, Bool.not_true]
      obtain ⟨T, hT0, hTH, htrig⟩ := htimer hrun
      refine ⟨true, s.st.rxNextStatusTrigger, s.faults, by rw [← hrun], fun _ => rfl, fun _ => ⟨T, ?_, hTH, htrig⟩,
        fun _ => .inr ⟨trivial, rfl⟩⟩
      -- an index that is no longer above RX_Next has stopped the timer
      by_contra hle
      simp only [stopReassembly, insideRxWindow, Bool.or_eq_false_iff, Bool.not_eq_false',
        decide_eq_true_eq, decide_eq_false_iff_not] at hstop
      rcases Nat.lt_or_eq_of_le (Nat.le_of_not_lt hle) with hlt | heq
      · have hbase : s.rxModBase cfg s.st.rxNextStatusTrigger = T + cfg.snFieldLength.mod - R :=
          modBase_index_of_lt h.rxNext (by rw [htrig, mod_mod]) hlt (by omega)
        have := hstop.2
        omega
      · exact hstop.1.1 (by rw [htrig, heq, h.rxNext])

/-! ## Storing data for an index -/

/-- what storing `info` for index `i` does to the state between two operations -/
structure Stores (P : RlcRxAmSduInfo → Prop) (cfg : RlcRxAmConfig) (R R' S' H' i : ℕ) (info : RlcRxAmSduInfo)
    (out : List Bytes) (s s' : RlcRxAmEntity) : Prop where
  inv : Inv P cfg R' S' H' s'
  le : R ≤ R'
  /-- RX_Next moved only over fully received SDUs -/
  passed : ∀ j, R ≤ j → j < R' → Full cfg s j ∨ (j = i ∧ info.fullyReceived = true)
  /-- other indices keep what they have -/
  others : ∀ j, R' ≤ j → j < R' + cfg.snFieldLength.amWindowSize → j ≠ i → infoAt cfg s' j = infoAt cfg s j
  incomplete : info.fullyReceived = false → R' = R ∧ infoAt cfg s' i = some info
  complete : info.fullyReceived = true → R' ≤ i → infoAt cfg s' i = some { info with sduData := .slice [] }
  delivered : s'.delivered = s.delivered ++ out
  report : SameReport cfg s s'

/-- how RX_Highest_Status and the index that t-Reassembly watches move, from `S` to `S'` and with RX_Next at `R'`:
RX_Highest_Status only over fully received SDUs, and a timer that has not been started anew watches what it watched -/
structure Climbs (cfg : RlcRxAmConfig) (S R' S' H' : ℕ) (s s' : RlcRxAmEntity) : Prop where
  le : S ≤ S'
  full : ∀ j, S ≤ j → R' ≤ j → j < S' → Full cfg s' j
  trigger : s'.reassemblyTimer = true → s'.st.rxNextStatusTrigger = H' % cfg.snFieldLength.mod ∨
    s.reassemblyTimer = true ∧ s'.st.rxNextStatusTrigger = s.st.rxNextStatusTrigger

/-- the state once `info` is stored for index `i` and RX_Next_Highest is above it -/
structure Put (P : RlcRxAmSduInfo → Prop) (cfg : RlcRxAmConfig) (R S H' i : ℕ) (info : RlcRxAmSduInfo)
    (s s' : RlcRxAmEntity) : Prop where
  window : Window P cfg R S H' s'
  infos : ∀ j, R ≤ j → j < R + cfg.snFieldLength.mod →
    infoAt cfg s' j = if j = i then some info else infoAt cfg s j
  timer : s'.reassemblyTimer = s.reassemblyTimer
  trigger : s'.st.rxNextStatusTrigger = s.st.rxNextStatusTrigger
  delivered : s'.delivered = s.delivered
  report : SameReport cfg s s'

theorem Window.put_raise (h : Window P cfg R S H s) (hi : R ≤ i)
    (hi' : i < R + cfg.snFieldLength.amWindowSize) (hinfo : P info) : Put P cfg R S (max H (i + 1)) i info s
      ((s.putInfo (i % cfg.snFieldLength.mod) info).raiseNextHighest cfg (i % cfg.snFieldLength.mod)) := by
  have hraise := h.raise hi hi'
  rw [raiseNextHighest_putInfo]
  refine ⟨hraise.put hi (by omega) hinfo, fun j hj hj' => (hraise.infoAt_putInfo hi hi' info hj hj').trans ?_, ?_, ?_,
    ?_, ?_⟩ <;> rw [raiseNextHighest_eq h hi hi']
  iterate 4 rfl
  exact ⟨rfl, rfl, rfl, rfl, rfl, rfl, fun _ => rfl⟩

/-- storing and moving on, with t-Reassembly updated, restores the invariant -/
theorem stores_of_moved {R' S' : ℕ} {info' : RlcRxAmSduInfo} {out : List Bytes}
    (h : Inv P cfg R S H s) (hi : R ≤ i) (hi' : i < R + cfg.snFieldLength.amWindowSize)
    (hput : Put P cfg R S (max H (i + 1)) i info s s') (hm : Moved P cfg R R' S' (max H (i + 1)) i info' out s' s'')
    (hinc : info.fullyReceived = false → R' = R ∧ info' = info)
    (hcomp : info.fullyReceived = true → info' = { info with sduData := .slice [] }) (hSS : S ≤ S')
    (hclimb : ∀ j, S ≤ j → j < S' → Full cfg s' j) :
    Stores P cfg R R' S' (max H (i + 1)) i info out s (s''.updateReassemblyTimer cfg) ∧
      Climbs cfg S R' S' (max H (i + 1)) s (s''.updateReassemblyTimer cfg) := by
  obtain ⟨h0, h2, -, -, h1⟩ := h.bounds
  have hle := hm.le
  have hR' : R' ≤ max H (i + 1) := le_trans hm.window.next_le hm.window.status_le
  have hinfos : ∀ j, R' ≤ j → j < R' + cfg.snFieldLength.amWindowSize →
      infoAt cfg s'' j = if j = i then some info' else infoAt cfg s j := by
    intro j hj hj'
    rw [hm.infos j hj hj', hput.infos j (by omega) (by omega)]
    split_ifs with hij
    · rfl
    · rfl
  have htimer : s''.reassemblyTimer = true →
      ∃ T, R < T ∧ T ≤ max H (i + 1) ∧ s''.st.rxNextStatusTrigger = T % cfg.snFieldLength.mod := by
    rw [hm.timer, hput.timer, hm.trigger, hput.trigger]
    intro hrun
    obtain ⟨T, hT, hTH, htrig⟩ := h.timer hrun
    exact ⟨T, hT, by omega, htrig⟩
  obtain ⟨t, trig, faults, heq, hfaults, hT, hkept⟩ := updateReassemblyTimer_spec hm.window (by omega) htimer
  have htop : R' = max H (i + 1) ∨ (max H (i + 1) - 1) % cfg.snFieldLength.mod ∈ s''.rxWindow.keys := by
    by_cases hend : R' = max H (i + 1)
    · exact .inl hend
    · refine .inr (mem_keys.2 ?_)
      have hat := hinfos (max H (i + 1) - 1) (by omega) (by omega)
      by_cases hij : max H (i + 1) - 1 = i
      · rw [if_pos hij] at hat
        exact ⟨info', hat⟩
      · rw [if_neg hij, show max H (i + 1) - 1 = H - 1 by omega] at hat
        obtain ⟨v, hv⟩ := mem_keys.1 (h.top.resolve_left (by omega))
        rw [show max H (i + 1) - 1 = H - 1 by omega]
        exact ⟨v, hat.trans hv⟩
  rw [heq]
  have hw := hm.window
  refine ⟨⟨⟨{ hw with }, hm.next, hm.status, htop, hT⟩, hle, ?_, ?_, ?_, ?_, ?_, ?_⟩, hSS, ?_, ?_⟩
  · intro j hj hj'
    have hf := hm.passed j hj hj'
    rw [full_iff, hput.infos j hj (by omega)] at hf
    by_cases hij : j = i
    · obtain ⟨v, hv, hvf⟩ := hf
      rw [if_pos hij] at hv
      cases hv
      exact .inr ⟨hij, hvf⟩
    · rw [if_neg hij] at hf
      exact .inl (full_iff.2 hf)
  · intro j hj hj' hij
    exact (hinfos j hj hj').trans (if_neg hij)
  · intro hno
    obtain ⟨hRR, hsame⟩ := hinc hno
    refine ⟨hRR, ?_⟩
    have hat := hinfos i (by omega) (by omega)
    rw [if_pos rfl, hsame] at hat
    exact hat
  · intro hyes hRi
    have hat := hinfos i hRi (by omega)
    rw [if_pos rfl, hcomp hyes] at hat
    exact hat
  · exact hm.delivered.trans (by rw [hput.delivered])
  · exact (hput.report.trans hm.report).trans ⟨rfl, rfl, rfl, rfl, rfl, rfl, hfaults⟩
  · intro j hj hRj hjS
    have hSH := hw.status_le
    have hf : Full cfg s'' j := by
      rw [full_iff, hm.infos j hRj (by omega)]
      split_ifs with hij
      · obtain ⟨v, hv, hvf⟩ := full_iff.1 (hclimb j hj hjS)
        rw [hput.infos j (by omega) (by omega), if_pos hij] at hv
        cases hv
        rw [hcomp hvf]
        exact ⟨_, rfl, hvf⟩
      · exact full_iff.1 (hclimb j hj hjS)
    exact hf
  · intro hon
    rw [← hput.timer, ← hput.trigger, ← hm.timer, ← hm.trigger]
    exact hkept hon

theorem afterStore_spec [Releasable P] (allocOk : Bool) (h : Inv P cfg R S H s) (hi : R ≤ i)
    (hi' : i < R + cfg.snFieldLength.amWindowSize) (hinfo : P info) :
    ∃ R' S', Stores P cfg R R' S' (max H (i + 1)) i info (reassembleSdu info allocOk).toList s
        ((s.putInfo (i % cfg.snFieldLength.mod) info).afterStore cfg (i % cfg.snFieldLength.mod) allocOk) ∧
      Climbs cfg S R' S' (max H (i + 1)) s
        ((s.putInfo (i % cfg.snFieldLength.mod) info).afterStore cfg (i % cfg.snFieldLength.mod) allocOk) := by
  obtain ⟨h0, -, h3, h4, h5⟩ := h.bounds
  have hput := h.toWindow.put_raise hi hi' hinfo
  unfold afterStore
  generalize (s.putInfo (i % cfg.snFieldLength.mod) info).raiseNextHighest cfg (i % cfg.snFieldLength.mod) =
    s' at hput ⊢
  have hat : infoAt cfg s' i = some info := by
    rw [hput.infos i hi (by omega), if_pos rfl]
  have hfull : ∀ j, R ≤ j → j < R + cfg.snFieldLength.mod → j ≠ i → (Full cfg s' j ↔ Full cfg s j) := by
    intro j hj hj' hij
    refine full_iff_of_infoAt ?_
    rw [hput.infos j hj hj', if_neg hij]
  have hnext : R ≠ i → ¬ Full cfg s' R := by
    intro hne
    rw [hfull R le_rfl (by omega) hne]
    exact h.next
  have hstatus : S ≠ i → ¬ Full cfg s' S := by
    intro hne
    rw [hfull S h3 (by omega) hne]
    rcases h.status with heq | hnf
    · exact h.toWindow.not_full heq.ge (by omega)
    · exact hnf
  dsimp only
  rw [show s'.rxWindow.find? (i % cfg.snFieldLength.mod) = some info from hat]
  dsimp only
  cases hf : info.fullyReceived with
  | true =>
    rw [if_pos rfl]
    obtain ⟨R', S', hm, hSS, hclimb⟩ := completeSdu_moved allocOk hput.window hi (by omega) hat hf hnext
      (by by_cases hSi : S = i
          · exact .inr (.inl hSi)
          · exact .inr (.inr (hstatus hSi)))
    refine ⟨R', S', stores_of_moved h hi hi' hput hm (fun hno => ?_) (fun _ => rfl) hSS hclimb⟩
    rw [hf] at hno
    cases hno
  | false =>
    rw [if_neg Bool.false_ne_true]
    have hnf : ¬ Full cfg s' i := by
      rw [full_iff]
      rintro ⟨v, hv, hvf⟩
      rw [hat] at hv
      cases hv
      rw [hf] at hvf
      cases hvf
    have hout : (reassembleSdu info allocOk).toList = [] := by
      simp [reassembleSdu, hf]
    rw [hout]
    have hm : Moved P cfg R R S (max H (i + 1)) i info [] s' s' := by
      refine ⟨hput.window, le_rfl, ?_, .inr ?_, fun j hj hj' => by omega, ?_, rfl, rfl, (List.append_nil _).symm,
        SameReport.refl _⟩
      · by_cases hRi : R = i
        · rw [hRi]
          exact hnf
        · exact hnext hRi
      · by_cases hSi : S = i
        · rw [hSi]
          exact hnf
        · exact hstatus hSi
      · intro j hj hj'
        split_ifs with hij
        · rw [hij, hat]
        · rfl
    refine ⟨R, S, stores_of_moved h hi hi' hput hm (fun _ => ⟨rfl, rfl⟩) (fun hyes => ?_) le_rfl
      fun j h1 h2 => by omega⟩
    rw [hf] at hyes
    cases hyes

end RlcRxAmEntity

end OcuduRan.Rlc
