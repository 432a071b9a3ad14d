/-
Registry of the CU-CP UEs: over any sequence of UE creations, context updates, removals and resumes, are the
(PCI, C-RNTI) lookup and the UE contexts two views of one relation?

`Registry` is the property: every UE is stored under its own index, the lookup is exactly the inverse of the pairs in
the contexts, a pair counts as taken only while a live UE holds it, and `allocate_ue_index` returns, with a free index
unless all are in use.

The lookup is written in two places only, `update_ue_context` (adds the new pair) and `remove_ue` (erases the current
pair). So the property is lost
- when an update is accepted for a UE that already has a pair: the old one is never erased;
- when a context is given another pair without going through `update_ue_context`, as the resume routine does with the
  new C-RNTI: the old pair goes stale and the new one is missing;
- when the database holds `max` UEs: one of the `max + 1` indices is still free and refused.

`registry_of_keepsPairs`: in every run whose steps avoid these, every state on the way satisfies `Registry`. The
condition `KeepsPairs` is on the arguments of the call and on the context it finds.
`resume_leaves_stale_pair` is the run in which the second one shows.
-/
import OcuduRan.Core.Machine
import OcuduRan.CuCp.UeManager

namespace OcuduRan.CuCp

open Option CuCpUe

open Std (ExtTreeMap)

namespace UeManager

/-- the database and its lookups agree -/
structure Registry (s : UeManager) : Prop where
  /-- a UE is stored under its own index: live UEs have different indices -/
  index : ∀ (u : ℕ) (ue : CuCpUe), s.ues[u]? = some ue → ue.ueIndex = u
  /-- no stale and no missing entry -/
  lookup : ∀ (p : ℕ × ℕ) (u : ℕ), s.pciRntiToUeIndex[p]? = some u ↔ ∃ ue, s.ues[u]? = some ue ∧ ue.pair = some p
  /-- a pair is refused as a duplicate only while a live UE holds it -/
  duplicate : ∀ pci rnti, s.getUeIndex pci rnti ≠ ueIndexInvalid →
    ∃ (u : ℕ) (ue : CuCpUe), s.ues[u]? = some ue ∧ ue.pair = some (pci, rnti)
  /-- `allocate_ue_index` returns a free index, or every index is in use -/
  alloc : ∃ i s', allocateUeIndex s = (.ok i, s') ∧
    (i = ueIndexInvalid ∧ (∀ j ≤ ueIndexMax, j ∈ s.ues) ∨ i ≤ ueIndexMax ∧ i ∉ s.ues)

/-- calls that write UE contexts or the lookup; `setRrcUe` attaches the RRC context, without which a resume does not get
past its first line -/
inductive RegistryOp where
  | addUe (duIndex : ℕ)
  | updateUeContext (ueIndex duId pci rnti pcellIndex : ℕ) (cgi : Option ℕ)
  | updateDuUe (ueIndex duId pci crnti pcellIndex : ℕ) (cgi : Option ℕ)
  | setRrcUe (ueIndex : ℕ)
  | removeUe (ueIndex : ℕ)
  | resume (request : RrcResumeRequest) (setup : Option (Option ℕ))

def registryStep (s : UeManager) : RegistryOp → UeManager
  | .addUe duIndex => (addUe duIndex s).2
  | .updateUeContext u duId pci rnti pcell cgi => (s.updateUeContext u duId pci rnti pcell cgi).2
  | .updateDuUe u duId pci crnti pcell cgi => s.modifyUe u fun ue => ue.updateDuUe duId pci crnti pcell cgi
  | .setRrcUe u => s.setRrcState u .idle
  | .removeUe u => s.removeUe u
  | .resume request setup => (ueResume request setup s).2

/-- identities that leave the pair of a context as it is: each of them invalid, which means not given, or the one the
context has; or the pair lacks a half before and after -/
def LeavesPair (ue : CuCpUe) (pci crnti : ℕ) : Prop :=
  (pci = invalidPci ∨ pci = ue.pci) ∧ (crnti = invalidRnti ∨ crnti = ue.crnti) ∨
    pci = invalidPci ∧ ue.pci = invalidPci ∨ crnti = invalidRnti ∧ ue.crnti = invalidRnti

instance (ue : CuCpUe) (pci crnti : ℕ) : Decidable (LeavesPair ue pci crnti) := inferInstanceAs (Decidable (_ ∨ _))

/-- the condition on a step. A UE is added below the limit less one. A context is updated, with valid identities and a
pair that the lookup does not know, for a UE without a pair. A context written elsewhere keeps its pair; a resume writes
no other C-RNTI to a UE that has a PCI. -/
def KeepsPairs (s : UeManager) : RegistryOp → Prop
  | .addUe duIndex => duIndex ≠ duIndexInvalid → s.ues.size + 1 ≠ ueIndexMax
  | .updateUeContext u duId pci rnti pcell _ =>
    duId ≠ gnbDuIdInvalid ∧ pci ≠ invalidPci ∧ rnti ≠ invalidRnti ∧ pcell ≠ invalidDuCellIndex ∧
      s.getUeIndex pci rnti = ueIndexInvalid → ∀ ue ∈ s.ues[u]?, ue.pair = none
  | .updateDuUe u _ pci crnti _ _ => ∀ ue ∈ s.ues[u]?, LeavesPair ue pci crnti
  | .setRrcUe _ => True
  | .removeUe _ => True
  | .resume request setup => ∀ ue ∈ s.ues[request.ueIndex]?, ue.pci ≠ invalidPci →
    ∀ c ∈ resumedCRntis request setup, c = ue.crnti

instance KeepsPairs.decidable (s : UeManager) : ∀ o, Decidable (s.KeepsPairs o)
  | .addUe _ => inferInstanceAs (Decidable (_ → _ ≠ _))
  | .updateUeContext _ _ _ _ _ _ => inferInstanceAs (Decidable (_ ∧ _ → ∀ ue ∈ _, _ = _))
  | .updateDuUe _ _ _ _ _ _ => inferInstanceAs (Decidable (∀ ue ∈ _, LeavesPair ue _ _))
  | .setRrcUe _ => isTrue trivial
  | .removeUe _ => isTrue trivial
  | .resume request setup => inferInstanceAs (Decidable (∀ ue ∈ _, _ → ∀ c ∈ resumedCRntis request setup, _))

/-! ## What holds without condition -/

theorem bounds_init (cfg : UeManagerConfig) : (init cfg).Bounds where
  next := Nat.zero_le _
  keys := by simp [init]
  size := by simp [init]

variable {u pci rnti : ℕ} {s s' : UeManager}

theorem Bounds.modify {f : CuCpUe → CuCpUe} (h : s.Bounds) (hues : s'.ues = s.ues.modify u f)
    (hnext : s'.nextUeIndex = s.nextUeIndex) : s'.Bounds where
  next := hnext ▸ h.next
  size := by
    rw [hues, ExtTreeMap.size_modify]
    exact h.size
  keys := fun i hi => by
    rw [hues, ExtTreeMap.mem_modify] at hi
    exact h.keys i hi

theorem Bounds.addUe (h : s.Bounds) (duIndex : ℕ) : (addUe duIndex s).2.Bounds := by
  obtain ⟨-, n, hn, heq⟩ | ⟨-, hlt, i, n, hi, hn, hfree, heq⟩ := addUe_eq h duIndex
  · rw [heq]
    exact ⟨hn, h.keys, h.size⟩
  · rw [heq]
    refine ⟨hn, fun u hu => ?_, ?_⟩
    · rcases ExtTreeMap.mem_insertIfNew.1 hu with hu | hu
      · rw [Std.LawfulEqCmp.compare_eq_iff_eq] at hu
        exact hu ▸ hi
      · exact h.keys u hu
    · rw [ExtTreeMap.size_insertIfNew, if_neg hfree]
      exact hlt

theorem Bounds.updateUeContext (h : s.Bounds) (u duId pci rnti pcell : ℕ) (cgi : Option ℕ) :
    (s.updateUeContext u duId pci rnti pcell cgi).2.Bounds := by
  cases hres : (s.updateUeContext u duId pci rnti pcell cgi).1 with
  | true =>
    rw [(updateUeContext_of_true hres).2.2.2.2.2.2]
    exact h.modify rfl rfl
  | false =>
    rw [updateUeContext_of_false hres]
    exact h

theorem Bounds.removeUe (h : s.Bounds) (u : ℕ) : (s.removeUe u).Bounds := by
  cases hu : s.ues[u]? with
  | none =>
    rw [removeUe_of_none hu]
    exact h
  | some ue =>
    have hvalid : u ≠ ueIndexInvalid := by
      have hle := h.keys u (ExtTreeMap.mem_iff_isSome_getElem?.2 (by simp [hu]))
      exact (hle.trans_lt ueIndexMax_lt_invalid).ne
    obtain ⟨hues, hnext, -⟩ := removeUe_of_some hvalid hu
    refine ⟨hnext ▸ h.next, fun v hv => ?_, ?_⟩
    · rw [hues] at hv
      exact h.keys v (ExtTreeMap.mem_of_mem_erase hv)
    · rw [hues]
      exact ExtTreeMap.size_erase_le.trans h.size

theorem bounds_step (s : UeManager) (o : RegistryOp) (h : s.Bounds) : (registryStep s o).Bounds := by
  cases o with
  | addUe duIndex => exact h.addUe duIndex
  | updateUeContext u duId pci rnti pcell cgi => exact h.updateUeContext u duId pci rnti pcell cgi
  | updateDuUe u duId pci crnti pcell cgi => exact h.modify rfl rfl
  | setRrcUe u => exact h.modify rfl rfl
  | removeUe u => exact h.removeUe u
  | resume request setup =>
    have hframe := Frame.ueResume s request setup
    obtain ⟨f, -, hues⟩ := hframe.own
    exact h.modify hues hframe.next

/-! ## The relation between contexts and lookup -/

/-- UEs stored under their own index and a lookup that inverts the pairs -/
structure Inverse (s : UeManager) : Prop where
  index : ∀ (u : ℕ) (ue : CuCpUe), s.ues[u]? = some ue → ue.ueIndex = u
  lookup : ∀ (p : ℕ × ℕ) (u : ℕ), s.pciRntiToUeIndex[p]? = some u ↔ ∃ ue, s.ues[u]? = some ue ∧ ue.pair = some p

/-- with indices in range and a database below its limit, the inverse relation makes the registry -/
theorem Inverse.registry (h : s.Inverse) (hb : s.Bounds) (hsize : s.ues.size ≠ ueIndexMax) : s.Registry := by
  obtain ⟨i, n, halloc, -, hcases⟩ := allocateUeIndex_ok hb
  refine ⟨h.index, h.lookup, fun pci rnti hdup => ?_, i, _, halloc, .inr ?_⟩
  · unfold getUeIndex at hdup
    cases hp : s.pciRntiToUeIndex[(pci, rnti)]? with
    | none => simp [hp] at hdup
    | some u => exact ⟨u, (h.lookup _ _).1 hp⟩
  · rcases hcases with ⟨hfull, -⟩ | ⟨-, hi⟩
    · exact absurd hfull hsize
    · exact hi

theorem inverse_init (cfg : UeManagerConfig) : (init cfg).Inverse where
  index := by simp [init]
  lookup := by simp [init]

/-- writing one context keeps the relation where that context keeps its index and its pair -/
theorem Inverse.modify {f : CuCpUe → CuCpUe} (h : s.Inverse) (hues : s'.ues = s.ues.modify u f)
    (hlookup : s'.pciRntiToUeIndex = s.pciRntiToUeIndex) (hindex : ∀ ue, (f ue).ueIndex = ue.ueIndex)
    (hpair : ∀ ue, s.ues[u]? = some ue → (f ue).pair = ue.pair) : s'.Inverse := by
  have hget : ∀ v : ℕ, s'.ues[v]? = if u = v then s.ues[v]?.map f else s.ues[v]? := by
    rw [hues]
    exact getElem?_modifyUe s u f
  refine ⟨fun v ue' hue' => ?_, fun p v => ?_⟩
  · rw [hget] at hue'
    split_ifs at hue'
    · obtain ⟨ue, hue, rfl⟩ := map_eq_some_iff.1 hue'
      exact (hindex ue).trans (h.index v ue hue)
    · exact h.index v ue' hue'
  · rw [hlookup, h.lookup, hget]
    split_ifs with huv
    · subst huv
      cases hue : s.ues[u]? with
      | none => simp
      | some ue => simp [hpair ue hue]
    · rfl

theorem pair_create (i duIndex : ℕ) : (create i duIndex).pair = none := by
  simp [pair, create]

/-- a new UE has no pair yet -/
theorem Inverse.insert (h : s.Inverse) {i duIndex : ℕ} (n : ℕ) (hfree : i ∉ s.ues) :
    Inverse { s with nextUeIndex := n, ues := s.ues.insertIfNew i (.create i duIndex) } := by
  have hget : ∀ u : ℕ, (s.ues.insertIfNew i (.create i duIndex))[u]? =
      if i = u then some (.create i duIndex) else s.ues[u]? := by
    intro u
    simp [ExtTreeMap.getElem?_insertIfNew, hfree]
  refine ⟨fun u ue hue => ?_, fun p u => ?_⟩
  · simp only [hget] at hue
    split_ifs at hue with hiu
    · cases hue
      exact hiu
    · exact h.index u ue hue
  · simp only [hget]
    rw [h.lookup]
    split_ifs with hiu
    · subst hiu
      have hnone : s.ues[i]? = none := by simpa using hfree
      simp [hnone, pair_create]
    · rfl

theorem pair_updateDuUe (hpci : pci ≠ invalidPci) (hrnti : rnti ≠ invalidRnti) (ue : CuCpUe)
    (duId pcell : ℕ) (cgi : Option ℕ) : (ue.updateDuUe duId pci rnti pcell cgi).pair = some (pci, rnti) := by
  simp [pair, updateDuUe, hpci, hrnti]

/-- an update for a UE that had no pair keeps the relation -/
theorem Inverse.update (h : s.Inverse) (hb : s.Bounds) {duId pcell : ℕ} {cgi : Option ℕ} (hmem : u ∈ s.ues)
    (hpci : pci ≠ invalidPci) (hrnti : rnti ≠ invalidRnti) (hfree : s.getUeIndex pci rnti = ueIndexInvalid)
    (hpair : ∀ ue, s.ues[u]? = some ue → ue.pair = none) :
    Inverse { s.modifyUe u (fun ue => ue.updateDuUe duId pci rnti pcell cgi) with
      pciRntiToUeIndex := s.pciRntiToUeIndex.insertIfNew (pci, rnti) u } := by
  have hnone : s.pciRntiToUeIndex[(pci, rnti)]? = none := by
    cases hp : s.pciRntiToUeIndex[(pci, rnti)]? with
    | none => rfl
    | some v =>
      obtain ⟨ue, hue, -⟩ := (h.lookup _ _).1 hp
      have hle := hb.keys v (ExtTreeMap.mem_iff_isSome_getElem?.2 (by simp [hue]))
      have hv : v = ueIndexInvalid := by simpa [getUeIndex, hp] using hfree
      exact absurd (hv ▸ hle) (not_le.2 ueIndexMax_lt_invalid)
  have hnew : (pci, rnti) ∉ s.pciRntiToUeIndex := by
    rw [ExtTreeMap.mem_iff_isSome_getElem?, hnone]
    simp
  have hlookup : ∀ p : ℕ × ℕ, (s.pciRntiToUeIndex.insertIfNew (pci, rnti) u)[p]? =
      if (pci, rnti) = p then some u else s.pciRntiToUeIndex[p]? := by
    intro p
    simp [ExtTreeMap.getElem?_insertIfNew, hnew]
  have hues : ∀ v : ℕ, (s.modifyUe u fun ue => ue.updateDuUe duId pci rnti pcell cgi).ues[v]? =
      if u = v then s.ues[v]?.map (fun ue => ue.updateDuUe duId pci rnti pcell cgi) else s.ues[v]? :=
    getElem?_modifyUe s u _
  refine ⟨fun v ue hue => ?_, fun p v => ?_⟩
  · rw [hues] at hue
    split_ifs at hue with huv
    · rw [map_eq_some_iff] at hue
      obtain ⟨ue0, hue0, rfl⟩ := hue
      exact h.index v ue0 hue0
    · exact h.index v ue hue
  · rw [hlookup, hues]
    obtain ⟨ue, hue⟩ := isSome_iff_exists.1 (ExtTreeMap.mem_iff_isSome_getElem?.1 hmem)
    by_cases huv : u = v
    · subst huv
      rw [if_pos rfl, hue, map_some]
      have hnot : s.pciRntiToUeIndex[p]? ≠ some u := by
        intro hp
        obtain ⟨ue', hue', hp'⟩ := (h.lookup p u).1 hp
        rw [hpair ue' hue'] at hp'
        cases hp'
      simp only [some.injEq, exists_eq_left']
      rw [pair_updateDuUe hpci hrnti, some.injEq]
      split_ifs with hp
      · exact iff_of_true rfl hp
      · exact iff_of_false hnot hp
    · rw [if_neg huv, ← h.lookup]
      split_ifs with hp
      · subst hp
        rw [hnone]
        simp [huv]
      · rfl

/-- removal keeps the relation -/
theorem Inverse.removeUe (h : s.Inverse) (hb : s.Bounds) (u : ℕ) : (s.removeUe u).Inverse := by
  cases hu : s.ues[u]? with
  | none =>
    rw [removeUe_of_none hu]
    exact h
  | some ue =>
    have hvalid : u ≠ ueIndexInvalid := by
      have hle := hb.keys u (ExtTreeMap.mem_iff_isSome_getElem?.2 (by simp [hu]))
      exact (hle.trans_lt ueIndexMax_lt_invalid).ne
    obtain ⟨hues, -, hlookup⟩ := removeUe_of_some hvalid hu
    have hget : ∀ v : ℕ, (s.removeUe u).ues[v]? = if u = v then none else s.ues[v]? := by
      intro v
      rw [hues]
      simp [ExtTreeMap.getElem?_erase]
    have hpair : ∀ p : ℕ × ℕ,
        (s.removeUe u).pciRntiToUeIndex[p]? = if ue.pair = some p then none else s.pciRntiToUeIndex[p]? := by
      intro p
      rw [hlookup]
      cases hp : ue.pair with
      | none => simp
      | some q => simp [ExtTreeMap.getElem?_erase]
    refine ⟨fun v ue' hue' => ?_, fun p v => ?_⟩
    · rw [hget] at hue'
      split_ifs at hue'
      exact h.index v ue' hue'
    · rw [hpair, hget]
      have hown : s.pciRntiToUeIndex[p]? = some u ↔ ue.pair = some p := by
        rw [h.lookup, hu]
        simp
      split_ifs with hp huv huv
      · simp
      · -- another UE with the erased pair would share the lookup entry
        rw [← h.lookup, hown.2 hp]
        simp [huv]
      · subst huv
        rw [hown]
        simp [hp]
      · exact h.lookup p v

theorem pair_updateDuUe_of_leavesPair {ue : CuCpUe} {crnti : ℕ} (h : LeavesPair ue pci crnti) (duId pcell : ℕ)
    (cgi : Option ℕ) : (ue.updateDuUe duId pci crnti pcell cgi).pair = ue.pair := by
  rcases h with ⟨hp | hp, hc | hc⟩ | ⟨hp, hp'⟩ | ⟨hc, hc'⟩ <;> simp [pair, updateDuUe, *]

/-- a context whose PCI stays, and whose C-RNTI stays where it has one, keeps its pair -/
theorem Rewritten.pair_eq {written : List ℕ} {ue ue' : CuCpUe} (h : Rewritten written ue ue')
    (hw : ue.pci ≠ invalidPci → ∀ c ∈ written, c = ue.crnti) : ue'.pair = ue.pair := by
  unfold pair
  rw [h.pci]
  by_cases hp : ue.pci = invalidPci
  · simp [hp]
  · have hc : ue'.crnti = ue.crnti := h.crnti.elim id (hw hp _)
    rw [hc]

/-! ## Runs -/

/-- what a run carries -/
structure Inv (s : UeManager) : Prop where
  bounds : s.Bounds
  inverse : s.Inverse
  size : s.ues.size ≠ ueIndexMax

theorem inv_init (cfg : UeManagerConfig) : (init cfg).Inv where
  bounds := bounds_init cfg
  inverse := inverse_init cfg
  size := by simp [init, ueIndexMax]

theorem removeUe_size_le (hb : s.Bounds) (u : ℕ) : (s.removeUe u).ues.size ≤ s.ues.size := by
  cases hu : s.ues[u]? with
  | none => rw [removeUe_of_none hu]
  | some ue =>
    have hkey := hb.keys u (ExtTreeMap.mem_iff_isSome_getElem?.2 (by simp [hu]))
    rw [(removeUe_of_some (hkey.trans_lt ueIndexMax_lt_invalid).ne hu).1]
    exact ExtTreeMap.size_erase_le

/-- one step under the condition -/
theorem Inv.step (s : UeManager) (o : RegistryOp) (h : s.Inv) (hk : s.KeepsPairs o) : (registryStep s o).Inv := by
  obtain ⟨hb, hinv, hsize⟩ := h
  suffices hkept : (registryStep s o).Inverse ∧ (registryStep s o).ues.size ≠ ueIndexMax from
    ⟨bounds_step s o hb, hkept.1, hkept.2⟩
  cases o with
  | addUe duIndex =>
    simp only [registryStep]
    obtain ⟨-, n, -, heq⟩ | ⟨hdu, -, i, n, -, -, hfree, heq⟩ := addUe_eq hb duIndex
    · rw [heq]
      exact ⟨⟨hinv.index, hinv.lookup⟩, hsize⟩
    · rw [heq]
      refine ⟨hinv.insert n hfree, ?_⟩
      rw [ExtTreeMap.size_insertIfNew, if_neg hfree]
      exact hk hdu
  | updateUeContext u duId pci rnti pcell cgi =>
    simp only [registryStep]
    cases hres : (s.updateUeContext u duId pci rnti pcell cgi).1 with
    | true =>
      obtain ⟨hmem, hdu, hpci, hrnti, hpcell, hfree, heq⟩ := updateUeContext_of_true hres
      rw [heq]
      refine ⟨hinv.update hb hmem hpci hrnti hfree (hk ⟨hdu, hpci, hrnti, hpcell, hfree⟩), ?_⟩
      rw [modifyUe, ExtTreeMap.size_modify]
      exact hsize
    | false =>
      rw [updateUeContext_of_false hres]
      exact ⟨hinv, hsize⟩
  | updateDuUe u duId pci crnti pcell cgi =>
    refine ⟨hinv.modify (f := fun ue => ue.updateDuUe duId pci crnti pcell cgi) rfl rfl (fun _ => rfl) fun ue hue =>
      pair_updateDuUe_of_leavesPair (hk ue hue) _ _ _, ?_⟩
    rw [registryStep, modifyUe, ExtTreeMap.size_modify]
    exact hsize
  | setRrcUe u =>
    refine ⟨hinv.modify (f := fun ue => { ue with rrcUe := some .idle }) rfl rfl (fun _ => rfl) fun _ _ => rfl, ?_⟩
    rw [registryStep, setRrcState, modifyUe, ExtTreeMap.size_modify]
    exact hsize
  | removeUe u =>
    have hlt := lt_of_le_of_ne hb.size hsize
    exact ⟨hinv.removeUe hb u, ((removeUe_size_le hb u).trans_lt hlt).ne⟩
  | resume request setup =>
    have hframe := Frame.ueResume s request setup
    obtain ⟨f, hf, hues⟩ := hframe.own
    refine ⟨hinv.modify hues hframe.lookup (fun ue => (hf ue).index) fun ue hue => (hf ue).pair_eq (hk ue hue), ?_⟩
    rw [registryStep, hues, ExtTreeMap.size_modify]
    exact hsize

/-- **Registry.** In a run of the manager whose steps keep the pairs, every state on the way has a lookup that is
exactly the inverse of the contexts and an index allocation that fails only when every index is in use. The steps keep
the pairs when a context is updated only for a UE that has no pair, `update_du_ue` and resumes bring no other identity
than the context holds, and fewer than `ueIndexMax` UEs are live. -/
theorem registry_of_keepsPairs (cfg : UeManagerConfig) (ops : List RegistryOp)
    (h : Machine.Always registryStep KeepsPairs (init cfg) ops) (n : ℕ) :
    (Machine.run registryStep (init cfg) (ops.take n)).Registry := by
  have hinv : (Machine.run registryStep (init cfg) (ops.take n)).Inv :=
    Machine.run_inv Inv.step _ _ (inv_init cfg) (h.take n)
  exact hinv.inverse.registry hinv.bounds hinv.size

def defaultConfig : UeManagerConfig := ⟨8, 411, .profile0, .profile0⟩

/-- a UE that keeps its C-RNTI over an RNA update and a resume, and is removed; its pair then goes to another UE -/
def reusedPairRun : List RegistryOp :=
  [.addUe 0, .updateUeContext 0 0 1 17921 0 none, .setRrcUe 0, .resume ⟨0, 17921, .rnaUpd⟩ none,
    .resume ⟨0, 17922, .moData⟩ (some (some 17921)), .updateDuUe 0 2 1 0 0 none, .removeUe 0, .addUe 0,
    .updateUeContext 1 0 1 17921 0 none]

theorem registry_of_keepsPairs_reusedPair :
    let s := Machine.run registryStep (init defaultConfig) reusedPairRun
    s.Registry ∧ s.pciRntiToUeIndex.toList = [((1, 17921), 1)] :=
  ⟨registry_of_keepsPairs defaultConfig reusedPairRun (by decide +kernel) 9, by decide +kernel⟩

/-- a UE resumes under another C-RNTI: the lookup still resolves the old pair and does not know the new one -/
def resumeRun : List RegistryOp :=
  [.addUe 0, .updateUeContext 0 0 1 17921 0 none, .setRrcUe 0, .resume ⟨0, 17922, .moData⟩ (some none)]

/-- after `resumeRun` UE 0 holds (1, 17922), which the lookup does not know; a new UE with the pair (1, 17921), held by
nobody, is refused as a duplicate; and once UE 0 is removed the stale entry is still there -/
theorem resume_leaves_stale_pair :
    let s := Machine.run registryStep (init defaultConfig) resumeRun
    let s1 := registryStep s (.addUe 0)
    let s2 := registryStep s1 (.removeUe 0)
    ¬s.Registry ∧ s.ues[0]?.bind CuCpUe.pair = some (1, 17922) ∧ s.pciRntiToUeIndex.toList = [((1, 17921), 0)] ∧
      s1.ues.size = 2 ∧ (s1.updateUeContext 1 0 1 17921 0 none).1 = false ∧
      s2.ues.toList.map (fun e => (e.1, e.2.pair)) = [(1, none)] ∧
      s2.pciRntiToUeIndex.toList = [((1, 17921), 0)] ∧ (s2.updateUeContext 1 0 1 17921 0 none).1 = false := by
  intro s s1 s2
  have hpair : s.ues[0]?.bind pair = some (1, 17922) := by decide +kernel
  refine ⟨fun h => ?_, hpair, by decide +kernel⟩
  have hknown := (h.lookup (1, 17922) 0).2 (bind_eq_some_iff.1 hpair)
  have hunknown : s.pciRntiToUeIndex[(1, 17922)]? = none := by decide +kernel
  rw [hunknown] at hknown
  cases hknown

end UeManager

end OcuduRan.CuCp
