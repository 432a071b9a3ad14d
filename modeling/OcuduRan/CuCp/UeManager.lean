/-
The UE manager of the CU-CP (lib/cu_cp/ue_manager/ue_manager_impl.cpp, cu_cp_ue_impl.cpp) and the resume routine that
writes a UE's C-RNTI behind its back (lib/cu_cp/routines/ue_resume_routine.cpp).

The manager owns the UE contexts and three lookups: (PCI, C-RNTI) to UE index, full I-RNTI to UE index and short I-RNTI
to UE index. Identifiers come from wrapping counters that are advanced until a free value turns up; a loop that cannot
end is the fault `diverges`, a call through the pointer of a UE without RRC context is `nullDeref`. The lookups are
ordered by key, which is what `get_full_i_rnti` meets first.

Results: `allocateUeIndex_ok` (the loop over UE indices always ends, with an index that is not in use, and the manager
gives up only at its limit), `addUe_eq`, `updateUeContext_of_true`, `removeUe_of_some` (what the operations do to the
UEs and to the lookup) and `Frame` (what all other writers of a UE context leave alone), `Frame.ueResume` (which C-RNTIs
a resume can write).
-/
import OcuduRan.Core.Coded
import OcuduRan.CuCp.IRnti

namespace OcuduRan.CuCp

open Std (ExtTreeMap)
open CounterSearch Coded

/-! ## Identifiers -/

/-- `cu_cp_ue_index_t`: `max` and `invalid` are the two largest values of 64 bits -/
def ueIndexMax : ℕ := 2 ^ 64 - 2

def ueIndexInvalid : ℕ := 2 ^ 64 - 1

/-- `cu_cp_du_index_t::invalid` -/
def duIndexInvalid : ℕ := 65535

/-- `gnb_du_id_t::invalid` -/
def gnbDuIdInvalid : ℕ := 68719476736

def invalidPci : ℕ := 1008

def invalidRnti : ℕ := 0

/-- `INVALID_DU_CELL_INDEX` -/
def invalidDuCellIndex : ℕ := 32

inductive RrcState where
  | idle
  | connected
  | inactive
deriving DecidableEq, Repr

/-! ## UE contexts -/

/-- what the manager keeps of a UE; `rrcUe` is the state of its RRC context, `none` while the pointer is null -/
structure CuCpUe where
  ueIndex : ℕ
  duIdx : ℕ
  duId : ℕ
  pci : ℕ
  crnti : ℕ
  pcellIndex : ℕ
  servingCellId : Option ℕ
  rrcUe : Option RrcState
deriving DecidableEq, Repr

namespace CuCpUe

/-- the context made by `add_ue` -/
def create (ueIndex duIndex : ℕ) : CuCpUe :=
  ⟨ueIndex, duIndex, gnbDuIdInvalid, invalidPci, invalidRnti, invalidDuCellIndex, none, none⟩

def duUeCreated (ue : CuCpUe) : Bool := ue.duIdx ≠ duIndexInvalid

def updateDuUe (ue : CuCpUe) (duId pci crnti pcellIndex : ℕ) (cgi : Option ℕ) : CuCpUe :=
  { ue with
    duId := if duId ≠ gnbDuIdInvalid then duId else ue.duId
    pci := if pci ≠ invalidPci then pci else ue.pci
    crnti := if crnti ≠ invalidRnti then crnti else ue.crnti
    pcellIndex := if pcellIndex ≠ invalidDuCellIndex then pcellIndex else ue.pcellIndex
    servingCellId := cgi.orElse fun _ => ue.servingCellId }

/-- the key under which the lookup should hold the UE: its PCI and C-RNTI once it has both -/
def pair (ue : CuCpUe) : Option (ℕ × ℕ) :=
  if ue.pci ≠ invalidPci ∧ ue.crnti ≠ invalidRnti then some (ue.pci, ue.crnti) else none

end CuCpUe

/-! ## The manager -/

/-- why a call does not come back -/
inductive Stuck where
  | diverges
  | nullDeref
deriving DecidableEq, Repr

/-- lookup from (PCI, C-RNTI), ordered as tuples are -/
abbrev PairMap : Type := ExtTreeMap (ℕ × ℕ) ℕ (lexOrd (α := ℕ) (β := ℕ)).compare

structure UeManager where
  maxNofUes : ℕ
  ues : ExtTreeMap ℕ CuCpUe
  nextUeIndex : ℕ
  pciRntiToUeIndex : PairMap
  nextFull : IRnti
  nextShort : IRnti
  fullIRntiToUeIndex : ExtTreeMap ℕ ℕ
  shortIRntiToUeIndex : ExtTreeMap ℕ ℕ

/-- the part of `ue_manager_config` that the operations below read -/
structure UeManagerConfig where
  maxNofUes : ℕ
  gnbId : ℕ
  fullIRntiProf : FullIRntiProfile
  shortIRntiProf : ShortIRntiProfile
deriving DecidableEq, Repr

namespace UeManager

def init (cfg : UeManagerConfig) : UeManager where
  maxNofUes := cfg.maxNofUes
  ues := ∅
  nextUeIndex := 0
  pciRntiToUeIndex := ∅
  nextFull := .make cfg.fullIRntiProf.layout (cfg.fullIRntiProf.layout.toLocalNodeId cfg.gnbId) 0
  nextShort := .make cfg.shortIRntiProf.layout (cfg.shortIRntiProf.layout.toLocalNodeId cfg.gnbId) 0
  fullIRntiToUeIndex := ∅
  shortIRntiToUeIndex := ∅

/-- `increase_next_ue_index` -/
def increaseUeIndex (i : ℕ) : ℕ := if i = ueIndexMax then 0 else i + 1

/-- `allocate_ue_index`; the loop is given up after as many rounds as there are indices -/
def allocateUeIndex : Coded Stuck UeManager ℕ := fun s =>
  if s.ues.size = ueIndexMax then (.ok ueIndexInvalid, s)
  else if s.nextUeIndex ∉ s.ues then
    (.ok s.nextUeIndex, { s with nextUeIndex := increaseUeIndex s.nextUeIndex })
  else
    match search increaseUeIndex (fun i => i ∉ s.ues) (ueIndexMax + 1) s.nextUeIndex with
    | some i => (.ok i, { s with nextUeIndex := increaseUeIndex i })
    | none => (.error (.code .diverges), s)

def addUe (duIndex : ℕ) : Coded Stuck UeManager ℕ :=
  if duIndex = duIndexInvalid then pure ueIndexInvalid
  else do
    let ueIndex ← allocateUeIndex
    if ueIndex = ueIndexInvalid then pure ueIndexInvalid
    else do
      modify fun s => { s with ues := s.ues.insertIfNew ueIndex (.create ueIndex duIndex) }
      pure ueIndex

section

variable (s : UeManager)

/-- `get_ue_index(pci, rnti)` -/
def getUeIndex (pci rnti : ℕ) : ℕ := (s.pciRntiToUeIndex[(pci, rnti)]?).getD ueIndexInvalid

/-- write to the context of a UE -/
def modifyUe (ueIndex : ℕ) (f : CuCpUe → CuCpUe) : UeManager :=
  { s with ues := s.ues.modify ueIndex f }

def updateUeContext (ueIndex duId pci rnti pcellIndex : ℕ) (cgi : Option ℕ) : Bool × UeManager :=
  if ueIndex = ueIndexInvalid then (false, s)
  else if ueIndex ∉ s.ues then (false, s)
  else if duId = gnbDuIdInvalid then (false, s)
  else if pci = invalidPci then (false, s)
  else if rnti = invalidRnti then (false, s)
  else if pcellIndex = invalidDuCellIndex then (false, s)
  else if s.getUeIndex pci rnti ≠ ueIndexInvalid then (false, s)
  else
    let s' := s.modifyUe ueIndex fun ue => ue.updateDuUe duId pci rnti pcellIndex cgi
    (true, { s' with pciRntiToUeIndex := s'.pciRntiToUeIndex.insertIfNew (pci, rnti) ueIndex })

/-- the two loops that take a UE out of the I-RNTI lookups -/
def dropIRntis (ueIndex : ℕ) : UeManager :=
  { s with
    fullIRntiToUeIndex := s.fullIRntiToUeIndex.filter fun _ u => u ≠ ueIndex
    shortIRntiToUeIndex := s.shortIRntiToUeIndex.filter fun _ u => u ≠ ueIndex }

def removeUe (ueIndex : ℕ) : UeManager :=
  if ueIndex = ueIndexInvalid then s
  else
    match s.ues[ueIndex]? with
    | none => s
    | some ue =>
      let lookup :=
        if ue.pci ≠ invalidPci then
          if ue.crnti ≠ invalidRnti then s.pciRntiToUeIndex.erase (ue.pci, ue.crnti) else s.pciRntiToUeIndex
        else s.pciRntiToUeIndex
      let s' := dropIRntis { s with pciRntiToUeIndex := lookup } ueIndex
      { s' with ues := s'.ues.erase ueIndex }

/-- `i_rntis_t` -/
structure IRntis where
  short : IRnti
  full : IRnti
deriving DecidableEq, Repr

def allocateIRntis : Coded Stuck UeManager (Option IRntis) := fun s =>
  if s.shortIRntiToUeIndex.size = s.maxNofUes ∨ s.fullIRntiToUeIndex.size = s.maxNofUes then (.ok none, s)
  else
    match takeIRnti s.nextFull s.fullIRntiToUeIndex with
    | none => (.error (.code .diverges), s)
    | some full =>
      match takeIRnti s.nextShort s.shortIRntiToUeIndex with
      | none => (.error (.code .diverges), { s with nextFull := full })
      | some short =>
        (.ok (some ⟨short, full⟩), { s with nextFull := full.increase, nextShort := short.increase })

/-- `get_rrc_ue()->...` on a UE of the manager -/
def derefRrcUe (ueIndex : ℕ) : Coded Stuck UeManager RrcState := fun s =>
  match s.ues[ueIndex]?.bind CuCpUe.rrcUe with
  | some st => (.ok st, s)
  | none => (.error (.code .nullDeref), s)

def setRrcState (ueIndex : ℕ) (st : RrcState) : UeManager :=
  s.modifyUe ueIndex fun ue => { ue with rrcUe := some st }

def setInactive (ueIndex : ℕ) : Coded Stuck UeManager (Option IRntis) := fun s =>
  if ueIndex = ueIndexInvalid then (.ok none, s)
  else if ueIndex ∉ s.ues then (.ok none, s)
  else
    (do
      let iRntis ← allocateIRntis
      match iRntis with
      | none => pure none
      | some r => do
        let _ ← derefRrcUe ueIndex
        modify fun s => s.setRrcState ueIndex .inactive
        modify fun s =>
          { s with
            fullIRntiToUeIndex := s.fullIRntiToUeIndex.insertIfNew r.full.value ueIndex
            shortIRntiToUeIndex := s.shortIRntiToUeIndex.insertIfNew r.short.value ueIndex }
        pure (some r)) s

def setActive (ueIndex : ℕ) : UeManager :=
  if ueIndex = ueIndexInvalid then s
  else if ueIndex ∉ s.ues then s
  else s.dropIRntis ueIndex

/-- `get_full_i_rnti`. The loop over the lookup does not advance its iterator: it returns on the first entry or stays
there. -/
def getFullIRnti (ueIndex : ℕ) : Coded Stuck UeManager (Option ℕ) := fun s =>
  if ueIndex = ueIndexInvalid then (.ok none, s)
  else if ueIndex ∉ s.ues then (.ok none, s)
  else
    (do
      let st ← derefRrcUe ueIndex
      if st ≠ RrcState.inactive then pure none
      else
        match s.fullIRntiToUeIndex.toList.head? with
        | none => pure none
        | some e => if e.2 = ueIndex then pure (some e.1) else fail .diverges) s

/-- `resume_cause_t` -/
inductive ResumeCause where
  | emergency
  | highPrioAccess
  | mtAccess
  | moSig
  | moData
  | moVoiceCall
  | moVideoCall
  | moSms
  | rnaUpd
  | mpsPrioAccess
  | mcsPrioAccess
  | unknown
deriving DecidableEq, Repr

/-- `rrc_resume_request` -/
structure RrcResumeRequest where
  ueIndex : ℕ
  newCRnti : ℕ
  cause : ResumeCause
deriving DecidableEq, Repr

/-- `verify_rrc_resume_request` -/
def verifyRrcResumeRequest (request : RrcResumeRequest) : Bool :=
  request.ueIndex ≠ ueIndexInvalid ∧ (s.ues[request.ueIndex]?).any CuCpUe.duUeCreated

def setCRnti (ueIndex crnti : ℕ) : UeManager :=
  s.modifyUe ueIndex fun ue => { ue with crnti := crnti }

/-- the branch of the resume routine for an RNA update: the UE goes straight back to RRC_INACTIVE; false when no I-RNTIs
are left for it -/
def suspendOnRnaUpdate (request : RrcResumeRequest) : Coded Stuck UeManager Bool :=
  if request.cause = ResumeCause.rnaUpd then do
    modify fun s => (s.setActive request.ueIndex).setCRnti request.ueIndex request.newCRnti
    let iRntis ← setInactive request.ueIndex
    pure iRntis.isSome
  else pure false

/-- `ue_resume_routine`, as far as it writes the manager. `setup` is the outcome of the UE context setup at the DU:
`none` when it fails, otherwise the C-RNTI the DU reports, if it does. -/
def ueResume (request : RrcResumeRequest) (setup : Option (Option ℕ)) : Coded Stuck UeManager Unit := fun s =>
  if s.verifyRrcResumeRequest request then
    (do
      let _ ← derefRrcUe request.ueIndex
      let suspended ← suspendOnRnaUpdate request
      if suspended then pure ()
      else
        match setup with
        | none => pure ()
        | some crnti => modify fun s => s.setCRnti request.ueIndex (crnti.getD request.newCRnti)) s
  else (.ok (), s)

/-- the C-RNTIs that a resume can write: the new one at an RNA update; after a context setup the one that the response
reports, or else the new one -/
def resumedCRntis (request : RrcResumeRequest) (setup : Option (Option ℕ)) : List ℕ :=
  (if request.cause = ResumeCause.rnaUpd then [request.newCRnti] else []) ++
    setup.toList.map fun crnti => crnti.getD request.newCRnti

/-! ## Allocation of UE indices -/

theorem ueIndexMax_lt_invalid : ueIndexMax < ueIndexInvalid := by decide

theorem increaseUeIndex_eq : increaseUeIndex = wrapNext ueIndexMax := rfl

/-- what the counter and the database keep: indices in range, and not all of them in use -/
structure Bounds (s : UeManager) : Prop where
  next : s.nextUeIndex ≤ ueIndexMax
  keys : ∀ u, u ∈ s.ues → u ≤ ueIndexMax
  size : s.ues.size ≤ ueIndexMax

end

variable {s : UeManager} {u duId pci rnti pcell : ℕ} {cgi : Option ℕ}

/-- with fewer UEs than `ueIndexMax` some index is free -/
theorem exists_free (h : s.ues.size ≤ ueIndexMax) : ∃ i ≤ ueIndexMax, i ∉ s.ues := by
  by_contra hall
  push Not at hall
  have hcard : (Finset.range (ueIndexMax + 1)).card ≤ s.ues.size :=
    TreeMaps.card_le_size fun i hi => hall i (Nat.le_of_lt_succ (Finset.mem_range.1 hi))
  rw [Finset.card_range] at hcard
  omega

/-- `allocate_ue_index` returns: invalid at the limit, a free index below it -/
theorem allocateUeIndex_ok (h : s.Bounds) :
    ∃ i n, allocateUeIndex s = (.ok i, { s with nextUeIndex := n }) ∧ n ≤ ueIndexMax ∧
      (s.ues.size = ueIndexMax ∧ i = ueIndexInvalid ∨ s.ues.size < ueIndexMax ∧ i ≤ ueIndexMax ∧ i ∉ s.ues) := by
  unfold allocateUeIndex
  by_cases hfull : s.ues.size = ueIndexMax
  · rw [if_pos hfull]
    exact ⟨ueIndexInvalid, s.nextUeIndex, rfl, h.next, .inl ⟨hfull, rfl⟩⟩
  · have hlt : s.ues.size < ueIndexMax := lt_of_le_of_ne h.size hfull
    rw [if_neg hfull]
    by_cases hfree : s.nextUeIndex ∉ s.ues
    · rw [if_pos hfree]
      exact ⟨s.nextUeIndex, increaseUeIndex s.nextUeIndex, rfl, wrapNext_le h.next, .inr ⟨hlt, h.next, hfree⟩⟩
    · rw [if_neg hfree, increaseUeIndex_eq]
      cases hsearch : search (wrapNext ueIndexMax) (fun i => i ∉ s.ues) (ueIndexMax + 1) s.nextUeIndex with
      | none =>
        obtain ⟨i, hi, hnot⟩ := exists_free h.size
        have hused := search_wrapNext_none h.next hsearch hi
        exact absurd hnot (of_decide_eq_false hused)
      | some i =>
        obtain ⟨hi, hle⟩ := search_wrapNext h.next hsearch
        exact ⟨i, wrapNext ueIndexMax i, rfl, wrapNext_le hle, .inr ⟨hlt, hle, of_decide_eq_true hi⟩⟩

/-- `add_ue`: at the limit, or for an invalid DU, nothing but the counter changes; otherwise a new context under a free
index -/
theorem addUe_eq (h : s.Bounds) (duIndex : ℕ) : (duIndex = duIndexInvalid ∨ s.ues.size = ueIndexMax) ∧
        (∃ n ≤ ueIndexMax, addUe duIndex s = (.ok ueIndexInvalid, { s with nextUeIndex := n })) ∨
      duIndex ≠ duIndexInvalid ∧ s.ues.size < ueIndexMax ∧
        ∃ i n, i ≤ ueIndexMax ∧ n ≤ ueIndexMax ∧ i ∉ s.ues ∧
          addUe duIndex s =
            (.ok i, { s with nextUeIndex := n, ues := s.ues.insertIfNew i (.create i duIndex) }) := by
  unfold addUe
  by_cases hdu : duIndex = duIndexInvalid
  · rw [if_pos hdu]
    exact .inl ⟨.inl hdu, s.nextUeIndex, h.next, rfl⟩
  · rw [if_neg hdu]
    obtain ⟨i, n, halloc, hn, ⟨hfull, rfl⟩ | ⟨hlt, hi, hfree⟩⟩ := allocateUeIndex_ok h
    · refine .inl ⟨.inr hfull, n, hn, ?_⟩
      rw [bind_of_ok halloc, if_pos rfl, pure_apply]
    · refine .inr ⟨hdu, hlt, i, n, hi, hn, hfree, ?_⟩
      have hvalid : i ≠ ueIndexInvalid := (hi.trans_lt ueIndexMax_lt_invalid).ne
      rw [bind_of_ok halloc, if_neg hvalid]
      rfl

/-! ## Updates and removal -/

theorem getElem?_modifyUe (s : UeManager) (u : ℕ) (f : CuCpUe → CuCpUe) (i : ℕ) :
    (s.modifyUe u f).ues[i]? = if u = i then s.ues[i]?.map f else s.ues[i]? := by
  by_cases hi : u = i
  · subst hi
    simp [modifyUe]
  · simp [modifyUe, ExtTreeMap.getElem?_modify, hi]

/-- an accepted update writes the context and adds its pair to the lookup -/
theorem updateUeContext_of_true (h : (s.updateUeContext u duId pci rnti pcell cgi).1 = true) :
    u ∈ s.ues ∧ duId ≠ gnbDuIdInvalid ∧ pci ≠ invalidPci ∧ rnti ≠ invalidRnti ∧ pcell ≠ invalidDuCellIndex ∧
      s.getUeIndex pci rnti = ueIndexInvalid ∧
      (s.updateUeContext u duId pci rnti pcell cgi).2 =
        { s.modifyUe u (fun ue => ue.updateDuUe duId pci rnti pcell cgi) with
          pciRntiToUeIndex := s.pciRntiToUeIndex.insertIfNew (pci, rnti) u } := by
  unfold updateUeContext at h ⊢
  split_ifs at h ⊢ with h1 h2 h3 h4 h5 h6 h7
  exact ⟨h2, h3, h4, h5, h6, not_not.1 h7, rfl⟩

/-- a refused update changes nothing -/
theorem updateUeContext_of_false (h : (s.updateUeContext u duId pci rnti pcell cgi).1 = false) :
    (s.updateUeContext u duId pci rnti pcell cgi).2 = s := by
  unfold updateUeContext at h ⊢
  split_ifs at h ⊢ <;> rfl

theorem removeUe_of_none (h : s.ues[u]? = none) : s.removeUe u = s := by
  unfold removeUe
  rw [h]
  split_ifs <;> rfl

/-- removal takes the UE's current pair out of the lookup -/
theorem removeUe_of_some {ue : CuCpUe} (hvalid : u ≠ ueIndexInvalid) (h : s.ues[u]? = some ue) :
    (s.removeUe u).ues = s.ues.erase u ∧ (s.removeUe u).nextUeIndex = s.nextUeIndex ∧ (s.removeUe u).pciRntiToUeIndex =
        (match ue.pair with | some p => s.pciRntiToUeIndex.erase p | none => s.pciRntiToUeIndex) := by
  unfold removeUe CuCpUe.pair
  rw [if_neg hvalid, h]
  refine ⟨rfl, rfl, ?_⟩
  by_cases hp : ue.pci ≠ invalidPci
  · by_cases hr : ue.crnti ≠ invalidRnti
    · simp [dropIRntis, hp, hr]
    · simp [dropIRntis, hp, hr]
  · simp [dropIRntis, hp]

/-! ## Writers of a context -/

theorem derefRrcUe_of_some {st : RrcState} (h : s.ues[u]?.bind CuCpUe.rrcUe = some st) :
    derefRrcUe u s = (.ok st, s) := by
  unfold derefRrcUe
  rw [h]

theorem derefRrcUe_of_none (h : s.ues[u]?.bind CuCpUe.rrcUe = none) :
    derefRrcUe u s = (.error (.code .nullDeref), s) := by
  unfold derefRrcUe
  rw [h]

/-- a context that was written to: the same UE under the same PCI, with its C-RNTI or one of `written` -/
structure Rewritten (written : List ℕ) (ue ue' : CuCpUe) : Prop where
  index : ue'.ueIndex = ue.ueIndex
  pci : ue'.pci = ue.pci
  crnti : ue'.crnti = ue.crnti ∨ ue'.crnti ∈ written

/-- what a procedure that only writes the context of UE `u` does: the lookup and the counter stay, and so do all other
contexts -/
structure Frame (u : ℕ) (written : List ℕ) (s s' : UeManager) : Prop where
  next : s'.nextUeIndex = s.nextUeIndex
  lookup : s'.pciRntiToUeIndex = s.pciRntiToUeIndex
  own : ∃ f : CuCpUe → CuCpUe, (∀ ue, Rewritten written ue (f ue)) ∧ s'.ues = s.ues.modify u f

namespace Frame

variable {u : ℕ} {written : List ℕ}

theorem of_eq {s s' : UeManager} (hues : s'.ues = s.ues) (hnext : s'.nextUeIndex = s.nextUeIndex)
    (hlookup : s'.pciRntiToUeIndex = s.pciRntiToUeIndex) : Frame u written s s' := by
  refine ⟨hnext, hlookup, id, fun _ => ⟨rfl, rfl, .inl rfl⟩, ?_⟩
  rw [hues]
  exact ExtTreeMap.ext_getElem? fun i => by simpa [ExtTreeMap.getElem?_modify] using fun h => h ▸ rfl

theorem refl (s : UeManager) : Frame u written s s := of_eq rfl rfl rfl

theorem trans {s s' s'' : UeManager} (h : Frame u written s s') (h' : Frame u written s' s'') :
    Frame u written s s'' := by
  obtain ⟨f, hf, hs⟩ := h.own
  obtain ⟨g, hg, hs'⟩ := h'.own
  refine ⟨h'.next.trans h.next, h'.lookup.trans h.lookup, g ∘ f, fun ue => ?_, ?_⟩
  · have hgf := hg (f ue)
    refine ⟨hgf.index.trans (hf ue).index, hgf.pci.trans (hf ue).pci, ?_⟩
    rcases hgf.crnti with hc | hc
    · rw [Function.comp, hc]
      exact (hf ue).crnti
    · exact .inr hc
  · rw [hs', hs]
    refine ExtTreeMap.ext_getElem? fun i => ?_
    simp only [ExtTreeMap.getElem?_modify, Std.ReflCmp.compare_self, if_true]
    split_ifs
    · rw [Option.map_map]
    · rfl

theorem modifyUe (s : UeManager) {f : CuCpUe → CuCpUe} (hf : ∀ ue, Rewritten written ue (f ue)) :
    Frame u written s (s.modifyUe u f) := ⟨rfl, rfl, f, hf, rfl⟩

variable (s)

theorem allocateIRntis : Frame u written s (allocateIRntis s).2 := by
  unfold UeManager.allocateIRntis
  split_ifs
  · exact refl s
  · cases takeIRnti s.nextFull s.fullIRntiToUeIndex with
    | none => exact refl s
    | some full =>
      cases takeIRnti s.nextShort s.shortIRntiToUeIndex with
      | none => exact of_eq rfl rfl rfl
      | some short => exact of_eq rfl rfl rfl

theorem derefRrcUe (u : ℕ) : (derefRrcUe u s).2 = s := by
  unfold UeManager.derefRrcUe
  split <;> rfl

theorem setInactive (u : ℕ) : Frame u written s (setInactive u s).2 := by
  unfold UeManager.setInactive
  split_ifs
  · exact refl s
  rotate_left
  · exact refl s
  · refine bind_inv (I := Frame u written s) (fun s' hs' => hs'.trans (allocateIRntis s')) (fun r s' hs' => ?_) (refl s)
    cases r with
    | none => exact hs'
    | some r =>
      refine bind_inv (I := Frame u written s) (fun s' hs' => ?_) (fun _ s' hs' => ?_) hs'
      · rw [derefRrcUe]
        exact hs'
      · have hstate : Frame u written s' (s'.setRrcState u .inactive) := modifyUe s' fun _ => ⟨rfl, rfl, .inl rfl⟩
        exact (hs'.trans hstate).trans (of_eq rfl rfl rfl)

theorem setActive (u : ℕ) : Frame u written s (s.setActive u) := by
  unfold UeManager.setActive
  split_ifs
  · exact refl s
  · exact of_eq rfl rfl rfl
  · exact refl s

theorem setCRnti {c : ℕ} (u : ℕ) (hc : c ∈ written) : Frame u written s (s.setCRnti u c) :=
  modifyUe s fun _ => ⟨rfl, rfl, .inr hc⟩

/-- the resume routine leaves the lookup as it was and writes the context of its UE: the new C-RNTI at an RNA update,
the one of the response, or the new one in its place, after a context setup -/
theorem ueResume (request : RrcResumeRequest) (setup : Option (Option ℕ)) :
    Frame request.ueIndex (resumedCRntis request setup) s (ueResume request setup s).2 := by
  unfold UeManager.ueResume
  by_cases hverify : s.verifyRrcResumeRequest request = true
  · rw [if_pos hverify]
    refine bind_inv (I := Frame _ _ s) (fun s' hs' => ?_) (fun _ s' hs' => ?_) (refl s)
    · rw [derefRrcUe]
      exact hs'
    · refine bind_inv (I := Frame _ _ s) (fun s' hs' => ?_) (fun suspended s' hs' => ?_) hs'
      · unfold UeManager.suspendOnRnaUpdate
        split_ifs with hrna
        · have hnew : request.newCRnti ∈ resumedCRntis request setup := by simp [resumedCRntis, hrna]
          refine bind_inv (I := Frame _ _ s) (fun s' hs' => ?_) (fun _ s' hs' => ?_) hs'
          · exact (hs'.trans (setActive s' _)).trans (setCRnti _ _ hnew)
          · exact bind_inv (I := Frame _ _ s) (fun s' hs' => hs'.trans (setInactive s' _)) (fun _ s' hs' => hs') hs'
        · exact hs'
      · cases suspended with
        | true => exact hs'
        | false =>
          cases setup with
          | none => exact hs'
          | some crnti => exact hs'.trans (setCRnti s' _ (by simp [resumedCRntis]))
  · rw [if_neg hverify]
    exact refl s

end Frame

end UeManager

end OcuduRan.CuCp
