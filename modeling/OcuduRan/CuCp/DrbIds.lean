/-
DRB identities are not reused under one key (lib/cu_cp/up_resource_manager).

`Keyed` adds to the context the DRB IDs that were in use at or after the last key change; the program has no such set,
its `used_drb_ids` is to stand for it. `IdsFulfilled`, of a request of a run:
- no DRB the plan adds has an ID of that set or of an active DRB, and no two of them have the same ID;
- `allocate_drb_id`, for the preferred IDs of the request, returns, and returns the invalid ID only when the limit on
  the number of DRBs is reached or no ID is free;
- after the request nof_drbs ≤ nof_used_drb_ids ≤ 29 and nof_drbs ≤ max_nof_drbs_per_ue, so that none of the differences
  that `get_nof_stale_drb_ids`, `get_nof_available_drb_ids` and `key_refresh_useful` form is negative.
`drbIds_of_permitted`: every request of a run is fulfilled if every request that is not refused prefers IDs that can be
looked at, releases flows of the sessions it names and stays within the limit on the number of DRBs.

Witnesses (`drbIds_fail`): a source node that used DRB 31, which RRC allows, ends the program in `get_used_drb_index`;
two flows under a limit of one DRB make `key_refresh_useful` subtract 2 from 1.
-/
import OcuduRan.Core.Machine
import OcuduRan.CuCp.UpSteps

namespace OcuduRan.CuCp.Up

open Std (ExtTreeMap)
open ExceptFold TreeMaps Machine

variable {ctx ctx' : UpContext} {cfg : UpCfg} {o : UpOp} {k : Keyed}

/-! ## The property -/

/-- the context with the DRB IDs in use at or after the last key change -/
structure Keyed where
  ctx : UpContext
  seen : Finset ℕ

namespace Keyed

def init : Keyed := ⟨UpContext.init, ∅⟩

/-- the DRBs after a request were in use; a key change starts the set anew -/
def step (cfg : UpCfg) (k : Keyed) (o : UpOp) : Keyed :=
  match o with
  | .keyChange => ⟨Up.step cfg k.ctx o, keySet (Up.step cfg k.ctx o).drbMap⟩
  | o => ⟨Up.step cfg k.ctx o, k.seen ∪ keySet (Up.step cfg k.ctx o).drbMap⟩

end Keyed

/-- the counters of a context -/
structure Counted (cfg : UpCfg) (ctx : UpContext) : Prop where
  drbs : getNofDrbs ctx ≤ getNofUsedDrbIds ctx
  used : getNofUsedDrbIds ctx ≤ maxNofDrbs
  stale : getNofStaleDrbIds ctx = getNofUsedDrbIds ctx - getNofDrbs ctx
  available : getNofAvailableDrbIds ctx = maxNofDrbs - getNofUsedDrbIds ctx
  limit : getNofDrbs ctx ≤ cfg.maxNofDrbsPerUe
  needed : nofDrbsNeeded ctx cfg = min (cfg.maxNofDrbsPerUe - getNofDrbs ctx) 8
  refresh : keyRefreshUseful ctx cfg = true ↔ maxNofDrbs - getNofUsedDrbIds ctx < nofDrbsNeeded ctx cfg ∧
    nofDrbsNeeded ctx cfg ≤ maxNofDrbs - getNofDrbs ctx

structure IdsFulfilled (cfg : UpCfg) (k : Keyed) (o : UpOp) : Prop where
  fresh : ∀ update, plan cfg k.ctx o = .ok update → ∀ s d drb, Adds update s d drb → d ∉ k.seen ∧ d ∉ k.ctx.drbMap
  distinct : ∀ update, plan cfg k.ctx o = .ok update → ∀ s s' d drb drb', Adds update s d drb → Adds update s' d drb' →
    s = s' ∧ drb = drb'
  allocates : isValid cfg k.ctx o = true → ∀ p ∈ preferredIds k.ctx o, ∀ new update, ∃ r,
    allocateDrbId new k.ctx update cfg.maxNofDrbsPerUe p = .ok r ∧
      (r = drbIdInvalid → cfg.maxNofDrbsPerUe ≤ k.ctx.drbMap.size ∨ ∀ d, InRange d → ¬Free k.ctx update new d)
  counters : Counted cfg (step cfg k.ctx o)

/-! ## The condition -/

def IdsPermitted (cfg : UpCfg) (k : Keyed) (o : UpOp) : Prop :=
  isValid cfg k.ctx o = true → Planable cfg k.ctx o ∧ WithinLimit cfg k.ctx o

instance : Decidable (IdsPermitted cfg k o) := inferInstanceAs (Decidable (_ → _))

/-! ## One request -/

/-- what holds between the requests: the used IDs cover those in use since the last key change -/
structure IdInv (cfg : UpCfg) (k : Keyed) : Prop where
  linked : Linked k.ctx
  seen : ∀ d ∈ k.seen, d ∈ k.ctx.usedDrbIds
  limit : k.ctx.drbMap.size ≤ cfg.maxNofDrbsPerUe

theorem idInv_init (cfg : UpCfg) : IdInv cfg Keyed.init :=
  ⟨linked_init, by simp [Keyed.init], by simp [Keyed.init, UpContext.init]⟩

/-- the used IDs only grow between key changes -/
theorem Outcome.used (hout : Outcome cfg ctx o ctx') (ho : o ≠ .keyChange) :
    ∀ d ∈ ctx.usedDrbIds, d ∈ ctx'.usedDrbIds := by
  intro d hd
  cases hout with
  | refused => exact hd
  | updated _ _ _ hupdated => exact hupdated.used d hd
  | release _ _ hreleased => exact hreleased.used ▸ hd
  | keyChange => exact absurd rfl ho

theorem ctx_step (cfg : UpCfg) (k : Keyed) (o : UpOp) : (k.step cfg o).ctx = step cfg k.ctx o := by
  cases o <;> rfl

theorem IdInv.seen_step (hinv : IdInv cfg k) (hout : Outcome cfg k.ctx o (step cfg k.ctx o)) :
    ∀ d ∈ (k.step cfg o).seen, d ∈ (step cfg k.ctx o).usedDrbIds := by
  have hkeys : ∀ d ∈ keySet (step cfg k.ctx o).drbMap, d ∈ (step cfg k.ctx o).usedDrbIds := fun d hd =>
    (hout.linked hinv.linked).used d (by simpa using hd)
  have hgrow : o ≠ .keyChange → ∀ d ∈ k.seen ∪ keySet (step cfg k.ctx o).drbMap, d ∈ (step cfg k.ctx o).usedDrbIds := by
    intro ho d hd
    rcases Finset.mem_union.1 hd with hd | hd
    · exact hout.used ho d (hinv.seen d hd)
    · exact hkeys d hd
  cases o with
  | setup items old => exact hgrow (by simp)
  | modify items => exact hgrow (by simp)
  | release items => exact hgrow (by simp)
  | keyChange => exact hkeys

/-- the used IDs are in range, so there are at most 29 of them -/
theorem counted_of (h : Linked ctx) (hlimit : ctx.drbMap.size ≤ cfg.maxNofDrbsPerUe) : Counted cfg ctx := by
  have hdrbs : ctx.drbMap.size ≤ ctx.usedDrbIds.card := by
    rw [← card_keySet]
    exact Finset.card_le_card fun d hd => h.used d (by simpa using hd)
  have hsub : ctx.usedDrbIds ⊆ Finset.Icc 1 maxNofDrbs := fun d hd => Finset.mem_Icc.2 (h.range d hd)
  have hused : ctx.usedDrbIds.card ≤ maxNofDrbs := by
    calc ctx.usedDrbIds.card ≤ (Finset.Icc 1 maxNofDrbs).card := Finset.card_le_card hsub
      _ = maxNofDrbs := by simp
  have h29 : maxNofDrbs = 29 := rfl
  have hmax := cfg.maxNofDrbsPerUe_lt
  have hstale : getNofStaleDrbIds ctx = getNofUsedDrbIds ctx - getNofDrbs ctx := by
    simp only [getNofStaleDrbIds, getNofUsedDrbIds, getNofDrbs]
    omega
  have havailable : getNofAvailableDrbIds ctx = maxNofDrbs - getNofUsedDrbIds ctx := by
    simp only [getNofAvailableDrbIds, getNofUsedDrbIds]
    omega
  refine ⟨hdrbs, hused, hstale, havailable, hlimit, ?_, ?_⟩
  · simp only [nofDrbsNeeded, getNofDrbs]
    omega
  · simp only [keyRefreshUseful, Bool.and_eq_true, decide_eq_true_eq, hstale, havailable, getNofUsedDrbIds, getNofDrbs]
    omega

theorem IdInv.step (hinv : IdInv cfg k) (hp : IdsPermitted cfg k o) :
    IdsFulfilled cfg k o ∧ IdInv cfg (k.step cfg o) := by
  have hplan := fun hvalid => (hp hvalid).1
  obtain ⟨ctx', hok, hout⟩ := perform_of_planable hinv.linked hplan
  obtain rfl := step_of_ok hok
  have hlinked := hout.linked hinv.linked
  have hlimit := hout.limit hinv.linked hplan hinv.limit fun hvalid => (hp hvalid).2
  refine ⟨⟨fun update hu s d drb hadd => ?_, fun update hu => ?_, fun hvalid p hpref new update => ?_,
    counted_of hlinked hlimit⟩, ?_⟩
  · -- a plan avoids the used IDs, and with them those in use at or after the last key change
    obtain ⟨given, hmade⟩ := hout.made hu
    obtain ⟨⟨-, hactive, hused⟩, -⟩ := hmade.fresh s d drb hadd
    exact ⟨fun hseen => hused (hinv.seen d hseen), hactive⟩
  · obtain ⟨given, hmade⟩ := hout.made hu
    exact hmade.unique
  · by_cases hbelow : k.ctx.drbMap.size < cfg.maxNofDrbsPerUe
    · obtain ⟨r, hr, hcases⟩ :=
        allocateDrbId_spec new k.ctx update cfg.maxNofDrbsPerUe ((hplan hvalid).1 hbelow p hpref)
      refine ⟨r, hr, fun hinvalid => ?_⟩
      rcases hcases with ⟨-, hwhy⟩ | ⟨-, hrange, -⟩
      · exact hwhy
      · exact absurd hinvalid hrange.ne_invalid
    · exact ⟨drbIdInvalid, if_pos (not_lt.1 hbelow), fun _ => .inl (not_lt.1 hbelow)⟩
  · have hseen := hinv.seen_step hout
    rw [← ctx_step] at hlinked hlimit hseen
    exact ⟨hlinked, hseen, hlimit⟩

/-! ## Whole runs -/

/-- between two key changes no ID is used twice, when preferred IDs, released flows and numbers of DRBs are as
permitted -/
theorem drbIds_of_permitted (cfg : UpCfg) (ops : List UpOp)
    (h : Always (Keyed.step cfg) (IdsPermitted cfg) Keyed.init ops) :
    Always (Keyed.step cfg) (IdsFulfilled cfg) Keyed.init ops :=
  always_imp (I := IdInv cfg) (fun _ _ hinv hp => hinv.step hp) Keyed.init ops (idInv_init cfg) h

/-- flow 7 of session 1 was on DRB 5 of the source node -/
def sourceDrb5 : OldDrbAssociation := (∅ : OldDrbAssociation).insert 1 ((∅ : ExtTreeMap ℕ ℕ).insert 7 5)

theorem drbIds_of_permitted_preferred : Always (Keyed.step (smallCfg 3)) (IdsFulfilled (smallCfg 3)) Keyed.init
    [.setup (setupItemsOf [(1, [7, 8])]) sourceDrb5, .release ((∅ : ExtTreeMap ℕ Unit).insert 1 ()), .keyChange,
      .setup (setupItemsOf [(2, [7])]) ∅] :=
  drbIds_of_permitted _ _ (by decide +kernel)

/-- flow 7 of session 1 was on DRB 31 of the source node -/
def sourceDrb31 : OldDrbAssociation := (∅ : OldDrbAssociation).insert 1 ((∅ : ExtTreeMap ℕ ℕ).insert 7 31)

theorem drbIds_fail :
    ¬Always (Keyed.step (smallCfg 8)) (IdsFulfilled (smallCfg 8)) Keyed.init
      [.setup (setupItemsOf [(1, [7])]) sourceDrb31] ∧
    ¬Always (Keyed.step (smallCfg 1)) (IdsFulfilled (smallCfg 1)) Keyed.init
      [.setup (setupItemsOf [(1, [7, 8])]) ∅] := by
  constructor
  · rintro ⟨hful, -⟩
    obtain ⟨r, hr, -⟩ := hful.allocates (by decide +kernel) (some 31) (by decide +kernel) (.new 1) (.new true)
    have hfault : (allocateDrbId (.new 1) UpContext.init (.new true) (smallCfg 8).maxNofDrbsPerUe
        (some 31)).toOption.isSome = false := by decide +kernel
    rw [show allocateDrbId (.new 1) UpContext.init (.new true) (smallCfg 8).maxNofDrbsPerUe (some 31) = .ok r from hr]
      at hfault
    cases hfault
  · rintro ⟨hful, -⟩
    have hsize : (step (smallCfg 1) UpContext.init (.setup (setupItemsOf [(1, [7, 8])]) ∅)).drbMap.size = 2 := by
      decide +kernel
    have hlimit : (step (smallCfg 1) UpContext.init (.setup (setupItemsOf [(1, [7, 8])]) ∅)).drbMap.size ≤ 1 :=
      hful.counters.limit
    rw [hsize] at hlimit
    exact absurd hlimit (by decide)

end OcuduRan.CuCp.Up
