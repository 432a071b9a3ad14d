/-
Keys of an ordered map as a finite set: its cardinality is the element counter of the map. Counting arguments
("every identifier is in use") go through `keySet`.
-/
import Mathlib

namespace OcuduRan.TreeMaps

open Std (ExtTreeMap TransCmp LawfulEqCmp)

variable {K V : Type} {cmp : K → K → Ordering} [TransCmp cmp]

theorem mem_iff_exists (m : ExtTreeMap K V cmp) (k : K) : k ∈ m ↔ ∃ v, m[k]? = some v := by
  rw [ExtTreeMap.mem_iff_isSome_getElem?, Option.isSome_iff_exists]

variable [LawfulEqCmp cmp]

theorem nodup_keys (m : ExtTreeMap K V cmp) : m.keys.Nodup := by
  have h := ExtTreeMap.distinct_keys (t := m)
  exact h.imp fun {a b} hab heq => hab (by simp [heq])

variable [DecidableEq K]

/-- keys of a map -/
def keySet (m : ExtTreeMap K V cmp) : Finset K := m.keys.toFinset

@[simp] theorem mem_keySet (m : ExtTreeMap K V cmp) (k : K) : k ∈ keySet m ↔ k ∈ m := by
  simp [keySet]

@[simp] theorem card_keySet (m : ExtTreeMap K V cmp) : (keySet m).card = m.size := by
  rw [keySet, List.toFinset_card_of_nodup (nodup_keys m), ExtTreeMap.length_keys]

/-- a map whose keys include a set has at least as many elements -/
theorem card_le_size {m : ExtTreeMap K V cmp} {S : Finset K} (h : ∀ k ∈ S, k ∈ m) : S.card ≤ m.size := by
  rw [← card_keySet]
  exact Finset.card_le_card fun k hk => (mem_keySet m k).2 (h k hk)

/-- a map with keys in a set and as many elements as the set has every member of it as a key -/
theorem mem_of_card_le_size {m : ExtTreeMap K V cmp} {S : Finset K} (hsub : ∀ k, k ∈ m → k ∈ S)
    (hcard : S.card ≤ m.size) {k : K} (hk : k ∈ S) : k ∈ m := by
  rw [← card_keySet] at hcard
  have hS : keySet m = S := Finset.eq_of_subset_of_card_le (fun k hk => hsub k ((mem_keySet m k).1 hk)) hcard
  exact (mem_keySet m k).1 (hS ▸ hk)

/-! ## Loops over a map -/

theorem find?_toList (m : ExtTreeMap K V cmp) (k : K) : (m.toList.find? fun e => e.1 = k).map Prod.snd = m[k]? := by
  cases hfind : m.toList.find? fun e => e.1 = k with
  | none =>
    rw [List.find?_eq_none] at hfind
    cases hk : m[k]? with
    | none => rfl
    | some v => exact absurd (decide_eq_true rfl) (hfind (k, v) (ExtTreeMap.mem_toList_iff_getElem?_eq_some.2 hk))
  | some e =>
    obtain ⟨hmem, hkey⟩ := And.intro (List.mem_of_find?_eq_some hfind) (List.find?_some hfind)
    have hget : m[e.1]? = some e.2 := ExtTreeMap.mem_toList_iff_getElem?_eq_some.1 hmem
    rw [← of_decide_eq_true hkey, hget]
    rfl

/-- entries added one by one where the key is new: the first one for a key counts -/
theorem getElem?_foldl_insertIfNew (l : List (K × V)) (m : ExtTreeMap K V cmp) (k : K) :
    (l.foldl (fun m e => m.insertIfNew e.1 e.2) m)[k]? = m[k]?.or ((l.find? fun e => e.1 = k).map Prod.snd) := by
  induction l generalizing m with
  | nil => simp
  | cons e l ih =>
    rw [List.foldl_cons, ih, ExtTreeMap.getElem?_insertIfNew, List.find?_cons]
    by_cases hek : e.1 = k
    · subst hek
      by_cases hmem : e.1 ∈ m <;> simp [hmem]
    · simp [hek]

/-- keys erased one by one -/
theorem getElem?_foldl_erase (l : List K) (m : ExtTreeMap K V cmp) (k : K) :
    (l.foldl (fun m k' => m.erase k') m)[k]? = if k ∈ l then none else m[k]? := by
  induction l generalizing m with
  | nil => simp
  | cons a l ih =>
    rw [List.foldl_cons, ih, ExtTreeMap.getElem?_erase]
    by_cases hak : a = k
    · subst hak
      simp
    · simp [hak, Ne.symm hak]

end OcuduRan.TreeMaps
