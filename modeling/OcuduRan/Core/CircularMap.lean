/-
A map from numbers to values kept in a fixed array of slots: a key lives in slot `key % cap`, so a slot holds at most
one key (include/ocudu/adt/circular_map.h, segmented_circular_map.h and the sdu_window wrappers over them).

The model is the list of occupied slots; that no two of its keys share a slot is a field. `overwrite` evicts whatever
occupies the slot of its key. Every operation is described by what `find?` returns afterwards and by the set of keys
`keys`, whose cardinality is the map's element counter.
-/
import Mathlib.Tactic

namespace OcuduRan

open List

/-- occupied slots of a circular map with `cap` slots -/
structure CircularMap (α : Type) where
  cap : ℕ
  elems : List (ℕ × α)
  /-- a slot holds at most one key -/
  slots : (elems.map fun e => e.1 % cap).Nodup

namespace CircularMap

variable {α : Type} {m : CircularMap α} {key : ℕ}

instance [DecidableEq α] : DecidableEq (CircularMap α) := fun m m' =>
  decidable_of_iff (m.cap = m'.cap ∧ m.elems = m'.elems)
    ⟨fun h => by cases m; cases m'; simp_all, fun h => by simp [h]⟩

instance [Repr α] : Repr (CircularMap α) := ⟨fun m k => reprPrec (m.cap, m.elems) k⟩

def empty (cap : ℕ) : CircularMap α := ⟨cap, [], nodup_nil⟩

variable (m) (key)

def find? : Option α := (m.elems.find? fun e => e.1 = key).map Prod.snd

def contains : Bool := (m.find? key).isSome

def size : ℕ := m.elems.length

def full : Bool := m.size = m.cap

/-- keys in the map -/
def keys : Finset ℕ := (m.elems.map Prod.fst).toFinset

def erase : CircularMap α where
  cap := m.cap
  elems := m.elems.filter fun e => e.1 ≠ key
  slots := m.slots.sublist (filter_sublist.map _)

/-- `overwrite`: whatever is in the slot of the key makes room for it -/
def overwrite (v : α) : CircularMap α where
  cap := m.cap
  elems := (key, v) :: m.elems.filter fun e => e.1 % m.cap ≠ key % m.cap
  slots := by
    refine nodup_cons.2 ⟨?_, m.slots.sublist (filter_sublist.map _)⟩
    simp only [mem_map, mem_filter, decide_eq_true_eq, not_exists, not_and]
    rintro e ⟨-, he⟩ h
    exact he h

/-- update in place of the value at a key -/
def modify (f : α → α) : CircularMap α where
  cap := m.cap
  elems := m.elems.map fun e => if e.1 = key then (e.1, f e.2) else e
  slots := by
    have : (m.elems.map fun e => if e.1 = key then (e.1, f e.2) else e).map (fun e => e.1 % m.cap) =
        m.elems.map fun e => e.1 % m.cap := by
      rw [map_map]
      refine map_congr_left fun e _ => ?_
      simp only [Function.comp_apply]
      split_ifs <;> rfl
    rw [this]
    exact m.slots

@[simp] theorem cap_empty (cap : ℕ) : (empty cap : CircularMap α).cap = cap := rfl

@[simp] theorem cap_erase : (m.erase key).cap = m.cap := rfl

@[simp] theorem cap_overwrite (v : α) : (m.overwrite key v).cap = m.cap := rfl

@[simp] theorem cap_modify (f : α → α) : (m.modify key f).cap = m.cap := rfl

variable {key}

/-! ## Lookup -/

@[simp] theorem find?_empty (cap key : ℕ) : (empty cap : CircularMap α).find? key = none := rfl

theorem find?_erase (key k : ℕ) :
    (m.erase key).find? k = if k = key then none else m.find? k := by
  unfold find? erase
  rw [find?_filter]
  split_ifs with h
  · rw [find?_eq_none.2]
    · rfl
    · intro e _
      simp [h]
  · congr 2
    funext e
    by_cases he : e.1 = k <;> simp [he, h]

theorem find?_overwrite (key k : ℕ) (v : α) : (m.overwrite key v).find? k =
    if k = key then some v else if k % m.cap = key % m.cap then none else m.find? k := by
  unfold find? overwrite
  by_cases h : k = key
  · simp [h]
  · rw [if_neg h, find?_cons_of_neg (by simpa using fun h' => h h'.symm), find?_filter]
    split_ifs with hs
    · rw [find?_eq_none.2]
      · rfl
      · intro e _
        by_cases he : e.1 = k <;> simp [he, hs]
    · congr 2
      funext e
      by_cases he : e.1 = k <;> simp [he, hs]

theorem find?_modify (key k : ℕ) (f : α → α) :
    (m.modify key f).find? k = if k = key then (m.find? key).map f else m.find? k := by
  unfold find? modify
  rw [find?_map]
  have hp : ((fun e : ℕ × α => decide (e.1 = k)) ∘ fun e => if e.1 = key then (e.1, f e.2) else e) =
      fun e : ℕ × α => decide (e.1 = k) := by
    funext e
    simp only [Function.comp_apply]
    split_ifs <;> rfl
  rw [hp]
  by_cases h : k = key
  · subst h
    rw [if_pos rfl]
    cases hf : m.elems.find? (fun e => decide (e.1 = k)) with
    | none => rfl
    | some e =>
      have he : e.1 = k := by simpa using find?_some hf
      simp [he]
  · rw [if_neg h]
    cases hf : m.elems.find? (fun e => decide (e.1 = k)) with
    | none => rfl
    | some e =>
      have he : e.1 = k := by simpa using find?_some hf
      simp [he, h]

theorem modify_id (key : ℕ) : (m.modify key fun v => v) = m := by
  cases m
  simp [modify]

variable {m}

/-- writing back what is there changes nothing -/
theorem modify_self {v : α} (h : m.find? key = some v) : m.modify key (fun _ => v) = m := by
  have helem : ∀ e ∈ m.elems, (if e.1 = key then (e.1, v) else e) = e := by
    intro e he
    split_ifs with hk
    · rw [find?, Option.map_eq_some_iff] at h
      obtain ⟨x, hx, rfl⟩ := h
      have hxk : x.1 = key := by simpa using find?_some hx
      -- two entries with one key are the same entry
      have hxe : x = e :=
        inj_on_of_nodup_map m.slots (mem_of_find?_eq_some hx) he (by rw [hxk, hk])
      rw [hxe]
    · rfl
  have hmap : (m.elems.map fun e => if e.1 = key then (e.1, v) else e) = m.elems :=
    (map_congr_left helem).trans (map_id' _)
  cases m
  simp only [modify, mk.injEq, true_and]
  exact hmap

/-! ## Keys and size -/

theorem mem_keys : key ∈ m.keys ↔ ∃ v, m.find? key = some v := by
  unfold keys find?
  rw [mem_toFinset, mem_map]
  constructor
  · rintro ⟨e, he, rfl⟩
    have hs : (m.elems.find? fun x => decide (x.1 = e.1)).isSome := find?_isSome.2 ⟨e, he, by simp⟩
    obtain ⟨x, hx⟩ := Option.isSome_iff_exists.1 hs
    exact ⟨x.2, by rw [hx]; rfl⟩
  · rintro ⟨v, hv⟩
    rw [Option.map_eq_some_iff] at hv
    obtain ⟨e, he, -⟩ := hv
    exact ⟨e, mem_of_find?_eq_some he, by simpa using find?_some he⟩

theorem contains_iff_mem_keys : m.contains key = true ↔ key ∈ m.keys := by
  rw [contains, Option.isSome_iff_exists, mem_keys]

theorem contains_eq_false_iff : m.contains key = false ↔ key ∉ m.keys := by
  rw [← contains_iff_mem_keys, Bool.not_eq_true]

theorem notMem_keys : key ∉ m.keys ↔ m.find? key = none := by
  rw [mem_keys, not_exists, Option.eq_none_iff_forall_ne_some]

variable (m)

/-- the element counter counts the keys -/
theorem size_eq_card : m.size = m.keys.card := by
  have hnd : (m.elems.map Prod.fst).Nodup := by
    have h : ((m.elems.map Prod.fst).map fun k => k % m.cap).Nodup := by
      rw [map_map]
      exact m.slots
    exact h.of_map
  rw [keys, toFinset_card_of_nodup hnd, length_map, size]

@[simp] theorem keys_empty (cap : ℕ) : (empty cap : CircularMap α).keys = ∅ := rfl

@[simp] theorem keys_erase (key : ℕ) : (m.erase key).keys = m.keys.erase key := by
  ext k
  rw [Finset.mem_erase, mem_keys, mem_keys, find?_erase]
  by_cases h : k = key <;> simp [h]

@[simp] theorem keys_modify (key : ℕ) (f : α → α) : (m.modify key f).keys = m.keys := by
  ext k
  rw [mem_keys, mem_keys, find?_modify]
  by_cases h : k = key
  · subst h
    simp [Option.map_eq_some_iff]
  · simp [h]

theorem size_modify (key : ℕ) (f : α → α) : (m.modify key f).size = m.size := by
  simp [size, modify]

variable {m}

end CircularMap

end OcuduRan
