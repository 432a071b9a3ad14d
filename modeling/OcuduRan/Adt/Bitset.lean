/-
Bitsets (include/ocudu/adt/bounded_bitset.h and adt/detail/bitset_base.h) as the list of their bits.

Bit i of the list is information bit i, whichever end of a word it is stored at. An operation with an assertion returns
`none` where the assertion fails. `On b i` says that bit i exists and is set; every operation has one lemma that says
what it does to `On`, and the callers use those lemmas only.
-/
import Mathlib.Tactic

namespace OcuduRan.Bitset

open List

abbrev Bits := List Bool

/-- bit i is inside the bitset and set -/
def On (b : Bits) (i : ℕ) : Prop := b[i]? = some true

instance (b : Bits) (i : ℕ) : Decidable (On b i) := inferInstanceAs (Decidable (_ = _))

/-- `assert_range_bounds_` -/
def InRange (b : Bits) (startpos endpos : ℕ) : Prop := startpos ≤ endpos ∧ endpos ≤ b.length

instance (b : Bits) (s e : ℕ) : Decidable (InRange b s e) := inferInstanceAs (Decidable (_ ∧ _))

/-- a bitset of `size` zeros, refused above its capacity -/
def make (capacity size : ℕ) : Option Bits := if size ≤ capacity then some (replicate size false) else none

def fill (b : Bits) (startpos endpos : ℕ) (value : Bool) : Option Bits :=
  if InRange b startpos endpos then
    some (b.mapIdx fun i x => if startpos ≤ i ∧ i < endpos then value else x)
  else none

/-- the inner `none` is the -1 of the source: no bit of the range has the value -/
def findLowest (b : Bits) (startpos endpos : ℕ) (value : Bool) : Option (Option ℕ) :=
  if InRange b startpos endpos then
    some ((range' startpos (endpos - startpos)).find? fun i => b[i]? == some value)
  else none

def count (b : Bits) : ℕ := b.count true

variable {b b' : Bits} {s e i : ℕ} {v : Bool}

theorem On.lt (h : On b i) : i < b.length := by
  by_contra hge
  rw [On, getElem?_eq_none (not_lt.1 hge)] at h
  exact nomatch h

@[simp] theorem not_on_nil : ¬ On [] i := by simp [On]

@[simp] theorem not_on_replicate {n : ℕ} : ¬ On (replicate n false) i := by
  simp [On, getElem?_replicate]

/-- a fill changes exactly the bits of its range -/
theorem fill_spec (h : fill b s e v = some b') : InRange b s e ∧ b'.length = b.length ∧
      ∀ i, On b' i ↔ if s ≤ i ∧ i < e then v = true else On b i := by
  unfold fill at h
  split at h
  case isFalse => exact nomatch h
  case isTrue hr =>
    obtain rfl := Option.some.inj h
    refine ⟨hr, length_mapIdx, fun i => ?_⟩
    unfold On
    rw [getElem?_mapIdx]
    rcases Nat.lt_or_ge i b.length with hi | hi
    · rw [getElem?_eq_getElem hi]
      split_ifs <;> simp
    · rw [getElem?_eq_none hi, if_neg (by have := hr.2; omega)]
      simp

theorem fill_isSome (h : InRange b s e) : ∃ b', fill b s e v = some b' := ⟨_, if_pos h⟩

theorem fill_eq_none (h : ¬ InRange b s e) : fill b s e v = none := if_neg h

/-- the search finds nothing only if no bit of the range has the value -/
theorem findLowest_none (h : findLowest b s e true = some none) : ∀ j, s ≤ j → j < e → ¬ On b j := by
  unfold findLowest at h
  split at h
  case isFalse => exact nomatch h
  case isTrue hr =>
    intro j hs he hj
    have h' := find?_eq_none.1 (Option.some.inj h) j (mem_range'_1.2 ⟨hs, by omega⟩)
    exact h' (by rw [On] at hj; simp [hj])

/-- the search finds the lowest bit of the range that has the value -/
theorem findLowest_some (h : findLowest b s e true = some (some i)) :
    s ≤ i ∧ i < e ∧ On b i ∧ ∀ j, s ≤ j → j < i → ¬ On b j := by
  unfold findLowest at h
  split at h
  case isFalse => exact nomatch h
  case isTrue hr =>
    have hf := Option.some.inj h
    have hm := mem_range'_1.1 (mem_of_find?_eq_some hf)
    have hon : On b i := by simpa [On] using find?_some hf
    refine ⟨hm.1, by omega, hon, fun j hs hj hjon => ?_⟩
    -- a smaller index stands before i in the range that was searched
    rw [find?_range'_eq_some] at hf
    have hno := hf.2.2 j hs hj
    rw [On] at hjon
    simp [hjon] at hno

theorem findLowest_isSome (h : InRange b s e) : ∃ r, findLowest b s e v = some r := ⟨_, if_pos h⟩

/-- the number of set bits is the number of positions that are on -/
theorem count_eq_card : count b = ((Finset.range b.length).filter fun i => On b i).card := by
  unfold count
  induction b using reverseRecOn with
  | nil => simp
  | append_singleton b x ih =>
    rw [count_append, ih, length_append, length_singleton, Finset.range_add_one, Finset.filter_insert]
    have hsame : (Finset.range b.length).filter (fun i => On (b ++ [x]) i) =
        (Finset.range b.length).filter fun i => On b i := by
      apply Finset.filter_congr
      intro i hi
      unfold On
      rw [getElem?_append_left (Finset.mem_range.1 hi)]
    rw [hsame]
    cases x
    · rw [if_neg (by simp [On])]
      simp
    · rw [if_pos (by simp [On]), Finset.card_insert_of_notMem (by simp)]
      simp

/-! ### Single bits, visits and runs -/

/-- `set(pos, value)` -/
def put (b : Bits) (pos : ℕ) (value : Bool) : Option Bits :=
  if pos < b.length then some (b.set pos value) else none

/-- the positions `for_each` visits: the set bits of the range, in ascending order -/
def positions (b : Bits) (startpos endpos : ℕ) : List ℕ :=
  (range' startpos (endpos - startpos)).filter fun i => On b i

/-- each position of a list sets the bit it is sent to -/
def setEach (f : ℕ → Option ℕ) (b : Bits) (ps : List ℕ) : Option Bits :=
  ps.foldlM (fun b p => do put b (← f p) true) b

/-- one past the run of set bits that stands at `pos` -/
def runEnd (b : Bits) (pos : ℕ) : ℕ := pos + ((b.drop pos).takeWhile id).length

theorem put_spec (h : i < b.length) :
    ∃ b', put b i v = some b' ∧ b'.length = b.length ∧ ∀ j, On b' j ↔ if j = i then v = true else On b j := by
  refine ⟨b.set i v, if_pos h, length_set, fun j => ?_⟩
  unfold On
  rcases eq_or_ne j i with rfl | hne
  · rw [getElem?_set_self h, if_pos rfl]
    simp
  · rw [getElem?_set_ne hne.symm, if_neg hne]

@[simp] theorem mem_positions : i ∈ positions b s e ↔ s ≤ i ∧ i < e ∧ On b i := by
  unfold positions
  simp only [mem_filter, mem_range'_1, decide_eq_true_eq]
  constructor
  · rintro ⟨⟨hs, he⟩, hon⟩
    exact ⟨hs, by omega, hon⟩
  · rintro ⟨hs, he, hon⟩
    exact ⟨⟨hs, by omega⟩, hon⟩

/-- a visit that stays inside adds the image of what it visits -/
theorem setEach_spec (f : ℕ → Option ℕ) (ps : List ℕ) (h : ∀ p ∈ ps, ∃ q, f p = some q ∧ q < b.length) :
    ∃ b', setEach f b ps = some b' ∧ b'.length = b.length ∧ ∀ i, On b' i ↔ On b i ∨ ∃ p ∈ ps, f p = some i := by
  induction ps generalizing b with
  | nil => exact ⟨b, rfl, rfl, fun i => by simp⟩
  | cons p ps ih =>
    obtain ⟨q, hq, hlt⟩ := h p (mem_cons_self ..)
    obtain ⟨b₁, hput, hlen, hon⟩ := put_spec (v := true) hlt
    obtain ⟨b₂, hrest, hlen', hon'⟩ := ih (b := b₁) fun p' hp' => by
      rw [hlen]
      exact h p' (mem_cons_of_mem _ hp')
    refine ⟨b₂, ?_, hlen'.trans hlen, fun i => ?_⟩
    · unfold setEach at hrest ⊢
      rw [foldlM_cons, hq]
      simpa [hput] using hrest
    · rw [hon', hon]
      simp only [mem_cons, exists_eq_or_imp, hq, Option.some.injEq]
      split_ifs with hi
      · simp [hi]
      · simp [Ne.symm hi]

theorem on_add_iff_drop {k : ℕ} : On b (s + k) ↔ (b.drop s)[k]? = some true := by rw [On, getElem?_drop]

theorem le_runEnd (b : Bits) (s : ℕ) : s ≤ runEnd b s := Nat.le_add_right ..

theorem runEnd_le (h : s ≤ b.length) : runEnd b s ≤ b.length := by
  have hle := (takeWhile_sublist (p := id) (l := b.drop s)).length_le
  rw [length_drop] at hle
  unfold runEnd
  omega

theorem getElem?_of_lt_takeWhile {k : ℕ} (h : k < (b.takeWhile id).length) : b[k]? = some true := by
  induction b generalizing k with
  | nil => exact absurd h (by simp)
  | cons x b ih =>
    cases x with
    | false => exact absurd h (by simp)
    | true =>
      cases k with
      | zero => rfl
      | succ k => exact ih (by simpa using h)

theorem getElem?_length_takeWhile (b : Bits) : b[(b.takeWhile id).length]? ≠ some true := by
  induction b with
  | nil => simp
  | cons x b ih =>
    cases x with
    | false => simp
    | true => simpa using ih

/-- the run is made of set bits ... -/
theorem on_of_lt_runEnd (hs : s ≤ i) (hi : i < runEnd b s) : On b i := by
  obtain ⟨k, rfl⟩ := Nat.exists_eq_add_of_le hs
  unfold runEnd at hi
  rw [on_add_iff_drop]
  exact getElem?_of_lt_takeWhile (by omega)

/-- ... and ends where the bitset ends or a bit is clear -/
theorem not_on_runEnd : ¬ On b (runEnd b s) := by
  unfold runEnd
  rw [on_add_iff_drop]
  exact getElem?_length_takeWhile _

/-- a run that is entered at a set bit holds that bit too -/
theorem on_of_run (hs : On b s) (hsi : s ≤ i) (hi : i < runEnd b (s + 1)) : On b i := by
  rcases Nat.eq_or_lt_of_le hsi with rfl | hlt
  · exact hs
  · exact on_of_lt_runEnd hlt hi

/-- bits that are order-convex on either side of m have no third run -/
theorem two_runs {m s₁ s₂ p : ℕ} (hconv : ∀ x y z, x < y → y < z → (z < m ∨ m ≤ x) → On b x → On b z → On b y)
    (h₁ : findLowest b 0 b.length true = some (some s₁))
    (h₂ : findLowest b (runEnd b (s₁ + 1)) b.length true = some (some s₂)) (hp : On b p) :
    (s₁ ≤ p ∧ p < runEnd b (s₁ + 1)) ∨ (s₂ ≤ p ∧ p < runEnd b (s₂ + 1)) := by
  obtain ⟨-, -, hon₁, hlow₁⟩ := findLowest_some h₁
  obtain ⟨he₁, -, hon₂, hlow₂⟩ := findLowest_some h₂
  have hle₁ : s₁ ≤ p := by
    by_contra hlt
    exact hlow₁ p (Nat.zero_le _) (not_le.1 hlt) hp
  by_contra hcon
  obtain ⟨hout₁, hout₂⟩ := not_or.1 hcon
  have hp₁ : runEnd b (s₁ + 1) ≤ p := not_lt.1 fun h => hout₁ ⟨hle₁, h⟩
  have hle₂ : s₂ ≤ p := by
    by_contra hlt
    exact hlow₂ p hp₁ (not_le.1 hlt) hp
  -- s₁ < a clear bit < s₂ < a clear bit < p: two of the three set bits are on one side of m
  have hs₁ := le_runEnd b (s₁ + 1)
  have hs₂ := le_runEnd b (s₂ + 1)
  have hne₁ : runEnd b (s₁ + 1) ≠ s₂ := fun h => not_on_runEnd (h ▸ hon₂)
  have hne₂ : runEnd b (s₂ + 1) ≠ p := fun h => not_on_runEnd (h ▸ hp)
  rcases Nat.lt_or_ge s₂ m with hm | hm
  · exact not_on_runEnd (hconv s₁ (runEnd b (s₁ + 1)) s₂ (by omega) (by omega) (.inl hm) hon₁ hon₂)
  · exact not_on_runEnd (hconv s₂ (runEnd b (s₂ + 1)) p (by omega) (by omega) (.inr hm) hon₂ hp)

end OcuduRan.Bitset
