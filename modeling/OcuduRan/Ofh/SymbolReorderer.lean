/-
Reordering of received uplink symbols (lib/ofh/support/uplink_notified_grid_symbol_repository.h,
lib/ofh/receiver/ofh_rx_symbol_reorderer.cpp) under any interleaving of the calls that report them.

The entry of a slot is one atomic 32-bit word: the symbols reported so far (those before the start symbol count as
reported), the cyclic prefix, a bit for "slot used", and the validity flags. A call adds its symbol with one fetch-or
and decides from the value it got back which symbols it notifies; the call that completes the slot clears the entry.

The machine: every symbol of the slot is reported by one call of its own, and a step is the next atomic operation, or
the next notification, of one of the calls. An interleaving is the list of the symbols whose calls take the steps.

Results:
- `updateRxSymbol_spec`: what a call does depends only on which symbols have been reported before it: at the first
  missing symbol it takes over everything up to the next missing one, elsewhere nothing;
- `run_inv`: in every interleaving, what has been notified and what the calls still have to notify is together the
  symbols up to the first missing one, each once;
- `symbols_reordered`: every symbol is notified exactly once with its own flag, in increasing order when the calls are
  sequential, and between calls the entry is free exactly if the last symbol has been notified.
Witness:
- `symbols_reordered_interleaved`: symbols 12 and 13 with their calls in turns, 13 first.
-/
import Mathlib.Data.Nat.Bitwise
import OcuduRan.Core.Frontier
import OcuduRan.Core.Machine
import OcuduRan.Ofh.UplaneDecoder

namespace OcuduRan.Ofh.SymbolReorderer

open Frontier List Function Machine Nat

/-! ## Model -/

inductive CyclicPrefix where
  | normal
  | extended
deriving DecidableEq, Repr

/-- get_nsymb_per_slot -/
def nsymbPerSlot : CyclicPrefix → ℕ
  | .normal => 14
  | .extended => 12

def validSymbolBitmaskStartBit : ℕ := 16

def extendedCpBit : ℕ := 14

def usedSlotBit : ℕ := 15

def isSlotUsed (value : ℕ) : Bool := value &&& 2 ^ usedSlotBit ≠ 0

/-- the cyclic prefix bit of an entry -/
def cyclicPrefix (value : ℕ) : CyclicPrefix := if value &&& 2 ^ extendedCpBit ≠ 0 then .extended else .normal

def areAllSymbolsNotified (value : ℕ) : Bool :=
  value &&& (2 ^ nsymbPerSlot (cyclicPrefix value) - 1) = 2 ^ nsymbPerSlot (cyclicPrefix value) - 1

def isAnyPreviousSymbolMissed (value symbol : ℕ) : Bool := (range symbol).any fun i => !value.testBit i

/-- the symbol and the run of reported symbols behind it -/
def getNofSymbolsToNotify (value symbol : ℕ) : ℕ :=
  let nofSymbols := nsymbPerSlot (cyclicPrefix value)
  let value := value >>> symbol
  ((range' 1 (nofSymbols - symbol - 1)).find? fun i => !value.testBit i).getD (nofSymbols - symbol)

/-- what `add` is called with -/
structure SlotCfg where
  startSymbol : ℕ
  cp : CyclicPrefix
  start_lt : startSymbol < maxNsymbPerSlot
deriving DecidableEq, Repr

/-- the word that `add` stores -/
def add (cfg : SlotCfg) : ℕ :=
  2 ^ usedSlotBit ||| (if cfg.cp = .extended then 2 ^ extendedCpBit else 0) ||| (2 ^ cfg.startSymbol - 1)

/-- where the call for a symbol is -/
inductive Call where
  | idle
  /-- before the store that frees the entry; the number of symbols to notify and the word it has computed -/
  | clearing (nofSymbolsToNotify value : ℕ)
  /-- in the notification loop: next symbol, end of the loop, validity flags -/
  | notifying (i stop validSymbols : ℕ)
  | done
  | aborted
deriving DecidableEq, Repr

/-- the result of the call for `symbol`; the flags must fit in a bitset of the symbols of a slot -/
def results (symbol nofSymbolsToNotify value : ℕ) : Call :=
  if value >>> validSymbolBitmaskStartBit < 2 ^ maxNsymbPerSlot then
    .notifying symbol (symbol + nofSymbolsToNotify) (value >>> validSymbolBitmaskStartBit)
  else .aborted

def bitmask (symbol : ℕ) (isValid : Bool) : ℕ :=
  2 ^ symbol ||| (if isValid then 2 ^ (symbol + validSymbolBitmaskStartBit) else 0)

/-- `update_rx_symbol_and_compute_symbols_to_notify` up to the decision to clear the entry: the entry after the
fetch-or, and what the call makes of the value before it -/
def updateRxSymbol (entry symbol : ℕ) (isValid : Bool) : ℕ × Call :=
  let value := entry
  let entry := entry ||| bitmask symbol isValid
  if !isSlotUsed value then (entry, .done)
  else if isAnyPreviousSymbolMissed value symbol then (entry, .done)
  else
    let nofSymbolsToNotify := getNofSymbolsToNotify value symbol
    let value := value ||| bitmask symbol isValid
    if areAllSymbolsNotified value then (entry, .clearing nofSymbolsToNotify value)
    else (entry, results symbol nofSymbolsToNotify value)

structure State where
  /-- the atomic word of the slot -/
  entry : ℕ
  calls : ℕ → Call
  /-- the notifications to the upper layers: symbol and validity -/
  log : List (ℕ × Bool)

def init (cfg : SlotCfg) : State := ⟨add cfg, fun _ => .idle, []⟩

/-- the symbols that are reported -/
def Reported (cfg : SlotCfg) (x : ℕ) : Prop := cfg.startSymbol ≤ x ∧ x < nsymbPerSlot cfg.cp

instance (cfg : SlotCfg) (x : ℕ) : Decidable (Reported cfg x) := inferInstanceAs (Decidable (_ ∧ _))

/-- the next step of the call for symbol `x` -/
def step (cfg : SlotCfg) (valid : ℕ → Bool) (s : State) (x : ℕ) : State :=
  match s.calls x with
  | .idle =>
    if Reported cfg x then
      let (entry, call) := updateRxSymbol s.entry x (valid x)
      { s with entry, calls := update s.calls x call }
    else s
  | .clearing n value => { s with entry := 0, calls := update s.calls x (results x n value) }
  | .notifying i stop flags =>
    if i = stop then { s with calls := update s.calls x .done }
    else
      { s with
        log := s.log ++ [(i, flags.testBit i)]
        calls := update s.calls x (.notifying (i + 1) stop flags) }
  | .done => s
  | .aborted => s

/-- the most steps a call takes: fetch-or, store, a notification per symbol, leaving the loop -/
def maxSteps : ℕ := maxNsymbPerSlot + 3

variable {cfg : SlotCfg} {valid : ℕ → Bool} {arr : List ℕ} {value x : ℕ} {s : State}

theorem step_idle (hc : s.calls x = .idle) (hx : Reported cfg x) :
    step cfg valid s x = { s with
        entry := (updateRxSymbol s.entry x (valid x)).1
        calls := update s.calls x (updateRxSymbol s.entry x (valid x)).2 } := by
  simp [step, hc, hx]

theorem step_unreported (hc : s.calls x = .idle) (hx : ¬ Reported cfg x) : step cfg valid s x = s := by
  simp [step, hc, hx]

theorem step_clearing {n v : ℕ} (hc : s.calls x = .clearing n v) :
    step cfg valid s x = { s with entry := 0, calls := update s.calls x (results x n v) } := by
  simp [step, hc]

theorem step_stop {stop f : ℕ} (hc : s.calls x = .notifying stop stop f) :
    step cfg valid s x = { s with calls := update s.calls x .done } := by
  simp [step, hc]

theorem step_notify {i stop f : ℕ} (hc : s.calls x = .notifying i stop f) (hne : i ≠ stop) :
    step cfg valid s x = { s with
        log := s.log ++ [(i, f.testBit i)]
        calls := update s.calls x (.notifying (i + 1) stop f) } := by
  simp [step, hc, hne]

theorem step_done (hc : s.calls x = .done) : step cfg valid s x = s := by
  simp [step, hc]

/-! ## The word -/

/-- the number of reported symbols -/
def SlotCfg.count (cfg : SlotCfg) : ℕ := nsymbPerSlot cfg.cp - cfg.startSymbol

/-- the first missing symbol, after the arrivals `arr` -/
abbrev SlotCfg.next (cfg : SlotCfg) (arr : List ℕ) : ℕ := frontier cfg.startSymbol cfg.count arr

/-- the end of the reported symbols -/
abbrev SlotCfg.stop (cfg : SlotCfg) : ℕ := cfg.startSymbol + cfg.count

theorem nsymbPerSlot_le (cp : CyclicPrefix) : nsymbPerSlot cp ≤ 14 := by cases cp <;> decide

theorem reported_iff : Reported cfg x ↔ cfg.startSymbol ≤ x ∧ x < cfg.startSymbol + cfg.count := by
  unfold Reported SlotCfg.count
  omega

theorem Reported.lt (h : Reported cfg x) : x < 14 := lt_of_lt_of_le h.2 (nsymbPerSlot_le cfg.cp)

/-- the word of a slot in which the symbols `arr` have been reported -/
structure Encodes (cfg : SlotCfg) (valid : ℕ → Bool) (arr : List ℕ) (value : ℕ) : Prop where
  lt : value < 2 ^ 30
  used : value.testBit 15 = true
  cp : value.testBit 14 = decide (cfg.cp = .extended)
  symbols : ∀ i < 14, value.testBit i = decide (i < cfg.startSymbol ∨ i ∈ arr)
  flags : ∀ i < 14, value.testBit (i + 16) = (decide (i ∈ arr) && valid i)

theorem encodes_add (cfg : SlotCfg) (valid : ℕ → Bool) : Encodes cfg valid [] (add cfg) := by
  obtain ⟨start, cp, hstart⟩ := cfg
  unfold maxNsymbPerSlot at hstart
  have hpow : 2 ^ start - 1 < 2 ^ 30 :=
    lt_of_le_of_lt (Nat.sub_le _ _) (Nat.pow_lt_pow_right (by norm_num) (by omega))
  have hbit : ∀ i, (add ⟨start, cp, hstart⟩).testBit i =
      (decide (15 = i) || (decide (cp = .extended) && decide (14 = i)) || decide (i < start)) := by
    intro i
    unfold add usedSlotBit extendedCpBit
    rw [testBit_or, testBit_or, testBit_two_pow, testBit_two_pow_sub_one]
    rcases cp with - | -
    · simp
    · simp only [if_true, testBit_two_pow, decide_true, Bool.true_and]
  refine ⟨?_, by rw [hbit]; simp, ?_, fun i hi => ?_, fun i hi => ?_⟩
  · unfold add
    apply or_lt_two_pow _ hpow
    split_ifs <;> decide
  · rw [hbit]
    simp [show ¬ 14 < start by omega]
  · rw [hbit]
    simp [show ¬ 15 = i by omega, show ¬ 14 = i by omega]
  · rw [hbit]
    simp
    omega

section

variable (h : Encodes cfg valid arr value)
include h

theorem encodes_or (hx : x < 14) : Encodes cfg valid (x :: arr) (value ||| bitmask x (valid x)) := by
  have hbit : ∀ i, (value ||| bitmask x (valid x)).testBit i =
      (value.testBit i || decide (x = i) || (valid x && decide (x + 16 = i))) := by
    intro i
    unfold bitmask validSymbolBitmaskStartBit
    rw [testBit_or, testBit_or, testBit_two_pow, ← Bool.or_assoc]
    cases valid x <;> simp [testBit_two_pow]
  refine ⟨?_, ?_, ?_, fun i hi => ?_, fun i hi => ?_⟩
  · apply or_lt_two_pow h.lt
    apply Nat.or_lt_two_pow (Nat.pow_lt_pow_right (by norm_num) (by omega))
    split_ifs
    · exact Nat.pow_lt_pow_right (by norm_num) (by unfold validSymbolBitmaskStartBit; omega)
    · norm_num
  · rw [hbit, h.used]
    simp
  · rw [hbit, h.cp]
    simp [show ¬ x = 14 by omega]
  · rw [hbit, h.symbols i hi]
    simp only [mem_cons, show ¬ x + 16 = i by omega, decide_false, Bool.and_false, Bool.or_false]
    by_cases hxi : x = i
    · simp [hxi]
    · simp [hxi, Ne.symm hxi]
  · rw [hbit, h.flags i hi]
    simp only [mem_cons, show ¬ x = i + 16 by omega, decide_false, Bool.or_false, add_right_cancel_iff]
    by_cases hxi : x = i
    · subst hxi
      cases valid x <;> simp
    · simp [hxi, Ne.symm hxi]

theorem Encodes.isSlotUsed : isSlotUsed value = true := by
  unfold SymbolReorderer.isSlotUsed usedSlotBit
  rw [and_two_pow, h.used]
  decide

theorem Encodes.ne_zero : value ≠ 0 := by
  rintro rfl
  have := h.used
  simp at this

theorem Encodes.cyclicPrefix : cyclicPrefix value = cfg.cp := by
  unfold SymbolReorderer.cyclicPrefix extendedCpBit
  rw [and_two_pow, h.cp]
  cases cfg.cp <;> decide

/-- all symbols are notified exactly if every reported symbol has arrived -/
theorem Encodes.areAllSymbolsNotified : areAllSymbolsNotified value = true ↔ cfg.next arr = cfg.stop := by
  unfold SymbolReorderer.areAllSymbolsNotified
  rw [h.cyclicPrefix, decide_eq_true_iff, frontier_eq_stop_iff]
  have hall : value &&& (2 ^ nsymbPerSlot cfg.cp - 1) = 2 ^ nsymbPerSlot cfg.cp - 1 ↔
      ∀ i < nsymbPerSlot cfg.cp, value.testBit i = true := by
    constructor
    · intro heq i hi
      have hi' := congrArg (testBit · i) heq
      simpa [testBit_and, testBit_two_pow_sub_one, hi] using hi'
    · intro hbits
      apply eq_of_testBit_eq
      intro i
      rw [testBit_and, testBit_two_pow_sub_one]
      by_cases hi : i < nsymbPerSlot cfg.cp
      · simp [hi, hbits i hi]
      · simp [hi]
  have hn := nsymbPerSlot_le cfg.cp
  rw [hall]
  constructor
  · intro hbits i hi hlt
    have hrep : Reported cfg i := reported_iff.2 ⟨hi, hlt⟩
    have hb := hbits i hrep.2
    rw [h.symbols i hrep.lt, decide_eq_true_iff] at hb
    exact hb.resolve_left (by omega)
  · intro hmem i hi
    rw [h.symbols i (by omega), decide_eq_true_iff]
    by_cases hs : i < cfg.startSymbol
    · exact .inl hs
    · exact .inr (hmem i (by omega) (by unfold SlotCfg.count; omega))

/-- no symbol before `x` is missing exactly if `x` is the first missing symbol -/
theorem Encodes.isAnyPreviousSymbolMissed (hx : Reported cfg x) (hnew : x ∉ arr) :
    isAnyPreviousSymbolMissed value x = false ↔ x = cfg.next arr := by
  have hlt := hx.lt
  obtain ⟨hs, hstop⟩ := reported_iff.1 hx
  unfold SymbolReorderer.isAnyPreviousSymbolMissed
  rw [any_eq_false]
  simp only [mem_range, Bool.not_eq_true, Bool.not_eq_false']
  constructor
  · intro hbits
    refine (frontier_eq hs hstop.le (fun i hi hix => ?_) fun _ => hnew).symm
    have hb := hbits i hix
    rw [h.symbols i (by omega), decide_eq_true_iff] at hb
    exact hb.resolve_left (by omega)
  · intro heq i hi
    rw [h.symbols i (by omega), decide_eq_true_iff]
    by_cases hstart : i < cfg.startSymbol
    · exact .inl hstart
    · exact .inr (mem_of_lt_frontier (by omega) (heq ▸ hi))

/-- the call at the first missing symbol notifies up to the next missing one -/
theorem Encodes.getNofSymbolsToNotify (hx : Reported cfg x)
    (hfirst : x = cfg.next arr) : x + getNofSymbolsToNotify value x = cfg.next (x :: arr) := by
  have hn := nsymbPerSlot_le cfg.cp
  obtain ⟨hs, hstop⟩ := reported_iff.1 hx
  have hsymb : nsymbPerSlot cfg.cp = cfg.startSymbol + cfg.count := by unfold SlotCfg.count; have := hx.2; omega
  have hbit : ∀ i, x + i < nsymbPerSlot cfg.cp → ((value >>> x).testBit i = true ↔ x + i ∈ arr) := by
    intro i hi
    rw [testBit_shiftRight, h.symbols _ (by omega), decide_eq_true_iff, or_iff_right (by omega)]
  have hbefore : ∀ i, cfg.startSymbol ≤ i → i ≤ x → i ∈ x :: arr := by
    intro i hi hix
    rcases eq_or_lt_of_le hix with rfl | hlt
    · simp
    · exact mem_cons_of_mem _ (mem_of_lt_frontier hi (hfirst ▸ hlt))
  unfold SymbolReorderer.getNofSymbolsToNotify
  rw [h.cyclicPrefix]
  dsimp only
  symm
  cases hf : (range' 1 (nsymbPerSlot cfg.cp - x - 1)).find? fun i => !(value >>> x).testBit i with
  | none =>
    rw [find?_eq_none] at hf
    rw [Option.getD_none]
    refine frontier_eq (by omega) (by omega) (fun i hi hlt => ?_) (by omega)
    rcases lt_or_ge x i with hxi | hxi
    · have hb := hf (i - x) (mem_range'_1.2 ⟨by omega, by omega⟩)
      rw [Bool.not_eq_true, Bool.not_eq_false', hbit (i - x) (by omega), show x + (i - x) = i by omega] at hb
      exact mem_cons_of_mem _ hb
    · exact hbefore i hi hxi
  | some m =>
    have hmem := mem_range'_1.1 (mem_of_find?_eq_some hf)
    have hout := find?_some hf
    rw [find?_range'_eq_some] at hf
    rw [Option.getD_some]
    refine frontier_eq (by omega) (by omega) (fun i hi hlt => ?_) fun _ hin => ?_
    · rcases lt_or_ge x i with hxi | hxi
      · have hb := hf.2.2 (i - x) (by omega) (by omega)
        rw [Bool.not_not, hbit (i - x) (by omega), show x + (i - x) = i by omega] at hb
        exact mem_cons_of_mem _ hb
      · exact hbefore i hi hxi
    · rcases mem_cons.1 hin with heq | hin
      · omega
      · rw [(hbit m (by omega)).2 hin] at hout
        exact nomatch hout

theorem Encodes.results (x n : ℕ) : results x n value = .notifying x (x + n) (value >>> 16) := by
  unfold SymbolReorderer.results validSymbolBitmaskStartBit maxNsymbPerSlot
  rw [if_pos]
  have := h.lt
  rw [shiftRight_eq_div_pow]
  omega

/-- the flags that a call reads are those of the symbols reported so far -/
theorem Encodes.testBit_flags {i : ℕ} (hi : i < 14) (hmem : i ∈ arr) : (value >>> 16).testBit i = valid i := by
  rw [testBit_shiftRight, add_comm, h.flags i hi]
  simp [hmem]

end

/-! ## One call -/

/-- the symbols that a call still has to notify -/
def remaining (x : ℕ) : Call → List ℕ
  | .clearing n _ => range' x n
  | .notifying i stop _ => range' i (stop - i)
  | _ => []

theorem next_le_stop (cfg : SlotCfg) (arr : List ℕ) : cfg.next arr ≤ cfg.stop := frontier_le _ _ _

theorem Reported.lt_stop (h : Reported cfg x) : x < cfg.stop := (reported_iff.1 h).2

/-- a symbol that is still to be reported leaves the slot incomplete -/
theorem next_lt_stop (hx : Reported cfg x) (hnew : x ∉ arr) : cfg.next arr < cfg.stop := by
  apply lt_of_le_of_ne (next_le_stop cfg arr)
  intro heq
  obtain ⟨hs, hstop⟩ := reported_iff.1 hx
  exact hnew (frontier_eq_stop_iff.1 heq x hs hstop)

/-- what a call makes of the word it finds -/
theorem updateRxSymbol_spec (h : Encodes cfg valid arr value) (hx : Reported cfg x) (hnew : x ∉ arr) :
    ∃ call, updateRxSymbol value x (valid x) = (value ||| bitmask x (valid x), call) ∧
      ((x ≠ cfg.next arr ∧ call = .done) ∨ (x = cfg.next arr ∧ cfg.next (x :: arr) = cfg.stop ∧
          call = .clearing (cfg.stop - x) (value ||| bitmask x (valid x))) ∨
        (x = cfg.next arr ∧ cfg.next (x :: arr) < cfg.stop ∧
          call = .notifying x (cfg.next (x :: arr)) ((value ||| bitmask x (valid x)) >>> 16))) := by
  have h' := encodes_or h hx.lt
  unfold updateRxSymbol
  dsimp only
  rw [h.isSlotUsed, if_neg (by simp)]
  by_cases hfirst : x = cfg.next arr
  · have hcount := h.getNofSymbolsToNotify hx hfirst
    rw [(h.isAnyPreviousSymbolMissed hx hnew).2 hfirst, if_neg (by simp)]
    by_cases hall : cfg.next (x :: arr) = cfg.stop
    · rw [if_pos (h'.areAllSymbolsNotified.2 hall)]
      refine ⟨_, rfl, .inr (.inl ⟨hfirst, hall, ?_⟩)⟩
      rw [← hall, ← hcount, Nat.add_sub_cancel_left]
    · rw [if_neg (fun hc => hall (h'.areAllSymbolsNotified.1 hc)), h'.results, hcount]
      exact ⟨_, rfl, .inr (.inr ⟨hfirst, lt_of_le_of_ne (next_le_stop cfg _) hall, rfl⟩)⟩
  · have hmissed : isAnyPreviousSymbolMissed value x = true := by
      rw [← Bool.not_eq_false]
      exact fun hc => hfirst ((h.isAnyPreviousSymbolMissed hx hnew).1 hc)
    rw [if_pos hmissed]
    exact ⟨_, rfl, .inl ⟨hfirst, rfl⟩⟩

/-- a call takes over exactly the symbols that its arrival releases -/
theorem remaining_updateRxSymbol (h : Encodes cfg valid arr value) (hx : Reported cfg x) (hnew : x ∉ arr) :
    remaining x (updateRxSymbol value x (valid x)).2 = released cfg.startSymbol cfg.count x arr := by
  obtain ⟨call, heq, ⟨hne, rfl⟩ | ⟨hfirst, hall, rfl⟩ | ⟨hfirst, -, rfl⟩⟩ := updateRxSymbol_spec h hx hnew
  · rw [heq, released_of_ne hne]
    rfl
  · rw [heq]
    show range' x (cfg.stop - x) = range' (cfg.next arr) (cfg.next (x :: arr) - cfg.next arr)
    rw [hall, ← hfirst]
  · rw [heq]
    show range' x (cfg.next (x :: arr) - x) = range' (cfg.next arr) (cfg.next (x :: arr) - cfg.next arr)
    rw [← hfirst]

/-! ## Every interleaving -/

/-- a call that has still to free the entry -/
def Call.Clears : Call → Prop
  | .clearing _ _ => True
  | _ => False

/-- what is true of the call for symbol `x` after the arrivals `arr`, the latest one first -/
def Call.Ok (cfg : SlotCfg) (valid : ℕ → Bool) (arr : List ℕ) (x : ℕ) : Call → Prop
  | .idle => x ∉ arr
  | .clearing n v =>
    Encodes cfg valid arr v ∧ arr.head? = some x ∧ cfg.next arr = cfg.stop ∧ x + n = cfg.stop ∧ x < cfg.stop
  | .notifying i stop f => x ∈ arr ∧ i ≤ stop ∧ ∀ j, i ≤ j → j < stop → f.testBit j = valid j
  | .done => x ∈ arr
  | .aborted => False

structure Inv (cfg : SlotCfg) (valid : ℕ → Bool) (arr : List ℕ) (s : State) : Prop where
  nodup : arr.Nodup
  reported : ∀ x ∈ arr, Reported cfg x
  calls : ∀ x, (s.calls x).Ok cfg valid arr x
  word : s.entry ≠ 0 → Encodes cfg valid arr s.entry
  freed : s.entry = 0 ↔ 0 < cfg.count ∧ cfg.next arr = cfg.stop ∧ ∀ x, ¬ (s.calls x).Clears
  log : ∀ e ∈ s.log, e.2 = valid e.1
  perm : (s.log.map Prod.fst ++ arr.flatMap fun x => remaining x (s.calls x)).Perm
    (range' cfg.startSymbol (cfg.next arr - cfg.startSymbol))

theorem inv_init (cfg : SlotCfg) (valid : ℕ → Bool) : Inv cfg valid [] (init cfg) where
  nodup := nodup_nil
  reported := by simp
  calls := by simp [init, Call.Ok]
  word := fun _ => encodes_add cfg valid
  freed := by
    have hne : (init cfg).entry ≠ 0 := (encodes_add cfg valid).ne_zero
    have hnext : cfg.next [] = cfg.startSymbol := frontier_nil _ _
    refine ⟨fun h => absurd h hne, fun ⟨hpos, hstop, _⟩ => ?_⟩
    rw [hnext] at hstop
    exact absurd (Nat.lt_add_of_pos_right hpos) hstop.not_lt
  log := by simp [init]
  perm := by simp [init]

/-- a change of one call, in what the calls still have to notify -/
theorem remaining_update_perm {calls : ℕ → Call} (hnodup : arr.Nodup) (hx : x ∈ arr) (c : Call) :
    (arr.flatMap fun y => remaining y (update calls x c y)).Perm
      (remaining x c ++ (arr.erase x).flatMap fun y => remaining y (calls y)) := by
  have hrest : ((arr.erase x).flatMap fun y => remaining y (update calls x c y)) =
      (arr.erase x).flatMap fun y => remaining y (calls y) := by
    apply flatMap_congr
    intro y hy
    rw [update_of_ne]
    rintro rfl
    exact absurd hy (hnodup.not_mem_erase)
  have h := (perm_cons_erase hx).flatMap_right fun y => remaining y (update calls x c y)
  rw [flatMap_cons, hrest, update_self] at h
  exact h

/-- the same without a change -/
theorem remaining_perm {calls : ℕ → Call} (hnodup : arr.Nodup) (hx : x ∈ arr) :
    (arr.flatMap fun y => remaining y (calls y)).Perm
      (remaining x (calls x) ++ (arr.erase x).flatMap fun y => remaining y (calls y)) := by
  have h : (arr.flatMap fun y => remaining y (update calls x (calls x) y)).Perm _ :=
    remaining_update_perm hnodup hx (calls x)
  rwa [update_eq_self] at h

section Steps

variable (h : Inv cfg valid arr s)
include h

theorem Inv.ok {call : Call} (hc : s.calls x = call) : call.Ok cfg valid arr x := hc ▸ h.calls x

theorem Inv.mem_of_not_idle (hcall : s.calls x ≠ .idle) : x ∈ arr := by
  cases hc : s.calls x with
  | idle => exact absurd hc hcall
  | clearing n v => exact mem_of_mem_head? (h.ok hc).2.1
  | notifying i stop f => exact (h.ok hc).1
  | done => exact h.ok hc
  | aborted => exact (h.ok hc).elim

/-- a step of a call that has arrived, which leaves the entry or frees it -/
theorem Inv.update (hx : x ∈ arr) {call : Call} {log : List (ℕ × Bool)} {entry : ℕ} (hok : call.Ok cfg valid arr x)
    (hword : entry ≠ 0 → entry = s.entry) (hfreed : entry = 0 ↔ 0 < cfg.count ∧ cfg.next arr = cfg.stop ∧
      ¬ call.Clears ∧ ∀ y, y ≠ x → ¬ (s.calls y).Clears) (hlog : ∀ e ∈ log, e.2 = valid e.1)
    (hperm : (log.map Prod.fst ++ remaining x call).Perm (s.log.map Prod.fst ++ remaining x (s.calls x))) :
    Inv cfg valid arr ⟨entry, update s.calls x call, log⟩ where
  nodup := h.nodup
  reported := h.reported
  calls := (forall_update_iff s.calls fun y c => c.Ok cfg valid arr y).2 ⟨hok, fun y _ => h.calls y⟩
  word := fun hne => by
    have heq := hword hne
    rw [heq] at hne ⊢
    exact h.word hne
  freed := by
    rw [hfreed, forall_update_iff s.calls fun _ c => ¬ c.Clears]
  log := hlog
  perm := by
    refine List.Perm.trans ?_ h.perm
    refine (List.Perm.append_left _ (remaining_update_perm h.nodup hx call)).trans ?_
    rw [← append_assoc]
    refine (List.Perm.append_right _ hperm).trans ?_
    rw [append_assoc]
    exact List.Perm.append_left _ (remaining_perm h.nodup hx).symm

/-- the fetch-or of a call -/
theorem inv_report (hidle : s.calls x = .idle) (hx : Reported cfg x) :
    Inv cfg valid (x :: arr) { s with
        entry := (updateRxSymbol s.entry x (valid x)).1
        calls := update s.calls x (updateRxSymbol s.entry x (valid x)).2 } := by
  have hnew : x ∉ arr := h.ok hidle
  have hlt := next_lt_stop hx hnew
  have henc : Encodes cfg valid arr s.entry := h.word fun hzero => hlt.ne (h.freed.1 hzero).2.1
  have henc' := encodes_or henc hx.lt
  have hrem := remaining_updateRxSymbol henc hx hnew
  obtain ⟨call, heq, hcases⟩ := updateRxSymbol_spec henc hx hnew
  rw [heq] at hrem ⊢
  dsimp only at hrem ⊢
  exact
    { nodup := nodup_cons.2 ⟨hnew, h.nodup⟩
      reported := by
        intro y hy
        rcases mem_cons.1 hy with rfl | hy
        · exact hx
        · exact h.reported y hy
      calls := by
        refine (forall_update_iff s.calls fun y c => c.Ok cfg valid (x :: arr) y).2 ⟨?_, fun y hyx => ?_⟩
        · rcases hcases with ⟨-, rfl⟩ | ⟨-, hall, rfl⟩ | ⟨hfirst, -, rfl⟩
          · exact mem_cons_self
          · exact ⟨henc', rfl, hall, by have := hx.lt_stop; omega, hx.lt_stop⟩
          · refine ⟨mem_cons_self, ?_, fun j hj hlt' => ?_⟩
            · rw [hfirst]
              exact frontier_le_cons _ _ _ _
            · have hstop := next_le_stop cfg (x :: arr)
              have hrep : Reported cfg j := reported_iff.2 ⟨(reported_iff.1 hx).1.trans hj, lt_of_lt_of_le hlt' hstop⟩
              exact henc'.testBit_flags hrep.lt (mem_of_lt_frontier hrep.1 hlt')
        · cases hc : s.calls y with
          | idle => simpa [Call.Ok, hyx] using h.ok hc
          | clearing n v => exact absurd (h.ok hc).2.2.1 hlt.ne
          | notifying i stop f => exact ⟨mem_cons_of_mem _ (h.ok hc).1, (h.ok hc).2⟩
          | done => exact mem_cons_of_mem _ (h.ok hc)
          | aborted => exact h.ok hc
      word := fun _ => henc'
      freed := by
        refine ⟨fun hzero => absurd hzero henc'.ne_zero, fun ⟨_, hstop, hclears⟩ => ?_⟩
        rcases hcases with ⟨hne, -⟩ | ⟨-, -, rfl⟩ | ⟨-, hless, -⟩
        · have hsame : cfg.next (x :: arr) = cfg.next arr := frontier_cons_of_ne hne
          omega
        · have hx' := hclears x
          dsimp only at hx'
          rw [update_self] at hx'
          exact absurd trivial hx'
        · omega
      log := h.log
      perm := by
        have hrest : (arr.flatMap fun y => remaining y (update s.calls x call y)) =
            arr.flatMap fun y => remaining y (s.calls y) := by
          apply flatMap_congr
          intro y hy
          rw [update_of_ne]
          rintro rfl
          exact hnew hy
        dsimp only
        rw [flatMap_cons, update_self, hrem, hrest, SlotCfg.next, ← range'_append_released]
        refine List.Perm.trans ?_ (List.Perm.append_right _ h.perm)
        rw [append_assoc]
        exact List.Perm.append_left _ perm_append_comm }

/-- the store of the call that completes the slot -/
theorem inv_clear {n v : ℕ} (hcall : s.calls x = .clearing n v) :
    Inv cfg valid arr { s with entry := 0, calls := update s.calls x (results x n v) } := by
  obtain ⟨henc, hhead, hall, hn, hx⟩ := h.ok hcall
  have hmem : x ∈ arr := mem_of_mem_head? hhead
  rw [henc.results]
  refine h.update hmem ?_ (fun hne => absurd rfl hne) ?_ h.log ?_
  · refine ⟨hmem, le_add_right _ _, fun j hj hlt => ?_⟩
    rw [hn] at hlt
    have hrep : Reported cfg j := reported_iff.2 ⟨(h.reported x hmem).1.trans hj, hlt⟩
    exact henc.testBit_flags hrep.lt (frontier_eq_stop_iff.1 hall j hrep.1 hlt)
  · refine ⟨fun _ => ⟨?_, hall, by simp [Call.Clears], fun y hyx hclears => ?_⟩, fun _ => rfl⟩
    · have hrep := reported_iff.1 (h.reported x hmem)
      omega
    · -- the latest arrival is the only one that can be at the store
      cases hc : s.calls y with
      | clearing n' v' => exact hyx (Option.some.inj ((h.ok hc).2.1.symm.trans hhead))
      | _ => rw [hc] at hclears; exact hclears
  · rw [hcall]
    simp [remaining]

/-- a step that frees nothing leaves the condition for a free entry -/
theorem Inv.freed_update {call : Call} (hx : ¬ (s.calls x).Clears) (hc : ¬ call.Clears) :
    s.entry = 0 ↔ 0 < cfg.count ∧ cfg.next arr = cfg.stop ∧ ¬ call.Clears ∧ ∀ y, y ≠ x → ¬ (s.calls y).Clears := by
  rw [h.freed]
  constructor
  · rintro ⟨hpos, hstop, hno⟩
    exact ⟨hpos, hstop, hc, fun y _ => hno y⟩
  · rintro ⟨hpos, hstop, -, hno⟩
    refine ⟨hpos, hstop, fun y => ?_⟩
    by_cases hyx : y = x
    · exact hyx ▸ hx
    · exact hno y hyx

/-- the end of the notification loop -/
theorem inv_done {stop f : ℕ} (hcall : s.calls x = .notifying stop stop f) :
    Inv cfg valid arr { s with calls := update s.calls x .done } := by
  have hok := h.ok hcall
  refine h.update hok.1 hok.1 (fun _ => rfl) (h.freed_update ?_ ?_) h.log ?_
  · simp [hcall, Call.Clears]
  · simp [Call.Clears]
  · simp [hcall, remaining]

/-- one notification -/
theorem inv_notify {i stop f : ℕ} (hcall : s.calls x = .notifying i stop f) (hne : i ≠ stop) :
    Inv cfg valid arr { s with
        log := s.log ++ [(i, f.testBit i)]
        calls := update s.calls x (.notifying (i + 1) stop f) } := by
  obtain ⟨hmem, hle, hflags⟩ := h.ok hcall
  have hrange : range' i (stop - i) = i :: range' (i + 1) (stop - (i + 1)) := by
    rw [show stop - i = stop - (i + 1) + 1 by omega, range'_succ]
  refine h.update hmem ⟨hmem, by omega, fun j hj => hflags j (by omega)⟩ (fun _ => rfl) (h.freed_update ?_ ?_) ?_ ?_
  · simp [hcall, Call.Clears]
  · simp [Call.Clears]
  · intro e he
    rcases mem_append.1 he with he | he
    · exact h.log e he
    · obtain rfl := mem_singleton.1 he
      exact hflags i le_rfl (by omega)
  · simp [hcall, remaining, hrange]

end Steps

/-- the arrivals after a step of the call for `x` -/
def arrive (cfg : SlotCfg) (s : State) (x : ℕ) (arr : List ℕ) : List ℕ :=
  if s.calls x = .idle ∧ Reported cfg x then x :: arr else arr

/-- every step keeps the invariant -/
theorem step_inv (h : Inv cfg valid arr s) (x : ℕ) : Inv cfg valid (arrive cfg s x arr) (step cfg valid s x) := by
  unfold arrive
  cases hc : s.calls x with
  | idle =>
    by_cases hx : Reported cfg x
    · rw [if_pos ⟨rfl, hx⟩, step_idle hc hx]
      exact inv_report h hc hx
    · rw [if_neg fun hcx => hx hcx.2, step_unreported hc hx]
      exact h
  | clearing n v =>
    rw [if_neg (by simp), step_clearing hc]
    exact inv_clear h hc
  | notifying i stop f =>
    rw [if_neg (by simp)]
    by_cases hi : i = stop
    · subst hi
      rw [step_stop hc]
      exact inv_done h hc
    · rw [step_notify hc hi]
      exact inv_notify h hc hi
  | done =>
    rw [if_neg (by simp), step_done hc]
    exact h
  | aborted => exact (h.ok hc).elim

theorem run_inv (cfg : SlotCfg) (valid : ℕ → Bool) (ops : List ℕ) :
    ∃ arr, Inv cfg valid arr (run (step cfg valid) (init cfg) ops) :=
  run_inv_all (I := fun s => ∃ arr, Inv cfg valid arr s) (fun _ x ⟨_, h⟩ => ⟨_, step_inv h x⟩) _ ops
    ⟨[], inv_init cfg valid⟩

/-! ## Calls come to an end -/

/-- a bound for the steps that a call has left -/
def Call.left : Call → ℕ
  | .idle => maxSteps
  | .clearing n _ => n + 2
  | .notifying i stop _ => stop - i + 1
  | .done => 0
  | .aborted => 0

theorem left_results_le (x n v : ℕ) : (results x n v).left ≤ n + 1 := by
  unfold results
  split_ifs
  · simp [Call.left]
  · simp [Call.left]

theorem getNofSymbolsToNotify_le (value x : ℕ) : getNofSymbolsToNotify value x ≤ maxNsymbPerSlot := by
  have hn := nsymbPerSlot_le (cyclicPrefix value)
  unfold getNofSymbolsToNotify maxNsymbPerSlot
  dsimp only
  cases hf : (range' 1 (nsymbPerSlot (cyclicPrefix value) - x - 1)).find? fun i => !(value >>> x).testBit i with
  | none =>
    rw [Option.getD_none]
    omega
  | some m =>
    have hmem := mem_range'_1.1 (mem_of_find?_eq_some hf)
    rw [Option.getD_some]
    omega

theorem left_updateRxSymbol_lt (entry x : ℕ) (isValid : Bool) : (updateRxSymbol entry x isValid).2.left < maxSteps := by
  have hn := getNofSymbolsToNotify_le entry x
  have hres := left_results_le x (getNofSymbolsToNotify entry x) (entry ||| bitmask x isValid)
  unfold updateRxSymbol maxSteps at *
  dsimp only
  split_ifs
  · simp [Call.left]
  · simp [Call.left]
  · simp only [Call.left]
    omega
  · dsimp only
    omega

/-- a step of a call brings it closer to its end -/
theorem left_step (h : Inv cfg valid arr s) (hx : Reported cfg x) :
    ((step cfg valid s x).calls x).left ≤ (s.calls x).left - 1 := by
  cases hc : s.calls x with
  | idle =>
    have hlt := left_updateRxSymbol_lt s.entry x (valid x)
    rw [step_idle hc hx]
    dsimp only
    rw [update_self, Call.left]
    omega
  | clearing n v =>
    have hle := left_results_le x n v
    rw [step_clearing hc]
    dsimp only
    rw [update_self, Call.left]
    omega
  | notifying i stop f =>
    have hle := (h.ok hc).2.1
    by_cases hi : i = stop
    · subst hi
      rw [step_stop hc]
      simp [Call.left]
    · rw [step_notify hc hi]
      simp only [update_self, Call.left]
      omega
  | done =>
    rw [step_done hc, hc]
    exact zero_le _
  | aborted => exact (h.ok hc).elim

/-- a call is not moved by the steps of the others -/
theorem step_other {y : ℕ} (hne : y ≠ x) : (step cfg valid s y).calls x = s.calls x := by
  unfold step
  cases s.calls y with
  | idle =>
    split_ifs
    · exact update_of_ne hne.symm _ _
    · rfl
  | clearing n v => exact update_of_ne hne.symm _ _
  | notifying i stop f =>
    dsimp only
    split_ifs
    · exact update_of_ne hne.symm _ _
    · exact update_of_ne hne.symm _ _
  | done => rfl
  | aborted => rfl

theorem left_run (h : Inv cfg valid arr s) (hx : Reported cfg x) (ops : List ℕ) :
    ((run (step cfg valid) s ops).calls x).left ≤ (s.calls x).left - ops.count x := by
  induction ops generalizing s arr with
  | nil => simp
  | cons y ops ih =>
    rw [run_cons]
    refine (ih (step_inv h y)).trans ?_
    by_cases hyx : y = x
    · subst hyx
      have hstep := left_step h hx
      rw [count_cons_self]
      omega
    · rw [step_other hyx, count_cons_of_ne hyx]

/-- a call with enough steps has ended -/
theorem done_of_left {call : Call} (hok : call.Ok cfg valid arr x) (hleft : call.left = 0) : call = .done := by
  cases call with
  | idle => exact absurd hleft (by decide)
  | clearing n v => simp [Call.left] at hleft
  | notifying i stop f => simp [Call.left] at hleft
  | done => rfl
  | aborted => exact hok.elim

/-! ## Results -/

/-- no call is under way -/
def Quiet (s : State) : Prop := ∀ x, s.calls x = .idle ∨ s.calls x = .done

theorem remaining_of_quiet (hq : Quiet s) (arr : List ℕ) : (arr.flatMap fun x => remaining x (s.calls x)) = [] := by
  rw [flatMap_eq_nil_iff]
  intro x _
  rcases hq x with hx | hx
  · rw [hx]
    rfl
  · rw [hx]
    rfl

theorem not_clears (hq : Quiet s) (x : ℕ) : ¬ (s.calls x).Clears := by
  rcases hq x with hx | hx
  · rw [hx]
    exact id
  · rw [hx]
    exact id

section Notified

variable (h : Inv cfg valid arr s)
include h

theorem Inv.nodup_log : (s.log.map Prod.fst).Nodup :=
  List.Nodup.of_append_left (h.perm.nodup_iff.2 nodup_range')

theorem Inv.reported_log {e : ℕ × Bool} (he : e ∈ s.log) : Reported cfg e.1 := by
  have hmem := (h.perm.mem_iff (a := e.1)).1 (mem_append_left _ (mem_map_of_mem he))
  rw [mem_range'_1] at hmem
  have hstop := next_le_stop cfg arr
  exact reported_iff.2 ⟨hmem.1, by have : cfg.stop = cfg.startSymbol + cfg.count := rfl; omega⟩

/-- the log of a state without a call under way -/
theorem Inv.log_perm (hq : Quiet s) :
    (s.log.map Prod.fst).Perm (range' cfg.startSymbol (cfg.next arr - cfg.startSymbol)) := by
  have hperm := h.perm
  rwa [remaining_of_quiet hq, append_nil] at hperm

theorem Inv.log_eq : s.log = (s.log.map Prod.fst).map fun i => (i, valid i) := by
  rw [map_map]
  conv_lhs => rw [← map_id s.log]
  apply map_congr_left
  intro e he
  exact Prod.ext rfl (h.log e he)

/-- between calls, the entry is free exactly if the last symbol has been notified -/
theorem Inv.freed_iff (hq : Quiet s) : s.entry = 0 ↔ nsymbPerSlot cfg.cp - 1 ∈ s.log.map Prod.fst := by
  have hle := frontier_le cfg.startSymbol cfg.count arr
  have hcount : cfg.count = nsymbPerSlot cfg.cp - cfg.startSymbol := rfl
  rw [h.freed, (h.log_perm hq).mem_iff, mem_range'_1]
  constructor
  · rintro ⟨hc, hstop, -⟩
    have hstop : frontier cfg.startSymbol cfg.count arr = cfg.startSymbol + cfg.count := hstop
    unfold SlotCfg.next
    omega
  · rintro ⟨hs, hlt⟩
    unfold SlotCfg.next at hlt ⊢
    unfold SlotCfg.stop
    exact ⟨by omega, by omega, not_clears hq⟩

/-- the last symbol is notified after the entry has been freed -/
theorem Inv.freed_of_last (hlast : nsymbPerSlot cfg.cp - 1 ∈ s.log.map Prod.fst) : s.entry = 0 := by
  have hnodup := h.perm.nodup_iff.2 nodup_range'
  have hdisj := (nodup_append.1 hnodup).2.2 _ hlast
  have hmem := h.perm.mem_iff.1 (mem_append_left _ hlast)
  rw [mem_range'_1] at hmem
  have hle := frontier_le cfg.startSymbol cfg.count arr
  have hcount : cfg.count = nsymbPerSlot cfg.cp - cfg.startSymbol := rfl
  unfold SlotCfg.next at hmem
  refine h.freed.2 ⟨by omega, by unfold SlotCfg.next SlotCfg.stop; omega, fun x hclears => ?_⟩
  -- a call before its store has the last symbol still to notify
  have hok := h.calls x
  cases hc : s.calls x with
  | clearing n v =>
    rw [hc] at hok
    obtain ⟨-, hhead, -, hn, hx⟩ := hok
    have hstop : cfg.stop = cfg.startSymbol + cfg.count := rfl
    refine hdisj _ (mem_flatMap.2 ⟨x, mem_of_mem_head? hhead, ?_⟩) rfl
    rw [hc]
    exact mem_range'_1.2 ⟨by omega, by omega⟩
  | _ => rw [hc] at hclears; exact hclears

end Notified

/-- calls that all got their steps have ended, and everything has arrived -/
theorem run_complete (cfg : SlotCfg) (valid : ℕ → Bool) {ops : List ℕ}
    (hops : ∀ x, Reported cfg x → maxSteps ≤ ops.count x) :
    ∃ arr, Inv cfg valid arr (run (step cfg valid) (init cfg) ops) ∧
      Quiet (run (step cfg valid) (init cfg) ops) ∧ cfg.next arr = cfg.stop := by
  obtain ⟨arr, h⟩ := run_inv cfg valid ops
  have hdone : ∀ x, Reported cfg x → (run (step cfg valid) (init cfg) ops).calls x = .done := by
    intro x hx
    have hleft := left_run (inv_init cfg valid) hx ops
    have hcount := hops x hx
    have hinit : ((init cfg).calls x).left = maxSteps := rfl
    exact done_of_left (h.calls x) (by omega)
  refine ⟨arr, h, fun x => ?_, frontier_eq_stop_iff.2 fun x hs hlt => ?_⟩
  · by_cases hx : Reported cfg x
    · exact .inr (hdone x hx)
    · left
      by_contra hidle
      exact hx (h.reported x (h.mem_of_not_idle hidle))
  · exact h.mem_of_not_idle (by rw [hdone x (reported_iff.2 ⟨hs, hlt⟩)]; simp)

/-- a call that is left alone with enough steps notifies what it still has to, in order -/
theorem finish_call (h : Inv cfg valid arr s) (hx : x ∈ arr) {k : ℕ} (hleft : (s.calls x).left ≤ k) :
    Inv cfg valid arr (run (step cfg valid) s (replicate k x)) ∧
      (run (step cfg valid) s (replicate k x)).calls = update s.calls x .done ∧
      (run (step cfg valid) s (replicate k x)).log = s.log ++ (remaining x (s.calls x)).map fun i => (i, valid i) := by
  have hok := h.calls x
  induction k generalizing s with
  | zero =>
    have hdone := done_of_left hok (le_zero.1 hleft)
    refine ⟨h, ?_, ?_⟩
    · rw [← hdone, update_eq_self]
      rfl
    · rw [hdone]
      simp [remaining]
  | succ k ih =>
    have hstep := left_step h (h.reported x hx)
    have hinv : Inv cfg valid arr (step cfg valid s x) := by
      have hnext := step_inv h x
      rwa [arrive, if_neg] at hnext
      rintro ⟨hidle, -⟩
      rw [hidle] at hok
      exact hok hx
    obtain ⟨hlast, hcalls, hlog⟩ := ih hinv (by omega) (hinv.calls x)
    rw [replicate_succ, run_cons]
    refine ⟨hlast, ?_, ?_⟩
    · -- the calls of the others are those before the step
      rw [hcalls]
      funext y
      by_cases hyx : y = x
      · rw [hyx, update_self, update_self]
      · rw [update_of_ne hyx, update_of_ne hyx, step_other (Ne.symm hyx)]
    · rw [hlog]
      cases hc : s.calls x with
      | idle =>
        rw [hc] at hok
        exact absurd hx hok
      | clearing n v =>
        rw [hc] at hok
        rw [step_clearing hc]
        dsimp only
        rw [update_self, hok.1.results]
        simp [remaining]
      | notifying i stop f =>
        rw [hc] at hok
        obtain ⟨-, hle, hflags⟩ := hok
        by_cases hi : i = stop
        · subst hi
          rw [step_stop hc]
          simp [remaining]
        · have hrange : range' i (stop - i) = i :: range' (i + 1) (stop - (i + 1)) := by
            rw [show stop - i = stop - (i + 1) + 1 by omega, range'_succ]
          rw [step_notify hc hi]
          simp [remaining, hrange, hflags i le_rfl (by omega)]
      | done =>
        rw [step_done hc, hc]
      | aborted =>
        rw [hc] at hok
        exact hok.elim

/-- a call on its own releases what its arrival releases, in order -/
theorem sequential_call (h : Inv cfg valid arr s) (hq : Quiet s) (hx : Reported cfg x) (hnew : x ∉ arr) :
    Inv cfg valid (x :: arr) (run (step cfg valid) s (replicate maxSteps x)) ∧
      Quiet (run (step cfg valid) s (replicate maxSteps x)) ∧ (run (step cfg valid) s (replicate maxSteps x)).log =
        s.log ++ (released cfg.startSymbol cfg.count x arr).map fun i => (i, valid i) := by
  have hidle : s.calls x = .idle := by
    by_contra hne
    exact hnew (h.mem_of_not_idle hne)
  have henc : Encodes cfg valid arr s.entry :=
    h.word fun hzero => (next_lt_stop hx hnew).ne (h.freed.1 hzero).2.1
  have hinv := inv_report h hidle hx
  have hlt := left_updateRxSymbol_lt s.entry x (valid x)
  obtain ⟨hlast, hcalls, hlog⟩ := finish_call (k := maxSteps - 1) hinv mem_cons_self (by
    dsimp only
    rw [update_self]
    omega)
  rw [show maxSteps = maxSteps - 1 + 1 from rfl, replicate_succ, run_cons, step_idle hidle hx]
  refine ⟨hlast, fun y => ?_, ?_⟩
  · rw [hcalls]
    by_cases hyx : y = x
    · rw [hyx, update_self]
      exact .inr rfl
    · rw [update_of_ne hyx]
      dsimp only
      rw [update_of_ne hyx]
      exact hq y
  · rw [hlog]
    dsimp only
    rw [update_self, remaining_updateRxSymbol henc hx hnew]

/-- sequential calls have notified everything up to the first missing symbol, in order -/
theorem run_sequential (h : Inv cfg valid arr s) (hq : Quiet s)
    (hlog : s.log = (range' cfg.startSymbol (cfg.next arr - cfg.startSymbol)).map fun i => (i, valid i))
    {order : List ℕ} (hnodup : order.Nodup) (hrep : ∀ x ∈ order, Reported cfg x) (hnew : ∀ x ∈ order, x ∉ arr) :
    (run (step cfg valid) s (order.flatMap fun x => replicate maxSteps x)).log =
      (range' cfg.startSymbol (cfg.next (order.reverse ++ arr) - cfg.startSymbol)).map fun i => (i, valid i) := by
  induction order generalizing arr s with
  | nil => simpa using hlog
  | cons x order ih =>
    obtain ⟨hx, hnodup⟩ := nodup_cons.1 hnodup
    obtain ⟨hinv, hquiet, hcall⟩ := sequential_call h hq (hrep x (by simp)) (hnew x (by simp))
    have hlog' := hcall
    rw [hlog, ← map_append, SlotCfg.next, range'_append_released] at hlog'
    rw [flatMap_cons, run_append, ih hinv hquiet hlog' hnodup (fun y hy => hrep y (by simp [hy])) ?_]
    · rw [reverse_cons, append_assoc, singleton_append]
    · intro y hy hmem
      rcases mem_cons.1 hmem with rfl | hmem
      · exact hx hy
      · exact hnew y (by simp [hy]) hmem

/-- every symbol is notified exactly once with its own flag under every interleaving, in order when the calls are
sequential, and the entry is freed with the last symbol -/
theorem symbols_reordered (cfg : SlotCfg) (valid : ℕ → Bool) :
    (∀ ops : List ℕ, ((Machine.run (step cfg valid) (init cfg) ops).log.map Prod.fst).Nodup ∧
      (∀ e ∈ (Machine.run (step cfg valid) (init cfg) ops).log, Reported cfg e.1 ∧ e.2 = valid e.1) ∧
      (∀ x, (Machine.run (step cfg valid) (init cfg) ops).calls x ≠ .aborted) ∧
      (nsymbPerSlot cfg.cp - 1 ∈ (Machine.run (step cfg valid) (init cfg) ops).log.map Prod.fst →
        (Machine.run (step cfg valid) (init cfg) ops).entry = 0) ∧
      (Quiet (Machine.run (step cfg valid) (init cfg) ops) → ((Machine.run (step cfg valid) (init cfg) ops).entry = 0 ↔
          nsymbPerSlot cfg.cp - 1 ∈ (Machine.run (step cfg valid) (init cfg) ops).log.map Prod.fst)) ∧
      ((∀ x, Reported cfg x → maxSteps ≤ ops.count x) → (Machine.run (step cfg valid) (init cfg) ops).log.Perm
          ((List.range' cfg.startSymbol cfg.count).map fun i => (i, valid i)))) ∧
    (∀ order : List ℕ, order.Nodup → (∀ x ∈ order, Reported cfg x) →
      ∃ m, (Machine.run (step cfg valid) (init cfg) (order.flatMap fun x => List.replicate maxSteps x)).log =
          (List.range' cfg.startSymbol m).map (fun i => (i, valid i)) ∧
        ((∀ x, Reported cfg x → x ∈ order) → m = cfg.count)) := by
  refine ⟨fun ops => ?_, fun order hnodup hrep => ?_⟩
  · obtain ⟨arr, h⟩ := run_inv cfg valid ops
    refine ⟨h.nodup_log, fun e he => ⟨h.reported_log he, h.log e he⟩, fun x hx => ?_, h.freed_of_last, h.freed_iff,
      fun hops => ?_⟩
    · have hok := h.calls x
      rw [hx] at hok
      exact hok
    · obtain ⟨arr', h', hquiet, hall⟩ := run_complete cfg valid hops
      have hperm := h'.log_perm hquiet
      rw [hall, SlotCfg.stop, Nat.add_sub_cancel_left] at hperm
      rw [h'.log_eq]
      exact hperm.map _
  · have hlog := run_sequential (inv_init cfg valid) (fun _ => Or.inl rfl) (by simp [init]) hnodup hrep (by simp)
    refine ⟨_, hlog, fun hall => ?_⟩
    have hstop : cfg.next (order.reverse ++ []) = cfg.stop := by
      refine frontier_eq_stop_iff.2 fun x hs hlt => ?_
      simpa using hall x (reported_iff.2 ⟨hs, hlt⟩)
    rw [hstop, SlotCfg.stop, Nat.add_sub_cancel_left]

theorem symbols_reordered_interleaved :
    let cfg : SlotCfg := ⟨12, .normal, by decide⟩
    (Machine.run (step cfg fun x => x == 12) (init cfg) (List.replicate maxSteps [13, 12]).flatten).log.Perm
      [(12, true), (13, false)] := by
  intro cfg
  have hops : ∀ x, Reported cfg x → maxSteps ≤ (replicate maxSteps [13, 12]).flatten.count x := by
    rintro x ⟨hs, hlt⟩
    have hlt : x < 14 := hlt
    interval_cases x <;> decide
  exact ((symbols_reordered cfg fun x => x == 12).1 _).2.2.2.2.2 hops

end OcuduRan.Ofh.SymbolReorderer
