/-
Active time of a UE with discontinuous reception (lib/scheduler/ue_context/ue_drx_controller.cpp).

The controller keeps one end slot for the on-duration window and for all timers. It looks at the on-duration window only
when that end has passed.

`active_time_exact`: after a slot indication in any run of steps that meet the conditions below, the PDCCH is enabled
exactly when the slot is in an on-duration window, before the end of a timer that was started, or an SR is pending.

  tail       the end is not renewed in the part of a window behind the end of the cycle: slot_indication adds the
             distance to the unreduced end of the window, so that the UE stays active for another cycle
             (`tail_of_window_lasts_a_cycle`).
  restart    the long cycle divides the 10240 ms of a hyper system frame, or the end is renewed in a window that is over
             before the slot count starts again: the phase jumps there.
  reconfig   a new configuration finds no end, or an end up to which there are its windows and timers: reconfigure keeps
             the end of the old window.
  range      on-duration and inactivity timer are at most 2560 ms, and a timer ends less than 2560 ms before and at most
             2560 ms after the slot in which it is started: slots are compared modulo a hyper system frame.
-/
import OcuduRan.Core.Machine
import OcuduRan.Ran.SlotPoint

namespace OcuduRan.Sched

open Ran SlotPoint Sched Nat List

/-- durations in ms, those of the retransmission timers in slots -/
structure DrxConfig where
  longCycle : ℕ
  longStartOffset : ℕ
  onDurationTimer : ℕ
  inactivityTimer : ℕ
  retxTimerDl : ℕ
  retxTimerUl : ℕ
deriving DecidableEq

variable (μ : Numerology)

/-- milliseconds to slots, in an unsigned integer -/
def toSlots (ms : ℕ) : ℕ := ms * nofSlotsPerSubframe μ % 2 ^ 32

/-! ## The controller

The members that reconfigure derives from a configuration are functions of it. The calls assign active_time_end and
nothing else. -/

namespace DrxConfig

variable (μ : Numerology) (cfg : DrxConfig)

def activeWindowPeriod : ℕ := toSlots μ cfg.longCycle

def activeWindowStart : ℕ := toSlots μ cfg.longStartOffset

def activeWindowStop : ℕ := (cfg.activeWindowStart μ + cfg.onDurationTimer * nofSlotsPerSubframe μ) % 2 ^ 32

def inactivityDur : ℕ := toSlots μ cfg.inactivityTimer

end DrxConfig

section Calls

variable {μ : Numerology} (cfg : DrxConfig) (activeTimeEnd : Option (SlotPoint μ))

/-- first half of slot_indication: an end that has passed is forgotten -/
def expire (dlSlot : SlotPoint μ) : Option (SlotPoint μ) :=
  activeTimeEnd.filter fun e => dlSlot.lt e

/-- second half of slot_indication: without an end, the window at hand gives one -/
def renew (dlSlot : SlotPoint μ) : Option (SlotPoint μ) :=
  match activeTimeEnd with
  | some e => some e
  | none =>
    let slotMod := dlSlot.count % cfg.activeWindowPeriod μ
    -- in the window, or in the interval [0, window_end % window_period)
    if (cfg.activeWindowStart μ ≤ slotMod ∧ slotMod < cfg.activeWindowStop μ) ∨
        (cfg.activeWindowPeriod μ ≤ cfg.activeWindowStop μ ∧
          slotMod < cfg.activeWindowStop μ % cfg.activeWindowPeriod μ) then
      some (dlSlot.add (cfg.activeWindowStop μ - slotMod))
    else none

def slotIndication (dlSlot : SlotPoint μ) : Option (SlotPoint μ) := renew cfg (expire activeTimeEnd dlSlot) dlSlot

def isActiveTime (hasPendingSr : Bool) : Bool := activeTimeEnd.isSome || hasPendingSr

/-- a timer moves the end, if it ends later -/
def extend (newEnd : SlotPoint μ) : Option (SlotPoint μ) :=
  match activeTimeEnd with
  | none => some newEnd
  | some e => if e.lt newEnd = true then some newEnd else some e

/-- a timer of `slots` slots from `slot` on; a duration of 0 is no timer -/
def startTimer (slot : SlotPoint μ) (slots : ℕ) : Option (SlotPoint μ) :=
  if slots ≠ 0 then extend activeTimeEnd (slot.add slots) else activeTimeEnd

def onNewDlPdcchAlloc (hasPendingSr : Bool) (pdcchSlot : SlotPoint μ) : Option (SlotPoint μ) :=
  if isActiveTime activeTimeEnd hasPendingSr = false then activeTimeEnd
  else startTimer activeTimeEnd pdcchSlot (cfg.inactivityDur μ)

def onNewUlPdcchAlloc (hasPendingSr : Bool) (pdcchSlot puschSlot : SlotPoint μ) : Option (SlotPoint μ) :=
  if isActiveTime activeTimeEnd hasPendingSr = false then activeTimeEnd
  else startTimer (startTimer activeTimeEnd pdcchSlot (cfg.inactivityDur μ)) puschSlot cfg.retxTimerUl

def onDlHarqNack (uciSlot : SlotPoint μ) : Option (SlotPoint μ) := startTimer activeTimeEnd uciSlot cfg.retxTimerDl

/-- a call without the slot of the UL-CCCH message does nothing -/
def onConResStart (ulCcchSlotRx : Option (SlotPoint μ)) (conresTimer : ℕ) : Option (SlotPoint μ) :=
  match ulCcchSlotRx with
  | none => activeTimeEnd
  | some slot => extend activeTimeEnd (slot.add (toSlots μ conresTimer))

end Calls

/-! ## Runs -/

/-- a UE: its configuration and end of the active time, the slot of the last slot indication, and the ends of the timers
started so far -/
structure DrxUe (μ : Numerology) where
  drxCfg : Option DrxConfig
  activeTimeEnd : Option (SlotPoint μ) := none
  now : ℤ
  pendingSr : Bool := false
  timers : List ℤ := []

/-- calls for one UE: slots are indicated one after the other, PDCCHs are allocated in the current slot. The contention
resolution timer runs from the slot of the UL-CCCH message. -/
inductive DrxOp
  | slotIndication
  | reconfigure (cfg : Option DrxConfig)
  | newDlPdcch
  | newUlPdcch (k2 : ℕ)
  | dlHarqNack (uciSlot : ℤ)
  | conResStart (ulCcchSlot : Option ℤ) (conresTimer : ℕ)
  | setPendingSr (pending : Bool)

namespace DrxUe

variable {μ : Numerology}

def isPdcchEnabled (s : DrxUe μ) : Bool := s.drxCfg.isNone || isActiveTime s.activeTimeEnd s.pendingSr

/-- what a call does to the end when there is a configuration -/
def newEnd (s : DrxUe μ) (cfg : DrxConfig) : DrxOp → Option (SlotPoint μ)
  | .slotIndication => slotIndication cfg s.activeTimeEnd (.at μ (s.now + 1))
  | .newDlPdcch => onNewDlPdcchAlloc cfg s.activeTimeEnd s.pendingSr (.at μ s.now)
  | .newUlPdcch k2 => onNewUlPdcchAlloc cfg s.activeTimeEnd s.pendingSr (.at μ s.now) (.at μ (s.now + k2))
  | .dlHarqNack uciSlot => onDlHarqNack cfg s.activeTimeEnd (.at μ uciSlot)
  | .conResStart ulCcchSlot conresTimer => onConResStart s.activeTimeEnd (ulCcchSlot.map (.at μ)) conresTimer
  | _ => s.activeTimeEnd

/-- start slot and duration of a timer; a duration of 0 is no timer -/
def timer (t : ℤ) (slots : ℕ) : List (ℤ × ℕ) := if slots ≠ 0 then [(t, slots)] else []

/-- the timers that a call starts -/
def started (s : DrxUe μ) (cfg : DrxConfig) : DrxOp → List (ℤ × ℕ)
  | .newDlPdcch =>
    if isActiveTime s.activeTimeEnd s.pendingSr = true then
      timer s.now (cfg.inactivityTimer * nofSlotsPerSubframe μ) else []
  | .newUlPdcch k2 =>
    if isActiveTime s.activeTimeEnd s.pendingSr = true then
      timer s.now (cfg.inactivityTimer * nofSlotsPerSubframe μ) ++ timer (s.now + k2) cfg.retxTimerUl else []
  | .dlHarqNack uciSlot => timer uciSlot cfg.retxTimerDl
  | .conResStart ulCcchSlot conresTimer => ulCcchSlot.toList.map fun t => (t, conresTimer * nofSlotsPerSubframe μ)
  | _ => []

def ends (started : List (ℤ × ℕ)) : List ℤ := started.map fun t => t.1 + t.2

/-- without a configuration only the slot and the SR change -/
def step (s : DrxUe μ) (op : DrxOp) : DrxUe μ where
  drxCfg := match op with
    | .reconfigure cfg => cfg
    | _ => s.drxCfg
  activeTimeEnd := match s.drxCfg with
    | none => s.activeTimeEnd
    | some cfg => s.newEnd cfg op
  now := match op with
    | .slotIndication => s.now + 1
    | _ => s.now
  pendingSr := match op with
    | .setPendingSr pending => pending
    | _ => s.pendingSr
  timers := match s.drxCfg with
    | none => s.timers
    | some cfg => s.timers ++ ends (s.started cfg op)

end DrxUe

/-- slot phase in the cycle -/
def DrxConfig.phase (cfg : DrxConfig) (t : ℤ) : ℕ :=
  (SlotPoint.at μ t).count % (cfg.longCycle * nofSlotsPerSubframe μ)

/-- in an on-duration window: fewer slots than its length after the phase in which windows start -/
def DrxConfig.InOnDuration (cfg : DrxConfig) (t : ℤ) : Prop :=
  (cfg.phase μ t + (cfg.longCycle - cfg.longStartOffset) * nofSlotsPerSubframe μ) %
      (cfg.longCycle * nofSlotsPerSubframe μ) < cfg.onDurationTimer * nofSlotsPerSubframe μ

instance (μ : Numerology) (cfg : DrxConfig) (t : ℤ) : Decidable (cfg.InOnDuration μ t) :=
  inferInstanceAs (Decidable (_ < _))

/-- what the result of the header says about a slot that has just been indicated -/
def DrxUe.Exact {μ : Numerology} (s : DrxUe μ) : Prop :=
  ∀ cfg, s.drxCfg = some cfg →
    (s.isPdcchEnabled = true ↔
      cfg.InOnDuration μ s.now ∨ (∃ e ∈ s.timers, s.now < e) ∨ s.pendingSr = true)

/-! ## Conditions -/

/-- the configuration meets the conditions of the header -/
structure DrxConfig.Ok (cfg : DrxConfig) : Prop where
  offset : cfg.longStartOffset < cfg.longCycle
  onDuration : cfg.onDurationTimer ≤ cfg.longCycle
  cycle : cfg.longCycle ≤ 10240
  short : cfg.onDurationTimer ≤ 2560
  inactivity : cfg.inactivityTimer ≤ 2560

/-- a window at slot `t` has not crossed the end of the cycle, and the phase does not jump before it ends -/
def DrxConfig.Renewable (cfg : DrxConfig) (t : ℤ) : Prop :=
  cfg.longStartOffset * nofSlotsPerSubframe μ ≤ cfg.phase μ t ∧ (cfg.longCycle ∣ 10240 ∨
    (SlotPoint.at μ t).count + (cfg.activeWindowStop μ - cfg.phase μ t) ≤ nofSlotsPerHyperSystemFrame μ)

/-- slots in 2560 ms, a quarter of a hyper system frame -/
def quarter : ℕ := 2560 * nofSlotsPerSubframe μ

/-- close enough to be compared -/
def Near (now e : ℤ) : Prop := now - quarter μ < e ∧ e ≤ now + quarter μ

/-- the conditions of the header, on the state before the step -/
def DrxUe.StepOk {μ : Numerology} (s : DrxUe μ) (op : DrxOp) : Prop :=
  (∀ cfg, s.drxCfg = some cfg → ∀ t ∈ s.started cfg op, t.2 < 2 ^ 31 ∧ Near μ s.now (t.1 + t.2)) ∧
    match op with
    | .slotIndication => ∀ cfg, s.drxCfg = some cfg → expire s.activeTimeEnd (.at μ (s.now + 1)) = none →
        cfg.InOnDuration μ (s.now + 1) → cfg.Renewable μ (s.now + 1)
    | .reconfigure (some cfg) => s.drxCfg = some cfg ∨ cfg.Ok ∧
        (s.activeTimeEnd = none ∨ ∃ E, Near μ s.now E ∧ s.activeTimeEnd = some (.at μ E) ∧
          ∀ m, s.now < m → m < E → cfg.InOnDuration μ m ∨ ∃ e ∈ s.timers, m < e)
    | _ => True

/-! ## The on-duration window -/

namespace DrxConfig.Ok

variable {μ : Numerology} {cfg : DrxConfig}

theorem toSlots_eq {ms : ℕ} (h : ms ≤ 10240) : toSlots μ ms = ms * nofSlotsPerSubframe μ := by
  have hle : ms * nofSlotsPerSubframe μ ≤ 10240 * 16 := Nat.mul_le_mul h (slotsPerSubframe_le μ)
  exact mod_eq_of_lt (by omega)

/-- period, start, length and end of a window in slots -/
theorem slots (h : cfg.Ok) (μ : Numerology) : ∃ P S D, cfg.longCycle * nofSlotsPerSubframe μ = P ∧
    cfg.longStartOffset * nofSlotsPerSubframe μ = S ∧ cfg.onDurationTimer * nofSlotsPerSubframe μ = D ∧
    cfg.activeWindowPeriod μ = P ∧ cfg.activeWindowStart μ = S ∧ cfg.activeWindowStop μ = S + D ∧
    S < P ∧ D ≤ P ∧ D ≤ quarter μ ∧ S + D < 2 ^ 31 := by
  have hS : cfg.activeWindowStart μ = _ := toSlots_eq (h.offset.le.trans h.cycle)
  have hP := Nat.mul_le_mul h.cycle (slotsPerSubframe_le μ)
  have h1 := Nat.mul_lt_mul_of_pos_right h.offset (Nat.two_pow_pos μ.val)
  have h2 := mul_le_mul_right (nofSlotsPerSubframe μ) h.onDuration
  refine ⟨_, _, _, rfl, rfl, rfl, toSlots_eq h.cycle, hS, ?_, h1, h2, mul_le_mul_right _ h.short, ?_⟩
  · rw [activeWindowStop, hS]
    exact mod_eq_of_lt (by unfold nofSlotsPerSubframe at *; omega)
  · unfold nofSlotsPerSubframe at *
    omega

/-- in the window, or in the part of it behind the end of the cycle -/
theorem inOnDuration_iff (h : cfg.Ok) (t : ℤ) : cfg.InOnDuration μ t ↔
    (cfg.activeWindowStart μ ≤ cfg.phase μ t ∧ cfg.phase μ t < cfg.activeWindowStop μ) ∨
      cfg.phase μ t + cfg.activeWindowPeriod μ < cfg.activeWindowStop μ := by
  obtain ⟨P, S, D, hP, hS, hD, hP', hS', hstop, hlt, hle, -, -⟩ := h.slots μ
  have hx : cfg.phase μ t < P := hP ▸ mod_lt _ (by omega)
  rw [InOnDuration, Nat.sub_mul, hP, hS, hD, hP', hS', hstop]
  by_cases hin : S ≤ cfg.phase μ t
  · rw [show cfg.phase μ t + (P - S) = cfg.phase μ t - S + P by omega, add_mod_right, mod_eq_of_lt (by omega)]
    omega
  · rw [mod_eq_of_lt (by omega)]
    omega

/-- the phase goes on, if the slot count does, or with a cycle that divides the hyper system frame -/
theorem phase_add {t : ℤ} {k : ℕ}
    (h : cfg.longCycle ∣ 10240 ∨ (SlotPoint.at μ t).count + k < nofSlotsPerHyperSystemFrame μ) :
    cfg.phase μ (t + k) = (cfg.phase μ t + k) % (cfg.longCycle * nofSlotsPerSubframe μ) := by
  have hcount : (SlotPoint.at μ (t + k)).count = ((SlotPoint.at μ t).count + k) % nofSlotsPerHyperSystemFrame μ := by
    zify
    rw [at_count, at_count, Int.emod_add_emod]
  rw [phase, phase, mod_add_mod, hcount]
  rcases h with hdvd | hlt
  · rw [frame_eq]
    exact mod_mod_of_dvd _ (mul_dvd_mul_right hdvd _)
  · rw [mod_eq_of_lt hlt]

/-- from the head of a window on, the slots up to its end are in it -/
theorem window_runs (h : cfg.Ok) {t : ℤ} {k : ℕ} (ht : cfg.Renewable μ t)
    (hk : k < cfg.activeWindowStop μ - cfg.phase μ t) : cfg.InOnDuration μ (t + k) := by
  obtain ⟨P, S, D, hP, hS, -, hP', hS', hstop, hlt, hle, -, -⟩ := h.slots μ
  obtain ⟨hstart, hrestart⟩ := ht
  have hp := phase_add (k := k) (hrestart.imp_right fun hle => (Nat.add_lt_add_left hk _).trans_le hle)
  rw [hS] at hstart
  rw [hstop] at hk
  rw [h.inOnDuration_iff, hP', hS', hstop]
  rw [hP] at hp
  by_cases hcross : cfg.phase μ t + k < P
  · rw [mod_eq_of_lt hcross] at hp
    omega
  · rw [mod_eq_sub_mod (not_lt.1 hcross), mod_eq_of_lt (by omega)] at hp
    omega

/-- without an end, the slot is active exactly in a window -/
theorem renew (h : cfg.Ok) (t : ℤ) : renew cfg none (.at μ t) = if cfg.InOnDuration μ t then
    some (.at μ (t + ((cfg.activeWindowStop μ - cfg.phase μ t : ℕ) : ℤ))) else none := by
  obtain ⟨P, S, D, hP, -, -, hP', hS', hstop, hlt, hle, -, hmax⟩ := h.slots μ
  have hphase : (SlotPoint.at μ t).count % P = cfg.phase μ t := by rw [← hP]; rfl
  have htail : P ≤ S + D ∧ cfg.phase μ t < (S + D) % P ↔ cfg.phase μ t + P < S + D := by
    by_cases hcross : P ≤ S + D
    · rw [mod_eq_sub_mod hcross, mod_eq_of_lt (by omega)]
      omega
    · omega
  simp only [Sched.renew, h.inOnDuration_iff, hP', hS', hstop, hphase, htail]
  rw [at_add _ (by omega)]

end DrxConfig.Ok

/-! ## The end of the active time -/

theorem frame_eq_quarter : nofSlotsPerHyperSystemFrame μ = 4 * quarter μ ∧ 0 < quarter μ := by
  have hpos : 0 < nofSlotsPerSubframe μ := Nat.two_pow_pos _
  rw [frame_eq, quarter]
  omega

/-- the end is not before that of a running timer, and up to the end there is a window or a timer -/
structure EndsAt (μ : Numerology) (cfg : Option DrxConfig) (now : ℤ) (timers : List ℤ) (E : ℤ) : Prop where
  range : E ≤ now + quarter μ
  covers : ∀ e ∈ timers, now < e → e ≤ E
  active : ∀ c, cfg = some c → now - quarter μ < E ∧
    ∀ m, now < m → m < E → c.InOnDuration μ m ∨ ∃ e ∈ timers, m < e

/-- how the end that is kept relates to the timers -/
structure EndOk {μ : Numerology} (cfg : Option DrxConfig) (now : ℤ) (timers : List ℤ)
    (activeTimeEnd : Option (SlotPoint μ)) : Prop where
  range : ∀ e ∈ timers, e ≤ now + quarter μ
  idle : activeTimeEnd = none → ∀ e ∈ timers, e ≤ now
  busy : ∀ p, activeTimeEnd = some p → ∃ E, p = .at μ E ∧ EndsAt μ cfg now timers E

theorem EndOk.of_some {μ : Numerology} {cfg : Option DrxConfig} {now E : ℤ} {timers : List ℤ}
    (hrange : ∀ e ∈ timers, e ≤ now + quarter μ) (h : EndsAt μ cfg now timers E) :
    EndOk cfg now timers (some (.at μ E)) :=
  ⟨hrange, nofun, fun _ hp => ⟨E, (Option.some.inj hp).symm, h⟩⟩

namespace EndOk

variable {μ : Numerology} {now : ℤ} {timers : List ℤ} {p : Option (SlotPoint μ)} {cfg : DrxConfig}

section

variable (h : EndOk (some cfg) now timers p)
include h

/-- a timer is started -/
theorem extend {e : ℤ} (hnear : Near μ now e) : EndOk (some cfg) now (timers ++ [e]) (extend p (.at μ e)) := by
  have hrange : ∀ x ∈ timers ++ [e], x ≤ now + quarter μ := by
    simpa [or_imp, forall_and] using ⟨h.range, hnear.2⟩
  -- the end is set to that of the timer, which is the latest
  have hset : (∀ x ∈ timers, now < x → x ≤ e) → EndOk (some cfg) now (timers ++ [e]) (some (SlotPoint.at μ e)) := by
    intro hle
    refine of_some hrange ⟨hnear.2, ?_, fun _ _ => ⟨hnear.1, fun m _ hm => .inr ⟨e, by simp, hm⟩⟩⟩
    simpa [or_imp, forall_and] using hle
  cases p with
  | none => exact hset fun x hx hlt => absurd (h.idle rfl x hx) (not_le.2 hlt)
  | some p =>
    obtain ⟨E, rfl, hE⟩ := h.busy p rfl
    obtain ⟨hlow, hact⟩ := hE.active cfg rfl
    have hcmp : (SlotPoint.at μ E).lt (.at μ e) = true ↔ E < e := by
      refine SlotPoint.at_lt (abs_lt.2 ?_)
      have hH := frame_eq_quarter μ
      have hr := hE.range
      obtain ⟨h1, h2⟩ := hnear
      omega
    simp only [extend, hcmp]
    split_ifs with hlt
    · exact hset fun x hx hx' => (hE.covers x hx hx').trans hlt.le
    · refine of_some hrange ⟨hE.range, ?_, ?_⟩
      · simpa [or_imp, forall_and] using ⟨hE.covers, fun _ => not_lt.1 hlt⟩
      · rintro _ ⟨⟩
        refine ⟨hlow, fun m h1 h2 => (hact m h1 h2).imp_right ?_⟩
        rintro ⟨x, hx, hm⟩
        exact ⟨x, mem_append_left _ hx, hm⟩

theorem startTimer {t : ℤ} {slots : ℕ} (hnear : ∀ x ∈ DrxUe.timer t slots, x.2 < 2 ^ 31 ∧ Near μ now (x.1 + x.2)) :
    EndOk (some cfg) now (timers ++ DrxUe.ends (DrxUe.timer t slots)) (startTimer p (.at μ t) slots) := by
  unfold Sched.startTimer DrxUe.timer DrxUe.ends at *
  by_cases hzero : slots = 0
  · simpa [hzero] using h
  · simp only [ne_eq, hzero, not_false_eq_true, if_true, mem_singleton, forall_eq] at hnear
    rw [if_pos hzero, if_pos hzero, at_add _ hnear.1]
    exact h.extend hnear.2

/-- the end is forgotten when it has passed -/
theorem expire : (expire p (.at μ (now + 1)) = none ∧ ∀ e ∈ timers, e ≤ now + 1) ∨
      ∃ E, expire p (.at μ (now + 1)) = some (.at μ E) ∧ now + 1 < E ∧ EndsAt μ (some cfg) now timers E := by
  cases p with
  | none => exact .inl ⟨rfl, fun e he => (h.idle rfl e he).trans (by omega)⟩
  | some p =>
    obtain ⟨E, rfl, hE⟩ := h.busy p rfl
    obtain ⟨hlow, -⟩ := hE.active cfg rfl
    have hcmp : (SlotPoint.at μ (now + 1)).lt (.at μ E) = true ↔ now + 1 < E := by
      refine at_lt (abs_lt.2 ?_)
      have hH := frame_eq_quarter μ
      have hr := hE.range
      omega
    by_cases hlt : now + 1 < E
    · exact .inr ⟨E, Option.filter_some_pos (hcmp.2 hlt), hlt, hE⟩
    · refine .inl ⟨Option.filter_some_neg (Bool.eq_false_iff.2 fun h' => hlt (hcmp.1 h')), fun e he => ?_⟩
      by_cases hlive : now < e
      · exact (hE.covers e he hlive).trans (not_lt.1 hlt)
      · omega

/-- a slot is indicated -/
theorem slotIndication (hcfg : cfg.Ok) (hhead : Sched.expire p (.at μ (now + 1)) = none →
      cfg.InOnDuration μ (now + 1) → cfg.Renewable μ (now + 1)) :
    EndOk (some cfg) (now + 1) timers (slotIndication cfg p (.at μ (now + 1))) ∧
      ((slotIndication cfg p (.at μ (now + 1))).isSome = true ↔
        cfg.InOnDuration μ (now + 1) ∨ ∃ e ∈ timers, now + 1 < e) := by
  have hrange : ∀ e ∈ timers, e ≤ now + 1 + quarter μ := fun e he => (h.range e he).trans (by omega)
  unfold Sched.slotIndication
  rcases h.expire with ⟨hnone, hpast⟩ | ⟨E, hE, hlt, hends⟩
  · -- only the window can make the slot active
    have hnot : ¬∃ e ∈ timers, now + 1 < e := fun ⟨e, he, hlt⟩ => absurd (hpast e he) (not_le.2 hlt)
    rw [hnone, hcfg.renew]
    split_ifs with hon
    · obtain ⟨P, S, D, -, hS, -, -, -, hstop, -, -, hD, -⟩ := hcfg.slots μ
      have hhead := hhead hnone hon
      have hstart := hhead.1
      have hpos := (frame_eq_quarter μ).2
      refine ⟨of_some hrange ⟨by omega, fun e he hlt => absurd (hpast e he) (not_le.2 hlt), ?_⟩, by simp [hon]⟩
      rintro _ ⟨⟩
      refine ⟨by omega, fun m h1 h2 => .inl ?_⟩
      obtain ⟨k, rfl⟩ := Int.le.dest h1.le
      exact hcfg.window_runs hhead (by omega)
    · exact ⟨⟨hrange, fun _ => hpast, nofun⟩, by simp [hon, hnot]⟩
  · obtain ⟨hlow, hact⟩ := hends.active cfg rfl
    rw [hE]
    refine ⟨of_some hrange ⟨?_, fun e he hlt => hends.covers e he (by omega), ?_⟩, ?_⟩
    · exact hends.range.trans (by omega)
    · rintro _ ⟨⟩
      exact ⟨by omega, fun m h1 h2 => hact m (by omega) h2⟩
    · simpa [renew] using hact (now + 1) (by omega) hlt

end

/-- an end outlives a configuration, if the windows of the next one and the timers reach it -/
theorem reconfigure {old : Option DrxConfig} (h : EndOk old now timers p) (cfg : DrxConfig)
    (hend : p = none ∨ ∃ E, Near μ now E ∧ p = some (.at μ E) ∧
      ∀ m, now < m → m < E → cfg.InOnDuration μ m ∨ ∃ e ∈ timers, m < e) : EndOk (some cfg) now timers p := by
  rcases hend with rfl | ⟨E, hnear, rfl, hact⟩
  · exact ⟨h.range, h.idle, nofun⟩
  · obtain ⟨E', hpE, hE⟩ := h.busy _ rfl
    refine of_some h.range ⟨hnear.2, fun x hx hlt => ?_, ?_⟩
    · -- with a running timer, the end is not before now
      have hle := hE.covers x hx hlt
      obtain rfl : E = E' := by
        refine at_inj (abs_lt.2 ?_) hpE
        have hH := frame_eq_quarter μ
        have hr := hE.range
        obtain ⟨h1, h2⟩ := hnear
        omega
      exact hle
    · rintro _ ⟨⟩
      exact ⟨hnear.1, hact⟩

/-- without a configuration the end is left alone -/
theorem disabled {old : Option DrxConfig} (h : EndOk old now timers p) {now' : ℤ} (hnow : now ≤ now') :
    EndOk none now' timers p := by
  refine ⟨fun e he => (h.range e he).trans (by omega), fun hp e he => (h.idle hp e he).trans hnow, fun q hq => ?_⟩
  obtain ⟨E, hpE, hE⟩ := h.busy q hq
  exact ⟨E, hpE, hE.range.trans (by omega), fun e he hlt => hE.covers e he (by omega), nofun⟩

end EndOk

/-! ## Steps -/

namespace DrxUe

variable {μ : Numerology} {s : DrxUe μ}

structure Inv (s : DrxUe μ) : Prop where
  config : ∀ cfg, s.drxCfg = some cfg → cfg.Ok
  ends : EndOk s.drxCfg s.now s.timers s.activeTimeEnd

namespace Inv

theorem timers (h : Inv s) {cfg : DrxConfig} (hcfg : s.drxCfg = some cfg) (op : DrxOp) (hok : s.StepOk op)
    (hslot : op ≠ .slotIndication) : EndOk (some cfg) s.now (s.timers ++ DrxUe.ends (s.started cfg op))
    (s.newEnd cfg op) := by
  have hends := h.ends
  rw [hcfg] at hends
  have hnear := hok.1 cfg hcfg
  have hinact : cfg.inactivityDur μ = _ := DrxConfig.Ok.toSlots_eq ((h.config cfg hcfg).inactivity.trans (by decide))
  cases op with
  | slotIndication => exact absurd rfl hslot
  | reconfigure cfg => simpa [started, newEnd, DrxUe.ends] using hends
  | setPendingSr pending => simpa [started, newEnd, DrxUe.ends] using hends
  | newDlPdcch =>
    unfold started newEnd onNewDlPdcchAlloc at *
    cases hact : isActiveTime s.activeTimeEnd s.pendingSr with
    | false => simpa [DrxUe.ends] using hends
    | true =>
      simp only [hact, if_true, ← hinact] at hnear ⊢
      exact hends.startTimer hnear
  | newUlPdcch k2 =>
    unfold started newEnd onNewUlPdcchAlloc at *
    cases hact : isActiveTime s.activeTimeEnd s.pendingSr with
    | false => simpa [DrxUe.ends] using hends
    | true =>
      simp only [hact, if_true, ← hinact, mem_append] at hnear ⊢
      have h1 := hends.startTimer fun x hx => hnear x (.inl hx)
      have h2 := h1.startTimer fun x hx => hnear x (.inr hx)
      simpa [DrxUe.ends] using h2
  | dlHarqNack uciSlot => exact hends.startTimer hnear
  | conResStart ulCcchSlot conresTimer =>
    cases ulCcchSlot with
    | none => simpa [started, newEnd, DrxUe.ends, onConResStart] using hends
    | some slot =>
      simp only [started, Option.toList_some, map_cons, map_nil, mem_singleton, forall_eq] at hnear
      have hslots : toSlots μ conresTimer = conresTimer * nofSlotsPerSubframe μ := mod_eq_of_lt (by omega)
      simpa [started, newEnd, DrxUe.ends, onConResStart, hslots, at_add _ hnear.1] using hends.extend hnear.2

theorem slotIndication (h : Inv s) {cfg : DrxConfig} (hcfg : s.drxCfg = some cfg) (hok : s.StepOk .slotIndication) :
    Inv (s.step .slotIndication) ∧ (s.step .slotIndication).Exact := by
  have hends := h.ends
  rw [hcfg] at hends
  obtain ⟨hends', hexact⟩ := hends.slotIndication (h.config cfg hcfg) (hok.2 cfg hcfg)
  refine ⟨⟨h.config, ?_⟩, fun c hc => ?_⟩
  · simpa [DrxUe.step, started, newEnd, DrxUe.ends, hcfg] using hends'
  · obtain rfl : cfg = c := Option.some.inj (hcfg.symm.trans hc)
    simp only [isPdcchEnabled, isActiveTime, DrxUe.step, hcfg, newEnd, started, DrxUe.ends, map_nil, append_nil,
      Option.isNone_some, Bool.false_or, Bool.or_eq_true, hexact, or_assoc]

theorem step (h : Inv s) (op : DrxOp) (hok : s.StepOk op) : Inv (s.step op) := by
  cases hcfg : s.drxCfg with
  | none =>
    have hends : EndOk none (s.step op).now s.timers s.activeTimeEnd := by
      refine h.ends.disabled ?_
      cases op <;> simp [DrxUe.step]
    cases op with
    | reconfigure cfg =>
      cases cfg with
      | none => exact ⟨nofun, by simpa [DrxUe.step, hcfg] using hends⟩
      | some cfg =>
        obtain ⟨hcfgOk, hend⟩ := hok.2.resolve_left (by simp [hcfg])
        refine ⟨fun c hc => Option.some.inj hc ▸ hcfgOk, ?_⟩
        simpa [DrxUe.step, hcfg] using hends.reconfigure cfg hend
    | _ => exact ⟨h.config, by simpa [DrxUe.step, hcfg] using hends⟩
  | some cfg =>
    have htimers := h.timers hcfg op hok
    cases op with
    | slotIndication => exact (h.slotIndication hcfg hok).1
    | reconfigure new =>
      have hends : EndOk (some cfg) s.now s.timers s.activeTimeEnd := hcfg ▸ h.ends
      cases new with
      | none => exact ⟨nofun, by simpa [DrxUe.step, hcfg, newEnd, started, DrxUe.ends] using hends.disabled le_rfl⟩
      | some new =>
        rcases hok.2 with heq | ⟨hnew, hend⟩
        · obtain rfl : cfg = new := Option.some.inj (hcfg.symm.trans heq)
          refine ⟨fun c hc => Option.some.inj hc ▸ h.config cfg hcfg, ?_⟩
          simpa [DrxUe.step, hcfg, newEnd, started, DrxUe.ends] using hends
        · refine ⟨fun c hc => Option.some.inj hc ▸ hnew, ?_⟩
          simpa [DrxUe.step, hcfg, newEnd, started, DrxUe.ends] using hends.reconfigure new hend
    | _ => exact ⟨h.config, by simpa [DrxUe.step, hcfg] using htimers nofun⟩

end Inv

end DrxUe

/-- For every numerology, configuration, first slot (the one after `start`) and run of calls that meet the conditions of
the header: after the next slot indication, the PDCCH is enabled exactly in an on-duration window, before the end of a
timer started before, or while an SR is pending. -/
theorem active_time_exact (cfg : Option DrxConfig) (start : ℤ) (ops : List DrxOp) (hcfg : ∀ c, cfg = some c → c.Ok)
    (hops : Machine.Always DrxUe.step DrxUe.StepOk ({ drxCfg := cfg, now := start } : DrxUe μ) ops) :
    let s := Machine.run DrxUe.step ({ drxCfg := cfg, now := start } : DrxUe μ) ops
    s.StepOk .slotIndication → (s.step .slotIndication).Exact := by
  intro s hlast c hc
  have hinv : s.Inv := by
    refine Machine.run_inv (fun _ op h hok => h.step op hok) _ ops ⟨hcfg, ?_⟩ hops
    exact ⟨nofun, nofun, nofun⟩
  exact (hinv.slotIndication hc hlast).2 c hc

/-- windows of 10 ms in a cycle of 20 ms, from 5 ms on, and an inactivity timer of 10 ms -/
def sampleCfg : DrxConfig := ⟨20, 5, 10, 10, 8, 8⟩

/-- a PDCCH in the last slot of a window keeps the UE active in the next slot -/
theorem active_time_exact_inactivity :
    let s : DrxUe 0 := Machine.run DrxUe.step { drxCfg := some sampleCfg, now := 13 } [.slotIndication, .newDlPdcch]
    s.timers = [24] ∧ ¬sampleCfg.InOnDuration 0 (s.now + 1) ∧ (s.step .slotIndication).Exact := by
  have hslot : ∀ s : DrxUe 0, s.drxCfg = some sampleCfg → 5 ≤ sampleCfg.phase 0 (s.now + 1) →
      s.StepOk .slotIndication := by
    intro s hs hphase
    refine ⟨nofun, fun cfg hc _ _ => ?_⟩
    obtain rfl : sampleCfg = cfg := Option.some.inj (hs.symm.trans hc)
    exact ⟨hphase, .inl (by decide)⟩
  refine ⟨by decide +kernel, by decide +kernel, ?_⟩
  refine active_time_exact 0 (some sampleCfg) 13 [.slotIndication, .newDlPdcch] ?_ ⟨?_, ⟨?_, trivial⟩, trivial⟩ ?_
  · rintro c ⟨⟩
    exact ⟨by decide, by decide, by decide, by decide, by decide⟩
  · exact hslot _ rfl (by decide +kernel)
  · rintro _ ⟨⟩ t ht
    have htimer : (({ drxCfg := some sampleCfg, now := 13 } : DrxUe 0).step .slotIndication).started sampleCfg
        .newDlPdcch = [(14, 10)] := by decide +kernel
    obtain rfl : t = (14, 10) := by simpa [htimer] using ht
    exact ⟨by decide, by decide +kernel, by decide +kernel⟩
  · exact hslot _ (by decide +kernel) (by decide +kernel)

/-- the same windows from 15 ms on: 5 ms of each are in the next cycle -/
def crossingCfg : DrxConfig := { sampleCfg with longStartOffset := 15 }

/-- A UE whose first slot is 2, in the second half of a window: the window ends in slot 4, but the PDCCH is still
enabled in slot 10, with no timer started and no SR pending. -/
theorem tail_of_window_lasts_a_cycle :
    let s : DrxUe 0 := Machine.run DrxUe.step { drxCfg := some crossingCfg, now := 1 }
      (List.replicate 9 .slotIndication)
    s.now = 10 ∧ ¬crossingCfg.InOnDuration 0 s.now ∧ s.timers = [] ∧ s.pendingSr = false ∧
      s.isPdcchEnabled = true := by
  decide +kernel

end OcuduRan.Sched
