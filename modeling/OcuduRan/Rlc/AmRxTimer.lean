/-
When t-Reassembly of the receiver runs.

The rule of 5.2.3.2.3 and 5.2.3.2.4, which the code quotes, is stated over the state variables and the stored bytes
(`StopsByRule`, `StartsByRule`): a byte segment is missing when a byte before a stored one is not stored. The code reads
has_gap instead, and leaves out two parts of the rule:

  window edge  a trigger equal to RX_Next + AM_Window_Size stops the timer, which the rule excludes;
  RX_Next + 1  a trigger equal to RX_Next + 1 stops it only if something of RX_Next has been received.

In both cases RX_Next_Highest is above RX_Next + 1, so that the timer is started again in the same call.

Result: in every run that never has to keep an offset of 2^16 or more, the timer runs after a PDU or an expiry exactly
if the rule says so, and a timer that does not run means that nothing is missing below RX_Next_Highest beyond
RX_Highest_Status (`reassemblyTimer_by_rule`). `wrapped_offset_starts_timer` is a run of three PDUs where a truncated
offset looks like a gap and the timer is started although no byte is missing.
-/
import OcuduRan.Rlc.AmRxPointers
import OcuduRan.Rlc.AmRxReassembly

namespace OcuduRan.Rlc

open ModWindow Machine Nat CircularMap RlcRxAmSduSegment

namespace RlcRxAmEntity

variable {cfg : RlcRxAmConfig} {s t : RlcRxAmEntity} {R S H : ℕ} {sn : ℕ} {u : RlcRxAmEntity} {info : RlcRxAmSduInfo}
  {hdr : RlcAmPduHeader} {payload buf : Bytes} {segments segments' : List RlcRxAmSduSegment}

/-! ## The rule -/

/-- a byte segment of the SDU is missing before the last byte received of it -/
def MissesSegment (s : RlcRxAmEntity) (sn : ℕ) : Prop :=
  ∃ b b', b < b' ∧ Covers (s.segmentsOf sn) b' ∧ ¬ Covers (s.segmentsOf sn) b

variable (cfg) (s)

/-- t-Reassembly is to be stopped, for a value of RX_Next_Status_Trigger -/
def StopsByRule (trigger : ℕ) : Prop :=
  trigger = s.st.rxNext ∨
  (trigger = (s.st.rxNext + 1) % cfg.snFieldLength.mod ∧ ¬ s.MissesSegment s.st.rxNext) ∨
  (cfg.snFieldLength.amWindowSize ≤ s.rxModBase cfg trigger ∧
    trigger ≠ (s.st.rxNext + cfg.snFieldLength.amWindowSize) % cfg.snFieldLength.mod)

/-- t-Reassembly is to be started, with RX_Next or RX_Highest_Status as `sn` -/
def StartsByRule (sn : ℕ) : Prop :=
  s.rxModBase cfg sn + 1 < s.rxModBase cfg s.st.rxNextHighest ∨
  (s.rxModBase cfg s.st.rxNextHighest = s.rxModBase cfg sn + 1 ∧ s.MissesSegment sn)

/-- the operation is a data PDU that is placed in the reception buffer -/
def Places : Op → Prop
  | .handlePdu buf poolOk allocOk => ∃ hdr payload, rlcAmReadDataPduHeader cfg.snFieldLength buf = some (hdr, payload) ∧
      hdr.dc = .data ∧ payload ≠ [] ∧ (s.placeSdu cfg hdr payload poolOk allocOk).2 = true
  | _ => False

/-- the timer is to run after an operation that leads from `s` to `t`; an operation that places no PDU and is no expiry
leaves it as it is -/
def RunsByRule (op : Op) (t : RlcRxAmEntity) : Prop :=
  if op = .reassemblyExpiry then s.reassemblyTimer = true ∧ StartsByRule cfg t t.st.rxHighestStatus
  else (s.reassemblyTimer = true ∧ ¬ (Places cfg s op ∧ StopsByRule cfg t s.st.rxNextStatusTrigger)) ∨
    (Places cfg s op ∧ StartsByRule cfg t t.st.rxNext)

variable {s} {cfg}

/-! ## Gaps -/

/-- has_gap of an SDU that is not fully received says that a byte segment is missing -/
theorem hasGap_iff (hinfos : ∀ sn info, s.rxWindow.find? sn = some info → InfoOk info)
    (hnot : s.fullyReceived sn = false) : s.hasGap sn = true ↔ s.MissesSegment sn := by
  cases hf : s.rxWindow.find? sn with
  | none => simp [hasGap, MissesSegment, segmentsOf, hf]
  | some info =>
    have hinfo := find?_of_not_full (hinfos sn info hf) hf hnot
    have hfull : (inventoryLoop 0 (s.segmentsOf sn)).2 = false := by
      have : info.fullyReceived = false := by simpa [fullyReceived, hf] using hnot
      rw [hinfo] at this
      exact this
    have hgap : s.hasGap sn = (inventoryLoop 0 (s.segmentsOf sn)).1 := by
      have : s.hasGap sn = info.hasGap := by simp [hasGap, hf]
      rw [this, hinfo]
      rfl
    rw [hgap, @inventoryLoop_gap_iff [] _ _ (segsOk_segmentsOf hinfos sn)
      (fun h => by rw [hfull] at h; cases h) fun _ _ => zero_le _]
    simp [MissesSegment]

/-! ## What the code does to the timer -/

/-- the timer and its trigger -/
def watch (s : RlcRxAmEntity) : Bool × ℕ := (s.reassemblyTimer, s.st.rxNextStatusTrigger)

theorem advanceRxNext_watch (fuel sn : ℕ) : (advanceRxNext cfg fuel sn s).watch = s.watch := by
  induction fuel generalizing sn s with
  | zero => rfl
  | succ fuel ih =>
    rw [advanceRxNext]
    split_ifs
    · exact ih _
    · rfl
    · rfl

theorem completeSdu_watch (s : RlcRxAmEntity) (sn : ℕ) (info : RlcRxAmSduInfo) (allocOk : Bool) :
    (s.completeSdu cfg sn info allocOk).watch = s.watch := by
  have h1 : (s.deliverSdu sn info allocOk).watch = s.watch := by
    rw [deliverSdu_eq]
    rfl
  have h2 : ((s.deliverSdu sn info allocOk).updateHighestStatus cfg sn).watch = s.watch := by
    unfold updateHighestStatus
    split_ifs
    · exact h1
    · exact h1
  unfold completeSdu updateNext
  split_ifs
  · exact (advanceRxNext_watch _ _).trans h2
  · exact h2

theorem raiseNextHighest_watch (cfg : RlcRxAmConfig) (s : RlcRxAmEntity) (sn : ℕ) :
    (s.raiseNextHighest cfg sn).watch = s.watch := by
  unfold raiseNextHighest
  split_ifs
  · rfl
  · rfl

/-- a stored PDU moves the state variables first, and the timer then -/
theorem afterStore_eq (cfg : RlcRxAmConfig) (s : RlcRxAmEntity) (sn : ℕ) (allocOk : Bool) :
    ∃ t : RlcRxAmEntity, t.watch = s.watch ∧ s.afterStore cfg sn allocOk = t.updateReassemblyTimer cfg := by
  have hraise := raiseNextHighest_watch cfg s sn
  unfold afterStore
  generalize s.raiseNextHighest cfg sn = t at hraise ⊢
  refine ⟨_, ?_, rfl⟩
  split
  · split_ifs
    · exact (completeSdu_watch _ _ _ _).trans hraise
    · exact hraise
  · exact hraise

/-- the timer runs if it was running and is not stopped, or is started -/
theorem updateReassemblyTimer_timer (s : RlcRxAmEntity) : (s.updateReassemblyTimer cfg).reassemblyTimer =
    ((s.reassemblyTimer && !s.stopReassembly cfg) || s.startReassembly cfg s.st.rxNext) := by
  unfold updateReassemblyTimer restartReassembly
  cases hrun : s.reassemblyTimer with
  | false =>
    cases hstart : s.startReassembly cfg s.st.rxNext with
    | false => simp [hrun, hstart]
    | true => simp [hrun, hstart]
  | true =>
    cases hstop : s.stopReassembly cfg with
    | false => simp [hrun]
    | true =>
      have hsame : ({ s with reassemblyTimer := false } : RlcRxAmEntity).startReassembly cfg s.st.rxNext =
        s.startReassembly cfg s.st.rxNext := rfl
      cases hstart : s.startReassembly cfg s.st.rxNext with
      | false => simp [hsame, hstart]
      | true => simp [hsame, hstart]

/-! ## Code and rule -/

/-- the same window, RX_Next, RX_Highest_Status and RX_Next_Highest -/
structure SameWindow (s t : RlcRxAmEntity) : Prop where
  window : t.rxWindow = s.rxWindow
  next : t.st.rxNext = s.st.rxNext
  status : t.st.rxHighestStatus = s.st.rxHighestStatus
  highest : t.st.rxNextHighest = s.st.rxNextHighest

theorem SameWindow.symm (h : SameWindow s t) : SameWindow t s :=
  ⟨h.window.symm, h.next.symm, h.status.symm, h.highest.symm⟩

theorem SameWindow.rxModBase (h : SameWindow s t) (sn : ℕ) : t.rxModBase cfg sn = s.rxModBase cfg sn := by
  simp only [RlcRxAmEntity.rxModBase, h.next]

theorem SameWindow.misses (h : SameWindow s t) (sn : ℕ) : t.MissesSegment sn ↔ s.MissesSegment sn := by
  simp only [MissesSegment, segmentsOf, h.window]

theorem SameWindow.stops (h : SameWindow s t) (trigger : ℕ) :
    StopsByRule cfg t trigger ↔ StopsByRule cfg s trigger := by
  simp only [StopsByRule, h.rxModBase, h.misses, h.next]

theorem SameWindow.starts (cfg : RlcRxAmConfig) (h : SameWindow s t) (sn : ℕ) :
    StartsByRule cfg t sn ↔ StartsByRule cfg s sn := by
  simp only [StartsByRule, h.rxModBase, h.misses, h.highest]

theorem SameWindow.hasGap (h : SameWindow s t) (sn : ℕ) : t.hasGap sn = s.hasGap sn := by
  simp only [RlcRxAmEntity.hasGap, h.window]

theorem Window.of_same (h : Window InfoOk cfg R S H s) (hs : SameWindow s t) : Window InfoOk cfg R S H t := by
  obtain ⟨hw, hn, hst, hh⟩ := hs
  refine ⟨?_, ?_, ?_, ?_, h.next_le, h.status_le, h.highest_le, ?_, ?_⟩
  · rw [hw, h.cap]
  · rw [hn, h.rxNext]
  · rw [hst, h.rxHighestStatus]
  · rw [hh, h.rxNextHighest]
  · rw [hw]
    exact h.keys
  · rw [hw]
    exact h.infos

theorem SameWindow.trans (h : SameWindow s t) (h' : SameWindow t u) : SameWindow s u :=
  ⟨h'.window.trans h.window, h'.next.trans h.next, h'.status.trans h.status, h'.highest.trans h.highest⟩

theorem restartReassembly_same (cfg : RlcRxAmConfig) (s : RlcRxAmEntity) (sn : ℕ) :
    SameWindow s (s.restartReassembly cfg sn) := by
  unfold restartReassembly
  split
  · exact ⟨rfl, rfl, rfl, rfl⟩
  · exact ⟨rfl, rfl, rfl, rfl⟩

/-- the timer changes neither the window nor the other state variables -/
theorem updateReassemblyTimer_same (cfg : RlcRxAmConfig) (s : RlcRxAmEntity) :
    SameWindow s (s.updateReassemblyTimer cfg) := by
  have hoff : SameWindow s
      (if s.reassemblyTimer && s.stopReassembly cfg then { s with reassemblyTimer := false } else s) := by
    split_ifs
    · exact ⟨rfl, rfl, rfl, rfl⟩
    · exact ⟨rfl, rfl, rfl, rfl⟩
  unfold updateReassemblyTimer
  dsimp only
  generalize (if s.reassemblyTimer && s.stopReassembly cfg then { s with reassemblyTimer := false } else s) =
    t at hoff ⊢
  split_ifs
  · exact hoff.trans (restartReassembly_same cfg t _)
  · exact hoff

/-- the code starts the timer by the rule, for RX_Next and for RX_Highest_Status -/
theorem startReassembly_iff {a : ℕ} (h : Window InfoOk cfg R S H s) (ha : R ≤ a) (haH : a ≤ H)
    (hnot : a = H ∨ ¬ Full cfg s a) :
    s.startReassembly cfg (a % cfg.snFieldLength.mod) = true ↔ StartsByRule cfg s (a % cfg.snFieldLength.mod) := by
  obtain ⟨hmod, hwin, -, -, hHW⟩ := h.bounds
  have hda : s.rxModBase cfg (a % cfg.snFieldLength.mod) = a - R := rxModBase_index h.rxNext ha (by omega)
  have hda1 : s.rxModBase cfg (a % cfg.snFieldLength.mod + 1) = a + 1 - R :=
    rxModBase_of_le h.rxNext (by rw [mod_add_mod]) (by omega) (by omega)
  have hgap : a ≠ H → (s.hasGap (a % cfg.snFieldLength.mod) = true ↔ s.MissesSegment (a % cfg.snFieldLength.mod)) := by
    intro hne
    refine hasGap_iff h.infos ?_
    have := hnot.resolve_left hne
    unfold Full at this
    simpa using this
  unfold startReassembly StartsByRule
  rw [h.bases.2.2, hda, hda1]
  simp only [gt_iff_lt, Bool.or_eq_true, Bool.and_eq_true, decide_eq_true_eq]
  by_cases hend : a = H
  · constructor
    · rintro (hlt | ⟨heq, -⟩)
      · omega
      · omega
    · rintro (hlt | ⟨heq, -⟩)
      · omega
      · omega
  · rw [hgap hend]
    constructor
    · rintro (hlt | ⟨heq, hmiss⟩)
      · exact .inl (by omega)
      · exact .inr ⟨by omega, hmiss⟩
    · rintro (hlt | ⟨heq, hmiss⟩)
      · exact .inl (by omega)
      · exact .inr ⟨by omega, hmiss⟩

/-- where code and rule differ about stopping, the timer is started anyway -/
theorem stopReassembly_iff {T : ℕ} (h : Window InfoOk cfg R S H s) (hnext : ¬ Full cfg s R)
    (htop : R = H ∨ (H - 1) % cfg.snFieldLength.mod ∈ s.rxWindow.keys) (hTH : T ≤ H)
    (hT : R < T + cfg.snFieldLength.amWindowSize) (htrig : s.st.rxNextStatusTrigger = T % cfg.snFieldLength.mod) :
    (s.stopReassembly cfg = true ↔ StopsByRule cfg s s.st.rxNextStatusTrigger) ∨ R + 1 < H := by
  obtain ⟨hmod, hwin, -, -, hHW⟩ := h.bounds
  refine or_iff_not_imp_right.2 fun hsmall => ?_
  have hR1 : s.rxModBase cfg (s.st.rxNext + 1) = 1 := by
    rw [h.rxNext, rxModBase_of_le h.rxNext (by rw [mod_add_mod] : _ = (R + 1) % _) (by omega) (by omega)]
    omega
  rcases lt_trichotomy T R with hlt | rfl | hgt
  · -- the trigger is behind the window
    have hd : s.rxModBase cfg s.st.rxNextStatusTrigger = T + cfg.snFieldLength.mod - R :=
      modBase_index_of_lt h.rxNext (by rw [htrig, mod_mod]) hlt (by omega)
    refine iff_of_true ?_ (.inr (.inr ⟨by omega, fun heq => ?_⟩))
    · simp only [stopReassembly, insideRxWindow, Bool.or_eq_true, Bool.not_eq_true', decide_eq_false_iff_not]
      exact .inr (by omega)
    · have hedge : s.rxModBase cfg s.st.rxNextStatusTrigger = R + cfg.snFieldLength.amWindowSize - R := by
        rw [heq, h.rxNext, mod_add_mod]
        exact rxModBase_index h.rxNext (by omega) (by omega)
      omega
  · refine iff_of_true ?_ (.inl (by rw [htrig, h.rxNext]))
    simp [stopReassembly, htrig, h.rxNext]
  · -- the trigger is RX_Next + 1, which is RX_Next_Highest
    obtain rfl : T = R + 1 := by omega
    obtain rfl : H = R + 1 := by omega
    have hd : s.rxModBase cfg s.st.rxNextStatusTrigger = 1 := by
      rw [htrig, rxModBase_index h.rxNext (by omega) (by omega)]
      omega
    have hne : s.st.rxNextStatusTrigger ≠ s.st.rxNext := by
      rw [htrig, h.rxNext]
      intro heq
      have := eq_of_mod_eq heq (by omega) (by omega)
      omega
    have hmem : s.rxWindow.contains s.st.rxNext = true := by
      rw [contains_iff_mem_keys, h.rxNext]
      simpa using htop
    have hgap : s.hasGap s.st.rxNext = true ↔ s.MissesSegment s.st.rxNext := by
      refine hasGap_iff h.infos ?_
      rw [h.rxNext]
      unfold Full at hnext
      simpa using hnext
    have hcode : s.stopReassembly cfg = true ↔ ¬ s.hasGap s.st.rxNext = true := by
      simp only [stopReassembly, insideRxWindow, hd, hR1, hmem, hne, decide_false, Bool.false_or, decide_true,
        Bool.true_and, Bool.or_eq_true, Bool.not_eq_true', decide_eq_false_iff_not, Bool.not_eq_true]
      exact or_iff_left (by omega)
    rw [hcode, hgap]
    constructor
    · intro hno
      exact .inr (.inl ⟨by rw [htrig, h.rxNext, mod_add_mod], hno⟩)
    · rintro (heq | ⟨-, hno⟩ | ⟨hfar, -⟩)
      · exact absurd heq hne
      · exact hno
      · omega

/-- after a stored PDU the timer runs exactly if the rule says so -/
theorem running_iff_rule (h : Window InfoOk cfg R S H s) (hnext : ¬ Full cfg s R)
    (htop : R = H ∨ (H - 1) % cfg.snFieldLength.mod ∈ s.rxWindow.keys)
    (htimer : s.reassemblyTimer = true → ∃ T, T ≤ H ∧ R < T + cfg.snFieldLength.amWindowSize ∧
      s.st.rxNextStatusTrigger = T % cfg.snFieldLength.mod) : (s.updateReassemblyTimer cfg).reassemblyTimer = true ↔
      (s.reassemblyTimer = true ∧ ¬ StopsByRule cfg s s.st.rxNextStatusTrigger) ∨ StartsByRule cfg s s.st.rxNext := by
  have hRH : R ≤ H := h.next_le.trans h.status_le
  have hstart := startReassembly_iff h le_rfl hRH (.inr hnext)
  rw [← h.rxNext] at hstart
  rw [updateReassemblyTimer_timer, Bool.or_eq_true, hstart, Bool.and_eq_true, Bool.not_eq_true', ← Bool.not_eq_true]
  by_cases hrun : s.reassemblyTimer = true
  · obtain ⟨T, hTH, hT, htrig⟩ := htimer hrun
    rcases stopReassembly_iff h hnext htop hTH hT htrig with hstop | hbig
    · rw [hstop]
    · have hstarts : StartsByRule cfg s s.st.rxNext := by
        refine .inl ?_
        rw [h.bases.1, h.bases.2.2]
        omega
      exact iff_of_true (.inr hstarts) (.inr hstarts)
  · simp [hrun]

/-! ## Steps -/

/-- the window invariant, and what a timer that does not run means -/
structure Timed (cfg : RlcRxAmConfig) (R S H : ℕ) (s : RlcRxAmEntity) : Prop extends Inv InfoOk cfg R S H s where
  rested : s.reassemblyTimer = false → ¬ StartsByRule cfg s s.st.rxHighestStatus

/-- what is not to be started for RX_Next is not to be started for RX_Highest_Status -/
theorem not_starts_status (h : Window InfoOk cfg R S H s) (hno : ¬ StartsByRule cfg s s.st.rxNext) :
    ¬ StartsByRule cfg s s.st.rxHighestStatus := by
  have hRS := h.next_le
  obtain ⟨hdR, hdS, hdH⟩ := h.bases
  unfold StartsByRule at hno ⊢
  rw [hdR, hdH] at hno
  rw [hdS, hdH]
  rintro (hlt | ⟨heq, hmiss⟩)
  · exact hno (.inl (by omega))
  · have hSR : S = R := by
      by_contra hne
      exact hno (.inl (by omega))
    refine hno (.inr ⟨by omega, ?_⟩)
    rw [h.rxHighestStatus, hSR, ← h.rxNext] at hmiss
    exact hmiss

/-- storing an SDU info: the timer follows the rule -/
theorem Timed.store {i : ℕ} (allocOk : Bool) (h : Timed cfg R S H s) (hi : R ≤ i)
    (hi' : i < R + cfg.snFieldLength.amWindowSize) (hinfo : InfoOk info) :
    let t := (s.putInfo (i % cfg.snFieldLength.mod) info).afterStore cfg (i % cfg.snFieldLength.mod) allocOk
    (∃ R' S' H', Timed cfg R' S' H' t) ∧
      (t.reassemblyTimer = true ↔ (s.reassemblyTimer = true ∧ ¬ StopsByRule cfg t s.st.rxNextStatusTrigger) ∨
        StartsByRule cfg t t.st.rxNext) := by
  obtain ⟨R', S', hst, -⟩ := afterStore_spec allocOk h.toInv hi hi' hinfo
  obtain ⟨u, hwatch, heq⟩ := afterStore_eq cfg (s.putInfo (i % cfg.snFieldLength.mod) info)
    (i % cfg.snFieldLength.mod) allocOk
  have hinv := hst.inv
  dsimp only
  rw [heq] at hinv ⊢
  have hsame := updateReassemblyTimer_same cfg u
  have hw : Window InfoOk cfg R' S' (max H (i + 1)) u := hinv.toWindow.of_same hsame.symm
  have hnext : ¬ Full cfg u R' := by
    have := hinv.next
    unfold Full fullyReceived at this ⊢
    rw [← hsame.window]
    exact this
  have htop : R' = max H (i + 1) ∨ (max H (i + 1) - 1) % cfg.snFieldLength.mod ∈ u.rxWindow.keys := by
    rw [← hsame.window]
    exact hinv.top
  have hrun : u.reassemblyTimer = s.reassemblyTimer := congrArg Prod.fst hwatch
  have htrig : u.st.rxNextStatusTrigger = s.st.rxNextStatusTrigger := congrArg Prod.snd hwatch
  have hRW : R' ≤ R + cfg.snFieldLength.amWindowSize := by
    have h1 := hinv.next_le
    have h2 := hinv.status_le
    have h3 := h.highest_le
    omega
  have hrule := running_iff_rule hw hnext htop fun hon => by
    rw [hrun] at hon
    obtain ⟨T, hT, hTH, heqT⟩ := h.timer hon
    exact ⟨T, by omega, by omega, htrig.trans heqT⟩
  have hstarts := hsame.starts cfg u.st.rxNext
  rw [hsame.next, hsame.stops, hstarts, ← hrun, ← htrig]
  refine ⟨⟨R', S', _, hinv, fun hoff => ?_⟩, hrule⟩
  refine not_starts_status hinv.toWindow fun hon => ?_
  rw [hsame.next, hstarts] at hon
  rw [hrule.2 (.inr hon)] at hoff
  cases hoff

theorem placeSdu_timed (poolOk allocOk : Bool) (h : Timed cfg R S H s)
    (hsn : hdr.sn < cfg.snFieldLength.mod) (hnew : (⟨hdr.si, hdr.so, payload⟩ : RlcRxAmSduSegment).Ok)
    (hwrap : hdr.si ≠ .fullSdu → NoWrap (s.segmentsOf hdr.sn) ⟨hdr.si, hdr.so, payload⟩) :
    let r := s.placeSdu cfg hdr payload poolOk allocOk
    (∃ R' S' H', Timed cfg R' S' H' r.1) ∧
      (r.2 = true → (r.1.reassemblyTimer = true ↔
        (s.reassemblyTimer = true ∧ ¬ StopsByRule cfg r.1 s.st.rxNextStatusTrigger) ∨
          StartsByRule cfg r.1 r.1.st.rxNext)) ∧
      (r.2 = false → r.1 = s) := by
  rcases placeSdu_stored poolOk allocOk h.toWindow hsn hnew hwrap with heq | ⟨i, info, hi, hi', -, hinfo, heq⟩ <;>
    rw [heq]
  · exact ⟨⟨R, S, H, h⟩, fun hst => (nomatch hst), fun _ => rfl⟩
  · obtain ⟨ht, hrule⟩ := h.store allocOk hi hi' hinfo
    exact ⟨ht, fun _ => hrule, fun hst => (nomatch hst)⟩

theorem SameWindow.of_eq (hst : t.st = s.st) (hw : t.rxWindow = s.rxWindow) : SameWindow s t :=
  ⟨hw, by rw [hst], by rw [hst], by rw [hst]⟩

theorem Timed.congr (h : Timed cfg R S H s) (hst : t.st = s.st) (hw : t.rxWindow = s.rxWindow)
    (ht : t.reassemblyTimer = s.reassemblyTimer) : Timed cfg R S H t := by
  refine ⟨h.toInv.congr hst hw ht, fun hoff => ?_⟩
  rw [(SameWindow.of_eq hst hw).starts, hst]
  rw [ht] at hoff
  exact h.rested hoff

/-- a step that is no expiry and places no PDU -/
theorem runsByRule_of_not_places {op : Op} (hop : op ≠ .reassemblyExpiry) (hno : ¬ Places cfg s op) :
    RunsByRule cfg s op t ↔ s.reassemblyTimer = true := by
  simp [RunsByRule, hop, hno]

theorem handlePdu_timed {poolOk allocOk : Bool} (h : Timed cfg R S H s)
    (hfit : FitsStep cfg s (.handlePdu buf poolOk allocOk)) :
    (∃ R' S' H', Timed cfg R' S' H' (s.handlePdu cfg buf poolOk allocOk).1) ∧
      ((s.handlePdu cfg buf poolOk allocOk).1.reassemblyTimer = true ↔
        RunsByRule cfg s (.handlePdu buf poolOk allocOk) (s.handlePdu cfg buf poolOk allocOk).1) := by
  rcases handlePdu_cases buf poolOk allocOk with ⟨heq, hnone⟩ | ⟨hdr, payload, hread, hdc, hpay, heq⟩
  · have hno : ¬ Places cfg s (.handlePdu buf poolOk allocOk) := by
      rintro ⟨hdr, payload, hread, hdc, hne, -⟩
      exact hne (hnone hdr payload hread hdc)
    rw [heq, runsByRule_of_not_places (by simp) hno]
    exact ⟨⟨R, S, H, h⟩, Iff.rfl⟩
  · obtain ⟨hfits, hsize, -⟩ := readDataPduHeader_fits hread
    obtain ⟨⟨R', S', H', ht⟩, hrule, hdrop⟩ := placeSdu_timed poolOk allocOk h (hsize ▸ hfits.sn) ⟨hpay, hfits.so⟩
      (hfit hdr payload hread hdc)
    have hplaces : Places cfg s (.handlePdu buf poolOk allocOk) ↔
        (s.placeSdu cfg hdr payload poolOk allocOk).2 = true := by
      constructor
      · rintro ⟨hdr', payload', hread', -, -, hst⟩
        rw [hread] at hread'
        cases hread'
        exact hst
      · exact fun hst => ⟨hdr, payload, hread, hdc, List.length_pos_iff.1 hpay, hst⟩
    obtain ⟨hst, htimer⟩ := postProcess_same cfg (s.placeSdu cfg hdr payload poolOk allocOk).1
      (s.placeSdu cfg hdr payload poolOk allocOk).2 hdr.p
    rw [heq]
    generalize s.placeSdu cfg hdr payload poolOk allocOk = r at *
    have hw : (r.1.postProcess cfg r.2 hdr.p).rxWindow = r.1.rxWindow := postProcess_rxWindow _ _
    refine ⟨⟨R', S', H', ht.congr hst hw htimer⟩, ?_⟩
    rw [htimer]
    cases hr : r.2 with
    | false =>
      rw [runsByRule_of_not_places (by simp) (by rw [hplaces, hr]; exact Bool.false_ne_true), hdrop hr]
    | true =>
      have hsame := SameWindow.of_eq hst hw
      rw [hr] at hsame
      have hp : Places cfg s (.handlePdu buf poolOk allocOk) := hplaces.2 hr
      simp only [RunsByRule, reduceCtorEq, if_false, hp, true_and]
      rw [hsame.stops, hsame.starts, hsame.next]
      exact hrule hr

theorem SameWindow.start (h : SameWindow s t) (sn : ℕ) : t.startReassembly cfg sn = s.startReassembly cfg sn := by
  simp only [startReassembly, h.rxModBase, h.hasGap, h.highest]

theorem report_same (cfg : RlcRxAmConfig) (s : RlcRxAmEntity) :
    SameWindow s { s.refreshStatusReport cfg with doStatus := true } := ⟨rfl, rfl, rfl, rfl⟩

theorem restartReassembly_timer (sn : ℕ) (hoff : s.reassemblyTimer = false) :
    (s.restartReassembly cfg sn).reassemblyTimer = s.startReassembly cfg sn := by
  unfold restartReassembly
  cases hstart : s.startReassembly cfg sn with
  | false => simp [hoff]
  | true => simp

theorem report_timer (s : RlcRxAmEntity) :
    ({ s.refreshStatusReport cfg with doStatus := true } : RlcRxAmEntity).reassemblyTimer = s.reassemblyTimer := rfl

theorem restart_report_timer (hoff : u.reassemblyTimer = false) (hsn : u.st.rxHighestStatus = sn)
    (ht : t = { (u.restartReassembly cfg sn).refreshStatusReport cfg with doStatus := true }) :
    t.reassemblyTimer = t.startReassembly cfg t.st.rxHighestStatus := by
  have hsame : SameWindow u t := by
    rw [ht]
    exact (restartReassembly_same cfg u sn).trans (report_same cfg _)
  calc t.reassemblyTimer = (u.restartReassembly cfg sn).reassemblyTimer :=
        (congrArg RlcRxAmEntity.reassemblyTimer ht).trans (report_timer _)
    _ = u.startReassembly cfg sn := restartReassembly_timer sn hoff
    _ = t.startReassembly cfg t.st.rxHighestStatus := by rw [hsame.start, hsame.status, hsn]

/-- after an expiry the timer runs if it has been started for the new RX_Highest_Status -/
theorem onExpiredReassemblyTimer_timer (h : Inv InfoOk cfg R S H s) (hrun : s.reassemblyTimer = true) :
    ({ s with reassemblyTimer := false }.onExpiredReassemblyTimer cfg).reassemblyTimer =
      ({ s with reassemblyTimer := false }.onExpiredReassemblyTimer cfg).startReassembly cfg
        ({ s with reassemblyTimer := false }.onExpiredReassemblyTimer cfg).st.rxHighestStatus := by
  obtain ⟨T, hT, hTH, htrig⟩ := h.timer hrun
  have hw : Window InfoOk cfg R S H { s with reassemblyTimer := false } := h.toWindow.of_same ⟨rfl, rfl, rfl, rfl⟩
  obtain ⟨b, -, -, -, heq⟩ := onExpiredReassemblyTimer_eq hw rfl hT hTH htrig
  exact restart_report_timer rfl rfl heq

theorem expiry_timed (h : Timed cfg R S H s) (hrun : s.reassemblyTimer = true) :
    (∃ R' S' H', Timed cfg R' S' H' ({ s with reassemblyTimer := false }.onExpiredReassemblyTimer cfg)) ∧
      (({ s with reassemblyTimer := false }.onExpiredReassemblyTimer cfg).reassemblyTimer = true ↔
        StartsByRule cfg ({ s with reassemblyTimer := false }.onExpiredReassemblyTimer cfg)
          ({ s with reassemblyTimer := false }.onExpiredReassemblyTimer cfg).st.rxHighestStatus) := by
  obtain ⟨S', t, ht, -, -, -, heq, -⟩ := reassemblyExpiry_inv h.toInv hrun
  have hinv : Inv InfoOk cfg R S' H ({ s with reassemblyTimer := false }.onExpiredReassemblyTimer cfg) := by
    rw [heq]
    exact ht.refresh.congr rfl rfl rfl
  have htimer := onExpiredReassemblyTimer_timer h.toInv hrun
  generalize ({ s with reassemblyTimer := false } : RlcRxAmEntity).onExpiredReassemblyTimer cfg = u at hinv htimer ⊢
  have hstart := startReassembly_iff hinv.toWindow hinv.next_le hinv.status_le hinv.status
  rw [← hinv.rxHighestStatus, ← htimer] at hstart
  refine ⟨⟨R, S', H, hinv, fun hoff hon => ?_⟩, hstart⟩
  rw [hstart.2 hon] at hoff
  cases hoff

theorem step_timed (op : Op) (h : Timed cfg R S H s) (hfit : FitsStep cfg s op) :
    (∃ R' S' H', Timed cfg R' S' H' (s.step cfg op)) ∧
      ((s.step cfg op).reassemblyTimer = true ↔ RunsByRule cfg s op (s.step cfg op)) := by
  cases op with
  | handlePdu buf poolOk allocOk => exact handlePdu_timed h hfit
  | reassemblyExpiry =>
    unfold step RunsByRule
    by_cases hrun : s.reassemblyTimer = true
    · obtain ⟨ht, hrule⟩ := expiry_timed h hrun
      rw [if_pos hrun, if_pos rfl, hrule]
      exact ⟨ht, (and_iff_right hrun).symm⟩
    · rw [if_neg hrun, if_pos rfl]
      exact ⟨⟨R, S, H, h⟩, iff_of_false hrun fun hboth => hrun hboth.1⟩
  | statusProhibitExpiry =>
    rw [runsByRule_of_not_places (by simp) id]
    exact ⟨⟨R, S, H, h.congr rfl rfl rfl⟩, Iff.rfl⟩
  | getStatusPdu =>
    rw [runsByRule_of_not_places (by simp) id]
    unfold step
    dsimp only
    split_ifs
    · exact ⟨⟨R, S, H, h.congr rfl rfl rfl⟩, Iff.rfl⟩
    · exact ⟨⟨R, S, H, h⟩, Iff.rfl⟩

theorem init_timed (cfg : RlcRxAmConfig) : Timed cfg 0 0 0 (init cfg) := by
  refine ⟨init_inv _ cfg, fun _ => ?_⟩
  simp [StartsByRule, init]

/-- nothing is missing below RX_Next_Highest beyond RX_Highest_Status: no SN behind RX_Highest_Status is below
RX_Next_Highest, and of RX_Highest_Status itself no byte segment is missing before its last received byte -/
def NothingMissing (cfg : RlcRxAmConfig) (s : RlcRxAmEntity) : Prop :=
  (∀ sn, s.rxModBase cfg s.st.rxHighestStatus < s.rxModBase cfg sn →
    ¬ s.rxModBase cfg sn < s.rxModBase cfg s.st.rxNextHighest) ∧
  (s.rxModBase cfg s.st.rxHighestStatus < s.rxModBase cfg s.st.rxNextHighest →
    ¬ s.MissesSegment s.st.rxHighestStatus)

theorem nothingMissing_of_not_starts (h : ¬ StartsByRule cfg s s.st.rxHighestStatus) : NothingMissing cfg s := by
  refine ⟨fun sn hlt hlt' => h (.inl (by omega)), fun hlt hmiss => h ?_⟩
  by_cases heq : s.rxModBase cfg s.st.rxNextHighest = s.rxModBase cfg s.st.rxHighestStatus + 1
  · exact .inr ⟨heq, hmiss⟩
  · exact .inl (by omega)

/-- in every run that never has to keep an offset of 2^16 or more, t-Reassembly runs exactly if the rule says so, and
always while data is missing below RX_Next_Highest beyond RX_Highest_Status -/
theorem reassemblyTimer_by_rule (cfg : RlcRxAmConfig) (ops : List Op) (op : Op)
    (h : Machine.Always (step cfg) (FitsStep cfg) (init cfg) ops)
    (hop : FitsStep cfg (Machine.run (step cfg) (init cfg) ops) op) :
    let s := Machine.run (step cfg) (init cfg) ops
    ((s.step cfg op).reassemblyTimer = true ↔ RunsByRule cfg s op (s.step cfg op)) ∧
      (¬ NothingMissing cfg (s.step cfg op) → (s.step cfg op).reassemblyTimer = true) := by
  have hrun : ∃ R S H, Timed cfg R S H (run (step cfg) (init cfg) ops) := by
    refine run_inv (I := fun s => ∃ R S H, Timed cfg R S H s) ?_ (init cfg) ops ⟨0, 0, 0, init_timed cfg⟩ h
    rintro s o ⟨R, S, H, hs⟩ hfit
    exact (step_timed o hs hfit).1
  obtain ⟨R, S, H, hs⟩ := hrun
  obtain ⟨⟨R', S', H', ht⟩, hrule⟩ := step_timed op hs hop
  refine ⟨hrule, fun hmiss => ?_⟩
  by_contra hoff
  exact hmiss (nothingMissing_of_not_starts (ht.rested (by simpa using hoff)))

/-- SN 1 before SN 0, then the expiry -/
theorem reassemblyTimer_after_loss :
    let cfg : RlcRxAmConfig := ⟨.size12bits, 35, 0, none⟩
    let s := Machine.run (step cfg) (init cfg) [.handlePdu [0x80, 0x01, 7] true true]
    ((s.step cfg .reassemblyExpiry).reassemblyTimer = true ↔
        RunsByRule cfg s .reassemblyExpiry (s.step cfg .reassemblyExpiry)) ∧
      (¬ NothingMissing cfg (s.step cfg .reassemblyExpiry) → (s.step cfg .reassemblyExpiry).reassemblyTimer = true) :=
  reassemblyTimer_by_rule ⟨.size12bits, 35, 0, none⟩ [.handlePdu [0x80, 0x01, 7] true true] .reassemblyExpiry
    ⟨fitsStep_of_short (by decide +kernel), trivial⟩ trivial

/-! ## A truncated offset looks like a gap -/

/-- segments of SN 0 are all that is stored, and do not complete it -/
structure HoldsFirst (segments : List RlcRxAmSduSegment) (s : RlcRxAmEntity) : Prop where
  next : s.st.rxNext = 0
  highest : s.st.rxNextHighest ≤ 1
  segs : s.segmentsOf 0 = segments
  not_full : s.fullyReceived 0 = false

theorem placeSdu_segment (allocOk : Bool)
    (hin : s.insideRxWindow cfg hdr.sn = true) (hnot : s.fullyReceived hdr.sn = false) (hsi : hdr.si ≠ .fullSdu)
    (hst : storeLoop [] (s.segmentsOf hdr.sn) ⟨hdr.si, hdr.so, payload⟩ = (true, segments)) :
    s.placeSdu cfg hdr payload true allocOk =
      ((s.putInfo hdr.sn (segmentInfo segments)).afterStore cfg hdr.sn allocOk, true) := by
  obtain ⟨info, hobt⟩ : ∃ info, s.obtainInfo hdr.sn true = some info := by
    unfold obtainInfo
    split
    · exact ⟨_, rfl⟩
    · exact ⟨_, rfl⟩
  unfold placeSdu
  rw [hin, hnot]
  simp only [Bool.not_true, Bool.false_eq_true, if_false, hsi, handleSegmentDataSdu, hobt, obtainInfo_segments hobt,
    hst, if_true]
  rfl

theorem find?_putInfo_self (s : RlcRxAmEntity) (sn : ℕ) (info : RlcRxAmSduInfo) :
    (s.putInfo sn info).rxWindow.find? sn = some info := by
  unfold putInfo
  split_ifs with hc
  · obtain ⟨v, hv⟩ := mem_keys.1 (contains_iff_mem_keys.1 hc)
    rw [find?_modify, if_pos rfl, hv]
    rfl
  · rw [find?_overwrite, if_pos rfl]

theorem flags_of_find (h : s.rxWindow.find? sn = some (segmentInfo segments)) :
    s.segmentsOf sn = segments ∧ s.fullyReceived sn = (inventoryLoop 0 segments).2 ∧
      s.hasGap sn = (inventoryLoop 0 segments).1 := by
  simp [segmentsOf, fullyReceived, hasGap, h, segmentInfo]

/-- an SDU that is not complete moves RX_Next_Highest and the timer only -/
theorem afterStore_incomplete (allocOk : Bool) (hf : s.rxWindow.find? sn = some info)
    (hno : info.fullyReceived = false) :
    s.afterStore cfg sn allocOk = (s.raiseNextHighest cfg sn).updateReassemblyTimer cfg := by
  have hf' : (s.raiseNextHighest cfg sn).rxWindow.find? sn = some info := by
    unfold raiseNextHighest
    split_ifs
    · exact hf
    · exact hf
  unfold afterStore
  generalize s.raiseNextHighest cfg sn = t at hf' ⊢
  dsimp only
  rw [hf']
  dsimp only
  rw [hno, if_neg Bool.false_ne_true]

theorem rxModBase_of_next_zero {k : ℕ} (hmod : 2 ≤ cfg.snFieldLength.mod) (hs : s.st.rxNext = 0) (hk : k ≤ 1) :
    s.rxModBase cfg k = k := by
  have hk32 : (k + 2 ^ 32 - 0) % 2 ^ 32 = k := by omega
  unfold rxModBase modBase sub32
  rw [hs, hk32]
  exact mod_eq_of_lt (by omega)

/-- a further segment of SN 0 that does not complete it, while the timer does not run -/
theorem HoldsFirst.store (h : HoldsFirst segments s)
    (hmod : 2 ≤ cfg.snFieldLength.mod) (hfull : (inventoryLoop 0 segments').2 = false)
    (hoff : s.reassemblyTimer = false) :
    let t := (s.putInfo 0 (segmentInfo segments')).afterStore cfg 0 true
    HoldsFirst segments' t ∧ t.st.rxNextHighest = 1 ∧ t.reassemblyTimer = (inventoryLoop 0 segments').1 := by
  have hf := find?_putInfo_self s 0 (segmentInfo segments')
  have hst : (s.putInfo 0 (segmentInfo segments')).st = s.st := rfl
  have htimer : (s.putInfo 0 (segmentInfo segments')).reassemblyTimer = false := hoff
  rw [afterStore_incomplete true hf hfull]
  generalize s.putInfo 0 (segmentInfo segments') = u at hf hst htimer ⊢
  have hu0 : u.st.rxNext = 0 := by rw [hst, h.next]
  have huH : u.st.rxNextHighest ≤ 1 := by
    rw [hst]
    exact h.highest
  -- RX_Next_Highest becomes 1
  have hraise : (u.raiseNextHighest cfg 0).st.rxNext = 0 ∧ (u.raiseNextHighest cfg 0).st.rxNextHighest = 1 ∧
      (u.raiseNextHighest cfg 0).rxWindow = u.rxWindow ∧ (u.raiseNextHighest cfg 0).reassemblyTimer = false := by
    rw [raiseNextHighest, rxModBase_of_next_zero hmod hu0 (zero_le 1), rxModBase_of_next_zero hmod hu0 huH]
    split_ifs with hge
    · exact ⟨hu0, mod_eq_of_lt (by omega), rfl, htimer⟩
    · exact ⟨hu0, by omega, rfl, htimer⟩
  generalize u.raiseNextHighest cfg 0 = v at hraise ⊢
  obtain ⟨hv0, hvH, hvw, hvt⟩ := hraise
  have hsame := updateReassemblyTimer_same cfg v
  have hfind : (v.updateReassemblyTimer cfg).rxWindow.find? 0 = some (segmentInfo segments') := by
    rw [hsame.window, hvw, hf]
  have hgap : v.hasGap 0 = (inventoryLoop 0 segments').1 := (flags_of_find (by rw [hvw, hf])).2.2
  refine ⟨⟨hsame.next.trans hv0, ?_, ?_, ?_⟩, hsame.highest.trans hvH, ?_⟩
  · rw [hsame.highest, hvH]
  · exact (flags_of_find hfind).1
  · rw [(flags_of_find hfind).2.1, hfull]
  · rw [updateReassemblyTimer_timer, hvt, startReassembly, hv0, hvH, rxModBase_of_next_zero hmod hv0 le_rfl, hgap]
    simp

theorem HoldsFirst.congr (h : HoldsFirst segments s) (hst : t.st = s.st)
    (hw : t.rxWindow = s.rxWindow) : HoldsFirst segments t := by
  obtain ⟨hnext, hH, hsegs, hnot⟩ := h
  refine ⟨by rw [hst, hnext], by rw [hst]; exact hH, ?_, ?_⟩
  · simpa only [segmentsOf, hw] using hsegs
  · simpa only [fullyReceived, hw] using hnot

/-- a PDU with a further segment of SN 0 -/
theorem HoldsFirst.step (h : HoldsFirst segments s) (hmod : 2 ≤ cfg.snFieldLength.mod)
    (hread : rlcAmReadDataPduHeader cfg.snFieldLength buf = some (hdr, payload)) (hdc : hdr.dc = .data)
    (hpay : payload ≠ []) (hsn : hdr.sn = 0) (hsi : hdr.si ≠ .fullSdu)
    (hst : storeLoop [] segments ⟨hdr.si, hdr.so, payload⟩ = (true, segments'))
    (hfull : (inventoryLoop 0 segments').2 = false) (hoff : s.reassemblyTimer = false) :
    let t := s.step cfg (.handlePdu buf true true)
    HoldsFirst segments' t ∧ t.st.rxNextHighest = 1 ∧ t.reassemblyTimer = (inventoryLoop 0 segments').1 ∧
      Places cfg s (.handlePdu buf true true) := by
  have hin : s.insideRxWindow cfg hdr.sn = true := by
    rw [insideRxWindow, hsn, rxModBase_of_next_zero hmod h.next (zero_le 1), decide_eq_true_eq]
    have := amWindowSize_ge cfg.snFieldLength
    omega
  have hplace := placeSdu_segment true hin (hsn ▸ h.not_full) hsi (by rw [hsn, h.segs]; exact hst)
  rw [hsn] at hplace
  obtain ⟨hheld, hH, htimer⟩ := h.store hmod hfull hoff
  have hstep : s.step cfg (.handlePdu buf true true) =
      ((s.putInfo 0 (segmentInfo segments')).afterStore cfg 0 true).postProcess cfg true hdr.p := by
    rcases handlePdu_cases buf true true with ⟨-, hnone⟩ | ⟨hdr', payload', hread', -, -, heq⟩
    · exact absurd (hnone hdr payload hread hdc) hpay
    · rw [hread] at hread'
      cases hread'
      rw [hplace] at heq
      exact heq
  have hplaces : Places cfg s (.handlePdu buf true true) := ⟨hdr, payload, hread, hdc, hpay, by rw [hplace]⟩
  rw [hstep]
  generalize (s.putInfo 0 (segmentInfo segments')).afterStore cfg 0 true = u at hheld hH htimer ⊢
  obtain ⟨hst', ht'⟩ := postProcess_same cfg u true hdr.p
  have hw' : (u.postProcess cfg true hdr.p).rxWindow = u.rxWindow := postProcess_rxWindow _ _
  exact ⟨hheld.congr hst' hw', by rw [hst', hH], ht'.trans htimer, hplaces⟩

theorem read_first_12bits (h : payload ≠ []) : rlcAmReadDataPduHeader .size12bits (0x90 :: 0x00 :: payload) =
      some (⟨.data, false, .firstSegment, .size12bits, 0, 0⟩, payload) := by
  rw [rlcAmReadDataPduHeader, if_neg (by simp [rlcAmPduHeaderMinSize]; omega)]
  rfl

theorem read_middle_12bits (payload : Bytes) :
    rlcAmReadDataPduHeader .size12bits (0xb0 :: 0x00 :: 0xff :: 0xfb :: payload) =
      some (⟨.data, false, .middleSegment, .size12bits, 0, 65531⟩, payload) := by
  rw [rlcAmReadDataPduHeader, if_neg (by simp [rlcAmPduHeaderMinSize])]
  rfl

section
variable {p1 p2 p3 : Bytes}

/-- the first 65531 bytes of an SDU -/
def firstBytes (p : Bytes) : RlcRxAmSduSegment := ⟨.firstSegment, 0, p⟩

/-- bytes from 65531 on -/
def nextBytes (p : Bytes) : RlcRxAmSduSegment := ⟨.middleSegment, 65531, p⟩

theorem storeLoop_next (h1 : p1.length = 65531) :
    storeLoop [] [firstBytes p1] (nextBytes p2) = (true, [firstBytes p1, nextBytes p2]) := by
  simp [storeLoop, insertSegment, lastByte, firstBytes, nextBytes, h1]

section

variable (h1 : p1.length = 65531) (h2 : p2.length = 100) (h3 : p3.length = 101)
include h1 h2 h3

/-- the byte behind the stored ones is kept at offset 95 -/
theorem storeLoop_wrapped : storeLoop [] [firstBytes p1, nextBytes p2] (nextBytes p3) =
      (true, [firstBytes p1, ⟨.middleSegment, 95, p3.drop 100⟩, nextBytes p2]) := by
  simp [storeLoop, insertSegment, lastByte, firstBytes, nextBytes, h1, h2, h3]

theorem covers_wrapped (b : ℕ) :
    Covers [firstBytes p1, ⟨.middleSegment, 95, p3.drop 100⟩, nextBytes p2] b ↔ b ≤ 65630 := by
  simp only [covers_cons, covers_nil, RlcRxAmSduSegment.Has, lastByte, firstBytes, nextBytes, h1, h2,
    List.length_drop, h3, or_false]
  omega

/-- SN 0 in PDUs whose payloads end at 65530, 65630 and 65631: the last one starts the timer although no byte is
missing, because the byte 65631 is stored at offset 95 -/
theorem wrapped_run :
    let cfg : RlcRxAmConfig := ⟨.size12bits, 35, 0, none⟩
    let s := run (step cfg) (init cfg) [.handlePdu (0x90 :: 0x00 :: p1) true true,
      .handlePdu (0xb0 :: 0x00 :: 0xff :: 0xfb :: p2) true true]
    let op : Op := .handlePdu (0xb0 :: 0x00 :: 0xff :: 0xfb :: p3) true true
    (s.step cfg op).reassemblyTimer = true ∧ ¬ (s.step cfg op).MissesSegment 0 ∧
      ¬ RunsByRule cfg s op (s.step cfg op) := by
  dsimp only [run_cons, run_nil]
  have hne : ∀ {p : Bytes} {n : ℕ}, p.length = n + 1 → p ≠ [] := fun h hnil => by simp [hnil] at h
  have hmod : 2 ≤ (RlcRxAmConfig.mk .size12bits 35 0 none).snFieldLength.mod := by decide
  have hinit : HoldsFirst [] (init ⟨.size12bits, 35, 0, none⟩) := ⟨rfl, zero_le 1, rfl, rfl⟩
  obtain ⟨hA, -, htA, -⟩ := hinit.step hmod (read_first_12bits (hne h1)) rfl (hne h1) rfl (by decide)
    (show storeLoop [] [] (firstBytes p1) = (true, [firstBytes p1]) from rfl) rfl rfl
  obtain ⟨hB, -, htB, -⟩ := hA.step hmod (read_middle_12bits p2) rfl (hne h2) rfl (by decide) (storeLoop_next h1)
    (by simp [inventoryLoop, firstBytes, nextBytes, h1]) htA
  have hoff : (inventoryLoop 0 [firstBytes p1, nextBytes p2]).1 = false := by
    simp [inventoryLoop, firstBytes, nextBytes, h1]
  have hgap : inventoryLoop 0 [firstBytes p1, ⟨.middleSegment, 95, p3.drop 100⟩, nextBytes p2] = (true, false) := by
    simp [inventoryLoop, firstBytes, h1]
  obtain ⟨hC, hH, htC, -⟩ := hB.step hmod (read_middle_12bits p3) rfl (hne h3) rfl (by decide)
    (storeLoop_wrapped h1 h2 h3) (by rw [hgap]) (htB.trans hoff)
  rw [hoff] at htB
  rw [hgap] at htC
  generalize ((init ⟨.size12bits, 35, 0, none⟩).step ⟨.size12bits, 35, 0, none⟩
    (.handlePdu (0x90 :: 0x00 :: p1) true true)).step ⟨.size12bits, 35, 0, none⟩
    (.handlePdu (0xb0 :: 0x00 :: 0xff :: 0xfb :: p2) true true) = s at htB hC hH htC ⊢
  generalize s.step ⟨.size12bits, 35, 0, none⟩ (.handlePdu (0xb0 :: 0x00 :: 0xff :: 0xfb :: p3) true true) = t
    at hC hH htC ⊢
  have hmiss : ¬ t.MissesSegment 0 := by
    rintro ⟨b, b', hlt, hcov, hno⟩
    rw [hC.segs, covers_wrapped h1 h2 h3] at hcov hno
    omega
  refine ⟨htC, hmiss, ?_⟩
  unfold RunsByRule StartsByRule
  rw [htB, hC.next, hH, rxModBase_of_next_zero hmod hC.next (zero_le 1), rxModBase_of_next_zero hmod hC.next le_rfl]
  simp [hmiss]

end

end

/-- a PDU of SN 0 with one byte more than the one before it starts the timer although no byte is missing -/
theorem wrapped_offset_starts_timer :
    let cfg : RlcRxAmConfig := ⟨.size12bits, 35, 0, none⟩
    let s := Machine.run (step cfg) (init cfg) [.handlePdu (0x90 :: 0x00 :: List.replicate 65531 0) true true,
      .handlePdu (0xb0 :: 0x00 :: 0xff :: 0xfb :: List.replicate 100 0) true true]
    let op : Op := .handlePdu (0xb0 :: 0x00 :: 0xff :: 0xfb :: List.replicate 101 0) true true
    (s.step cfg op).reassemblyTimer = true ∧ ¬ (s.step cfg op).MissesSegment 0 ∧
      ¬ RunsByRule cfg s op (s.step cfg op) :=
  wrapped_run List.length_replicate List.length_replicate List.length_replicate

end RlcRxAmEntity

end OcuduRan.Rlc
