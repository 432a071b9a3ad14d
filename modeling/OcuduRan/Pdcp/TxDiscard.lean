/-
The discard timer of the transmitting PDCP entity: one timer for all SDUs of the window, armed for the oldest.

`discard_on_time`: with a discard timer of D ticks, in every run of steps that meet the conditions below, the callback
discards an SDU only when D ticks have passed since it arrived, and while there are SDUs the timer runs and expires at
most one tick after the oldest is due.

  window        the steps are good for the window (`GoodStep`).
  next batch    when the callback discards the SDUs of one tick, there is no other SDU, or the next one is due within a
                tick: discard_callback arms the timer for the SDUs it has just discarded, so it expires in the next
                tick (`next_sdu_discarded_early`).
  reports       a status report reports all SDUs of the window as received, or not all of those that arrived in the tick
                of the oldest one: discard_pdu does not arm the timer again.
  idle          an SDU that finds an empty window finds the timer stopped. A report that empties the window, an SDU
                whose copy fails and a re-establishment that clears the window leave the timer running.
  callbacks     run before the next tick, and before a notification arms the timer again.
  ticks         the 32-bit tick counter does not wrap between now and the tick in which an SDU is due, when the timer is
                armed again.
-/
import OcuduRan.Pdcp.TxWindow

namespace OcuduRan.Pdcp.PdcpEntityTx

open TickTimer SameDiscard PdcpEntityTx SameWindow Option PdcpTxWindow

open Rlc (Bytes PdcpSnSize)

variable {κ : Type} {setup : PdcpTxSetup κ} {s s' : PdcpEntityTx κ} {D : ℕ} {c a now b : ℕ}
  (hd : setup.cfg.discardTimer.bind PdcpDiscardTimer.toMs = some D)

theorem bind_ne_none {o : Option PdcpDiscardTimer} (h : o.bind PdcpDiscardTimer.toMs = some D) : o ≠ none := by
  rintro rfl
  cases h

/-! ## Arrival ticks -/

/-- tick in which the SDU with this COUNT arrived -/
def arrival (s : PdcpEntityTx κ) (c : ℕ) : Option ℕ := (s.txWindow.find? c).bind (·.sduInfo.tickPointOfArrival)

theorem arrival_eq_some_iff : s.arrival c = some a ↔
    ∃ elem, s.txWindow.find? c = some elem ∧ elem.sduInfo.tickPointOfArrival = some a := bind_eq_some_iff

theorem mem_keys_of_arrival (h : s.arrival c = some a) : c ∈ s.txWindow.keys := by
  obtain ⟨elem, he, -⟩ := arrival_eq_some_iff.1 h
  exact mem_keys_of_find? he

include hd in
theorem WindowInv.exists_arrival (h : WindowInv setup s) (hc : c ∈ s.txWindow.keys) : ∃ a, s.arrival c = some a := by
  obtain ⟨elem, he⟩ := mem_keys.1 hc
  obtain ⟨a, ha⟩ := ne_none_iff_exists'.1 (h.ticks (by rw [hd]; simp) c elem he)
  exact ⟨a, arrival_eq_some_iff.2 ⟨elem, he, ha⟩⟩

theorem WindowInv.keys_eq_empty (h : WindowInv setup s) (hack : s.st.txNextAck ∉ s.txWindow.keys) :
    s.txWindow.keys = ∅ := by
  have heq := h.oldest.resolve_right hack
  refine Finset.eq_empty_of_forall_notMem fun c hc => ?_
  have hr := h.range c hc
  omega

theorem SameWindow.arrival (h : SameWindow s s') (c : ℕ) : s'.arrival c = s.arrival c := by
  have hc := congrArg (bind · (·.tickPointOfArrival)) (h.sdus c)
  simpa [PdcpEntityTx.arrival, bind_map, Function.comp_def] using hc

/-! ## The timer -/

/-- armed for an SDU that arrived in tick `a` -/
structure Armed (t : TickTimer) (now D a : ℕ) : Prop where
  running : t.running = true
  early : a + D ≤ t.expiry
  late : t.expiry ≤ a + D + 1
  ahead : now ≤ t.expiry
  due : t.due = true ↔ now = t.expiry

theorem Armed.run (h : now ≤ a + D) : Armed (run now (a + D - now)) now D a := by
  constructor
  · rfl
  · rw [run_expiry]
    omega
  · rw [run_expiry]
    omega
  · rw [run_expiry]
    omega
  · simp only [run_due, run_expiry, Bool.false_eq_true, false_iff]
    omega

theorem Armed.tick {t : TickTimer} (h : Armed t now D a) (hdue : t.due = false) :
    Armed (t.tick (now + 1)) (now + 1) D a := by
  have hne : now ≠ t.expiry := fun heq => absurd (h.due.2 heq) (by simp [hdue])
  have hlt : now < t.expiry := lt_of_le_of_ne h.ahead hne
  refine ⟨by simpa using h.running, by simpa using h.early, by simpa using h.late, by simpa using hlt, ?_⟩
  unfold TickTimer.tick
  by_cases heq : t.expiry = now + 1
  · simp [h.running, heq]
  · simp [heq, hdue, Ne.symm heq]

/-- the tick counter does not wrap before the SDUs of the window are due -/
def TicksOk (D : ℕ) (s : PdcpEntityTx κ) : Prop := ∀ c a, s.arrival c = some a → (a + D) / 2 ^ 32 = s.now / 2 ^ 32

theorem computeNextDiscardTimeout_eq (h : (a + D) / 2 ^ 32 = s.now / 2 ^ 32) :
    s.computeNextDiscardTimeout D a = a + D - s.now := by
  unfold computeNextDiscardTimeout
  omega

theorem toMs_bound {timer : PdcpDiscardTimer} (h : timer.toMs = some D) : 0 < D ∧ D ≤ 1500 := by
  cases timer <;> cases h <;> decide

/-! ## Invariant -/

structure DiscardInv (setup : PdcpTxSetup κ) (D : ℕ) (s : PdcpEntityTx κ) : Prop where
  window : WindowInv setup s
  active : s.stopped = false
  arrived : ∀ c a, s.arrival c = some a → a ≤ s.now
  sorted : ∀ c c' a a', s.arrival c = some a → s.arrival c' = some a' → c ≤ c' → a ≤ a'
  armed : ∀ a, s.arrival s.st.txNextAck = some a → Armed s.discardTimer s.now D a

theorem DiscardInv.congr (h : DiscardInv setup D s) (hs : SameDiscard s s') : DiscardInv setup D s' where
  window := h.window.congr hs.window
  active := hs.stopped.trans h.active
  arrived := by
    intro c a ha
    rw [hs.now]
    exact h.arrived c a (by rw [← hs.window.arrival]; exact ha)
  sorted := by
    intro c c' a a' ha ha'
    rw [hs.window.arrival] at ha ha'
    exact h.sorted c c' a a' ha ha'
  armed := by
    rw [hs.window.ack, hs.timer, hs.now]
    intro a ha
    exact h.armed a (by rw [← hs.window.arrival]; exact ha)

/-- an entity without SDUs -/
theorem DiscardInv.of_empty (hw : WindowInv setup s) (hact : s.stopped = false) (hkeys : s.txWindow.keys = ∅) :
    DiscardInv setup D s := by
  have hnone : ∀ c a, s.arrival c ≠ some a := by
    intro c a ha
    have hc := mem_keys_of_arrival ha
    rw [hkeys] at hc
    exact absurd hc (Finset.notMem_empty c)
  exact ⟨hw, hact, fun c a ha => absurd ha (hnone c a), fun c _ a _ ha => absurd ha (hnone c a),
    fun a ha => absurd ha (hnone _ a)⟩

/-! ## SDUs that leave the window -/

/-- some SDUs may be gone, the timer may have been set -/
structure Shrinks (s s' : PdcpEntityTx κ) : Prop where
  stopped : s'.stopped = s.stopped
  now : s'.now = s.now
  ack : s.st.txNextAck ≤ s'.st.txNextAck
  arrival : ∀ c a, s'.arrival c = some a → s.arrival c = some a

theorem Shrinks.refl (s : PdcpEntityTx κ) : Shrinks s s := ⟨rfl, rfl, le_rfl, fun _ _ h => h⟩

theorem Shrinks.trans {s'' : PdcpEntityTx κ} (h : Shrinks s s') (h' : Shrinks s' s'') : Shrinks s s'' :=
  ⟨h'.stopped.trans h.stopped, h'.now.trans h.now, h.ack.trans h'.ack, fun c a ha => h.arrival c a (h'.arrival c a ha)⟩

theorem Shrinks.core (h : SameCore s s') : Shrinks s s' :=
  ⟨h.stopped, h.now, by rw [h.st], fun c a ha => by rw [← (of_core h).arrival]; exact ha⟩

theorem Shrinks.ticksOk (h : Shrinks s s') (ht : TicksOk D s) : TicksOk D s' := by
  intro c a ha
  rw [h.now]
  exact ht c a (h.arrival c a ha)

/-- what is left to show is that the timer is right -/
theorem Shrinks.discardInv (hs : Shrinks s s') (h : DiscardInv setup D s) (hw : WindowInv setup s')
    (harmed : ∀ a, s'.arrival s'.st.txNextAck = some a → Armed s'.discardTimer s.now D a) : DiscardInv setup D s' where
  window := hw
  active := hs.stopped.trans h.active
  arrived := by
    intro c a ha
    rw [hs.now]
    exact h.arrived c a (hs.arrival c a ha)
  sorted := fun c c' a a' ha ha' => h.sorted c c' a a' (hs.arrival c a ha) (hs.arrival c' a' ha')
  armed := by
    rw [hs.now]
    exact harmed

/-- the oldest SDU that is left arrived no earlier than the oldest before -/
theorem DiscardInv.oldest_le (h : DiscardInv setup D s) (hs : Shrinks s s')
    (ha : s.arrival s.st.txNextAck = some a) (hb : s'.arrival s'.st.txNextAck = some b) : a ≤ b :=
  h.sorted _ _ a b ha (hs.arrival _ b hb) hs.ack

/-! ## Notifications -/

theorem removeUpTo_shrinks {ack : ℕ} (h : s.st.txNextAck ≤ ack) : Shrinks s (s.removeUpTo ack) := by
  refine ⟨rfl, rfl, h, fun c a ha => ?_⟩
  obtain ⟨elem, he, hel⟩ := arrival_eq_some_iff.1 ha
  exact arrival_eq_some_iff.2 ⟨elem, find?_of_removeUpTo he, hel⟩

include hd in
/-- the timer is stopped, and runs again for the SDU behind the notified one -/
theorem DiscardInv.stopDiscardTimer (h : DiscardInv setup D s) (hc : NotifiedOk s c)
    (hticks : TicksOk D s) (hdue : s.discardTimer.due = false) :
    DiscardInv setup D (s.stopDiscardTimer setup c) ∧ Shrinks s (s.stopDiscardTimer setup c) ∧
      (s.stopDiscardTimer setup c).discardTimer.due = false := by
  have hw := h.window.stopDiscardTimer hc
  rcases stopDiscardTimer_cases setup s c with heq | ⟨timer, ht, h1, h2, hmem, ⟨hinf, -⟩ | ⟨duration, hdur, heq⟩⟩
  · rw [heq]
    exact ⟨h, Shrinks.refl s, hdue⟩
  · rw [ht] at hd
    exact absurd (hinf.symm.trans hd) (by simp)
  · rw [ht] at hd
    obtain rfl : duration = D := some.inj (hdur.symm.trans hd)
    have hrem : Shrinks s (s.removeUpTo (c + 1)) := removeUpTo_shrinks (h1.trans (Nat.le_succ c))
    have hwr : WindowInv setup (s.removeUpTo (c + 1)) := h.window.removeUpTo h1 h2 hc
    obtain ⟨a0, ha0⟩ := h.window.exists_arrival (by rw [ht]; exact hd) hmem
    have hold := h.armed a0 ha0
    rw [heq] at hw ⊢
    obtain ⟨t, faults, hr, hcase⟩ := restartDiscardTimer_cases (s.removeUpTo (c + 1)) duration
    rw [hr] at hw ⊢
    have hshr : Shrinks s { s.removeUpTo (c + 1) with discardTimer := t, faults := faults } :=
      { hrem with }
    rcases hcase with ⟨hend, rfl, -⟩ | ⟨hne, ⟨hnone, -, -⟩ | ⟨a, ha, rfl, -⟩⟩
    · -- nothing is left
      have hack : (s.removeUpTo (c + 1)).st.txNextAck ∉ (s.removeUpTo (c + 1)).txWindow.keys := by
        intro hk
        have hlt := (hwr.range _ hk).2
        omega
      refine ⟨hshr.discardInv h hw fun a ha => ?_, hshr, rfl⟩
      exact absurd (mem_keys_of_arrival ha) hack
    · obtain ⟨a, ha⟩ := hwr.exists_arrival (by rw [ht]; exact hd) (hwr.oldest.resolve_left hne)
      exact absurd (hnone.symm.trans ha) (by simp)
    · -- the callback is not due, so the oldest SDU so far is not overdue
      have hlt : s.now < s.discardTimer.expiry :=
        lt_of_le_of_ne hold.ahead fun heq => absurd (hold.due.2 heq) (by simp [hdue])
      have hle : a0 ≤ a := h.oldest_le hrem ha0 ha
      have hlate := hold.late
      have htimeout : (s.removeUpTo (c + 1)).computeNextDiscardTimeout duration a = a + duration - s.now :=
        computeNextDiscardTimeout_eq (hrem.ticksOk hticks _ a ha)
      rw [htimeout] at hw hshr ⊢
      have harm : Armed (run s.now (a + duration - s.now)) s.now duration a := Armed.run (by omega)
      refine ⟨hshr.discardInv h hw fun b hb => ?_, hshr, rfl⟩
      obtain rfl : a = b := some.inj (ha.symm.trans hb)
      exact harm

/-! ## Discards -/

/-- discard_pdu leaves the timer alone -/
theorem discardPdu_shrinks (setup : PdcpTxSetup κ) (s : PdcpEntityTx κ) (c : ℕ) :
    Shrinks s (s.discardPdu setup c) ∧ (s.discardPdu setup c).discardTimer = s.discardTimer := by
  rcases discardPdu_cases setup s c with ⟨heq, -⟩ | ⟨-, -, -, -, ack, hge, -, -, -, heq⟩
  · rw [heq]
    exact ⟨Shrinks.refl s, rfl⟩
  · rw [heq]
    refine ⟨⟨rfl, rfl, hge, fun d a ha => ?_⟩, rfl⟩
    obtain ⟨elem, he, hel⟩ := arrival_eq_some_iff.1 ha
    exact arrival_eq_some_iff.2 ⟨elem, find?_of_discarded he, hel⟩

/-- a discard takes its COUNT out of the window and nothing else -/
theorem WindowInv.arrival_discardPdu (h : WindowInv setup s) (hd : setup.cfg.discardTimer ≠ none) (c d : ℕ) :
    (s.discardPdu setup c).arrival d = if d = c then none else s.arrival d := by
  rcases discardPdu_cases setup s c with ⟨heq, hcase⟩ | ⟨-, -, -, -, ack, -, -, -, -, heq⟩
  · have hnot : c ∉ s.txWindow.keys := by
      intro hc
      have hr := h.range c hc
      rcases hcase with hn | hlt | hle | hnot
      · exact hd hn
      · omega
      · omega
      · exact hnot hc
    rw [heq]
    split_ifs with hdc
    · rw [hdc, PdcpEntityTx.arrival, notMem_keys.1 hnot]
      rfl
    · rfl
  · rw [heq, PdcpEntityTx.arrival, discarded, find?_removeSdu]
    split_ifs
    · rfl
    · rfl

theorem WindowInv.arrival_discards (h : WindowInv setup s) (hd : setup.cfg.discardTimer ≠ none) (cs : List ℕ) (d : ℕ) :
    (Machine.run (PdcpEntityTx.discardPdu setup) s cs).arrival d = if d ∈ cs then none else s.arrival d := by
  induction cs generalizing s with
  | nil => rfl
  | cons c cs ih =>
    rw [Machine.run_cons, ih (h.discardPdu c), h.arrival_discardPdu hd]
    by_cases hc : d = c
    · simp [hc]
    · simp [hc]

/-- the report says of every SDU of the window that it was received, or not of every one of the oldest tick -/
def ReportOk (s : PdcpEntityTx κ) (buf : Bytes) : Prop :=
  (∀ c ∈ s.txWindow.keys, c ∈ s.reported buf) ∨
    ∃ c ∈ s.txWindow.keys, c ∉ s.reported buf ∧ s.arrival c = s.arrival s.st.txNextAck

include hd in
/-- such a report leaves nothing to discard, or an SDU for which the timer is armed -/
theorem DiscardInv.statusReport (h : DiscardInv setup D s) (buf : Bytes) (ok : Bool) (hleft : s.ReportOk buf) :
    DiscardInv setup D (s.handleStatusReport setup buf ok) := by
  rcases handleStatusReport_cases setup s buf ok with hcore | ⟨t, hcore, heq⟩
  · exact h.congr (core hcore)
  have ht : DiscardInv setup D t := h.congr (core hcore)
  have hsame : ∀ c, t.arrival c = s.arrival c := (of_core hcore).arrival
  obtain ⟨hw, hs, htimer⟩ : WindowInv setup (Machine.run (discardPdu setup) t (s.reported buf)) ∧
      Shrinks t (Machine.run (discardPdu setup) t (s.reported buf)) ∧
      (Machine.run (discardPdu setup) t (s.reported buf)).discardTimer = t.discardTimer := by
    refine Machine.run_inv_all (I := fun u => WindowInv setup u ∧ Shrinks t u ∧ u.discardTimer = t.discardTimer) ?_ t _
      ⟨ht.window, Shrinks.refl t, rfl⟩
    rintro u c ⟨hw, hs, htimer⟩
    obtain ⟨hs', htimer'⟩ := discardPdu_shrinks setup u c
    exact ⟨hw.discardPdu c, hs.trans hs', htimer'.trans htimer⟩
  have harr := ht.window.arrival_discards (bind_ne_none hd) (s.reported buf)
  rw [heq]
  generalize Machine.run (discardPdu setup) t (s.reported buf) = s1 at hw hs htimer harr
  refine hs.discardInv ht hw fun b hb => ?_
  have hb' := harr s1.st.txNextAck
  rw [hb] at hb'
  split_ifs at hb' with hrep
  rcases hleft with hall | ⟨c, -, hout, hca⟩
  · exact absurd (hall _ (mem_keys_of_arrival ((hsame _).symm.trans hb'.symm))) hrep
  · -- the oldest SDU is not younger than the one that was left
    have hack : t.st.txNextAck ∈ t.txWindow.keys :=
      ht.window.oldest.resolve_left (by have := ht.window.range _ (mem_keys_of_arrival hb'.symm); omega)
    obtain ⟨a, ha⟩ := ht.window.exists_arrival hd hack
    have hcs1 : s1.arrival c = some a := by
      rw [harr, if_neg hout, hsame, hca, ← (of_core hcore).ack, ← hsame]
      exact ha
    have hle : b ≤ a :=
      ht.sorted _ _ b a hb'.symm (hs.arrival _ a hcs1) (hw.range c (mem_keys_of_arrival hcs1)).1
    obtain rfl : a = b := le_antisymm (ht.oldest_le hs ha hb) hle
    rw [htimer]
    exact ht.armed a ha

/-! ## The callback -/

/-- one round of the callback removes the oldest SDU and nothing else -/
theorem WindowInv.discardOldest (h : WindowInv setup s) (hd : setup.cfg.discardTimer ≠ none)
    (hmem : s.st.txNextAck ∈ s.txWindow.keys) :
    let s1 := s.discardPdu setup s.st.txNextAck
    s.st.txNextAck < s1.st.txNextAck ∧ s1.st.txNext = s.st.txNext ∧
      ∀ c a, s.arrival c = some a → s1.arrival c = none → c = s.st.txNextAck := by
  have hr := h.range _ hmem
  rcases discardPdu_cases setup s s.st.txNextAck with ⟨-, hcase⟩ | ⟨-, -, -, -, ack, hge, -, -, hin, heq⟩
  · rcases hcase with hn | hlt | hle | hnot
    · exact absurd hn hd
    · exact absurd hlt (lt_irrefl _)
    · exact absurd hr.2 (not_lt.2 hle)
    · exact absurd hmem hnot
  · intro s1
    have hs1 : s1 = _ := heq
    rw [hs1]
    refine ⟨lt_of_le_of_ne hge fun heq => ?_, rfl, fun c a ha hgone => ?_⟩
    · have hack : s.st.txNextAck = ack := heq
      exact (hin (by rw [← hack]; exact hr.2)).2 hack.symm
    · by_contra hc
      have hkept := h.arrival_discardPdu hd s.st.txNextAck c
      rw [if_neg hc, ha, heq] at hkept
      exact absurd (hgone.symm.trans hkept) (by simp)

include hd in
/-- the loop discards SDUs of one tick, until there is none left or the next is of another tick -/
theorem discardMatching_spec (a k : ℕ) (h : WindowInv setup s) (hk : s.st.txNext - s.st.txNextAck < k)
    (hb : s.arrival s.st.txNextAck = some b) (hba : b % 2 ^ 32 = a % 2 ^ 32) :
    let s1 := s.discardMatching setup D a k
    Shrinks s s1 ∧ (∀ c b, s.arrival c = some b → s1.arrival c = none → b % 2 ^ 32 = a % 2 ^ 32) ∧
      (s1.txWindow.keys = ∅ ∧ s1.discardTimer = s.discardTimer ∨
        ∃ b, s1.arrival s1.st.txNextAck = some b ∧ b % 2 ^ 32 ≠ a % 2 ^ 32 ∧
          s1.discardTimer = run s.now (s.computeNextDiscardTimeout D a)) := by
  have hd' := bind_ne_none hd
  induction k generalizing s b with
  | zero => exact absurd hk (Nat.not_lt_zero _)
  | succ k ih =>
    have hmem := mem_keys_of_arrival hb
    obtain ⟨hack, hnext, hgone⟩ := h.discardOldest hd' hmem
    obtain ⟨hshr, htimer⟩ := discardPdu_shrinks setup s s.st.txNextAck
    have hw := h.discardPdu s.st.txNextAck
    have hgone' : ∀ c b', s.arrival c = some b' → (s.discardPdu setup s.st.txNextAck).arrival c = none →
        b' % 2 ^ 32 = a % 2 ^ 32 := by
      intro c b' hb' hnone
      rw [hgone c b' hb' hnone, hb] at hb'
      rw [← some.inj hb']
      exact hba
    rw [discardMatching]
    generalize s.discardPdu setup s.st.txNextAck = s1 at hw hshr htimer hack hnext hgone'
    cases he : s1.txWindow.find? s1.st.txNextAck with
    | none =>
      have hkeys := hw.keys_eq_empty (notMem_keys.2 he)
      exact ⟨hshr, hgone', .inl ⟨hkeys, htimer⟩⟩
    | some elem =>
      dsimp only
      cases hel : elem.sduInfo.tickPointOfArrival with
      | none => exact absurd hel (hw.ticks (by rw [hd]; simp) _ elem he)
      | some b' =>
        have hb' : s1.arrival s1.st.txNextAck = some b' := arrival_eq_some_iff.2 ⟨elem, he, hel⟩
        dsimp only
        by_cases hne : b' % 2 ^ 32 = a % 2 ^ 32
        · have hlt := (hw.range _ (mem_keys_of_find? he)).2
          rw [if_neg (not_not.2 hne), if_pos hlt.ne]
          obtain ⟨hshr2, hgone2, hend⟩ := ih hw (by omega) hb' hne
          refine ⟨hshr.trans hshr2, fun c x hx hnone => ?_, ?_⟩
          · cases hx1 : s1.arrival c with
            | none => exact hgone' c x hx hx1
            | some y =>
              have hxy : x = y := some.inj (hx.symm.trans (hshr.arrival c y hx1))
              rw [hxy]
              exact hgone2 c y hx1 hnone
          · rw [htimer] at hend
            unfold computeNextDiscardTimeout at hend ⊢
            rw [hshr.now] at hend
            exact hend
        · rw [if_pos hne]
          refine ⟨{ hshr with }, hgone', .inr ⟨b', hb', hne, ?_⟩⟩
          unfold computeNextDiscardTimeout
          rw [hshr.now]

/-- SDUs of other ticks: there is none, or one that is due within a tick -/
def NextBatchOk (D : ℕ) (s : PdcpEntityTx κ) : Prop :=
  (∀ c ∈ s.txWindow.keys, s.arrival c = s.arrival s.st.txNextAck) ∨
    ∃ c ∈ s.txWindow.keys, s.arrival c ≠ s.arrival s.st.txNextAck ∧ ∀ b, s.arrival c = some b → b + D ≤ s.now + 1

include hd in
/-- the state the callback starts from -/
theorem callback_spec (h : DiscardInv setup D s) :
    let s0 : PdcpEntityTx κ := { s with discardTimer := s.discardTimer.stop }
    s.txWindow.keys = ∅ ∧ s0.discardCallback setup = s0 ∨
      ∃ a, s.arrival s.st.txNextAck = some a ∧
        s0.discardCallback setup = s0.discardMatching setup D a (s.st.txNext - s.st.txNextAck + 1) := by
  intro s0
  have hact : s0.stopped = false := h.active
  unfold discardCallback
  rw [hact, if_neg Bool.false_ne_true, hd]
  cases he : s0.txWindow.find? s0.st.txNextAck with
  | none =>
    have hack : s.st.txNextAck ∉ s.txWindow.keys := notMem_keys.2 he
    exact .inl ⟨h.window.keys_eq_empty hack, rfl⟩
  | some elem =>
    dsimp only
    cases hel : elem.sduInfo.tickPointOfArrival with
    | none => exact absurd hel (h.window.ticks (by rw [hd]; simp) _ elem he)
    | some a => exact .inr ⟨a, arrival_eq_some_iff.2 ⟨elem, he, hel⟩, rfl⟩

/-- SDUs that arrived in ticks equal modulo 2^32 arrived in the same tick -/
theorem DiscardInv.arrival_eq (h : DiscardInv setup D s) (hD : D ≤ 1500)
    (ha : s.arrival s.st.txNextAck = some a) (hb : s.arrival c = some b) (hmod : b % 2 ^ 32 = a % 2 ^ 32) : b = a := by
  have hle : a ≤ b := h.sorted _ _ a b ha hb (h.window.range c (mem_keys_of_arrival hb)).1
  have hnow := h.arrived c b hb
  have harm := h.armed a ha
  have hlate := harm.late
  have hahead := harm.ahead
  omega

include hd in
/-- the callback discards SDUs of the oldest tick, which are due -/
theorem DiscardInv.discarded_due (h : DiscardInv setup D s) (hD : D ≤ 1500)
    (hdue : s.discardTimer.due = true) (hb : s.arrival c = some b)
    (hgone : ({ s with discardTimer := s.discardTimer.stop }.discardCallback setup).arrival c = none) :
    b + D ≤ s.now := by
  have h0 : WindowInv setup { s with discardTimer := s.discardTimer.stop } :=
    h.window.congr (of_eq ⟨rfl, rfl⟩ rfl rfl)
  rcases callback_spec hd h with ⟨-, heq⟩ | ⟨a, ha, heq⟩
  · rw [heq] at hgone
    exact absurd (hb.symm.trans hgone) (by simp)
  · obtain ⟨-, hall, -⟩ := discardMatching_spec hd a (s.st.txNext - s.st.txNextAck + 1) h0 (Nat.lt_succ_self _) ha rfl
    rw [heq] at hgone
    have harm := h.armed a ha
    rw [h.arrival_eq hD ha hb (hall c b hb hgone), harm.due.1 hdue]
    exact harm.early

include hd in
theorem DiscardInv.discardCallback (h : DiscardInv setup D s) (hD : D ≤ 1500)
    (hdue : s.discardTimer.due = true) (hticks : TicksOk D s) (hnext : NextBatchOk D s) :
    DiscardInv setup D ({ s with discardTimer := s.discardTimer.stop }.discardCallback setup) := by
  have h0 : WindowInv setup { s with discardTimer := s.discardTimer.stop } :=
    h.window.congr (of_eq ⟨rfl, rfl⟩ rfl rfl)
  have hw := h0.discardCallback
  rcases callback_spec hd h with ⟨hempty, heq⟩ | ⟨a, ha, heq⟩
  · rw [heq]
    exact DiscardInv.of_empty h0 h.active hempty
  · rw [heq] at hw ⊢
    have harm := h.armed a ha
    have hnow : s.now = s.discardTimer.expiry := harm.due.1 hdue
    have hearly := harm.early
    obtain ⟨hs, hgone, hend⟩ := discardMatching_spec hd a (s.st.txNext - s.st.txNextAck + 1) h0 (Nat.lt_succ_self _) ha
      rfl
    have hs' : Shrinks s ({ s with discardTimer := s.discardTimer.stop }.discardMatching setup D a
        (s.st.txNext - s.st.txNextAck + 1)) := { hs with }
    have htimeout : computeNextDiscardTimeout { s with discardTimer := s.discardTimer.stop } D a = 0 := by
      have h1 := computeNextDiscardTimeout_eq (hticks _ a ha)
      unfold computeNextDiscardTimeout at h1 ⊢
      rw [h1]
      omega
    rw [htimeout] at hend
    generalize discardMatching setup D a (s.st.txNext - s.st.txNextAck + 1)
      { s with discardTimer := s.discardTimer.stop } = s1 at hw hs' hgone hend
    rcases hend with ⟨hempty, htimer⟩ | ⟨b, hb, hne, htimer⟩
    · exact DiscardInv.of_empty hw (hs'.stopped.trans h.active) hempty
    · have hsb := hs'.arrival _ b hb
      have hab : a ≤ b := h.oldest_le hs' ha hb
      have hne' : b ≠ a := fun heq => hne (by rw [heq])
      -- the SDU that is due within a tick is still there, and the oldest one is not younger
      have hb1 : b + D ≤ s.now + 1 := by
        rcases hnext with hall | ⟨c, hc, hca, hcb⟩
        · have := hall _ (mem_keys_of_arrival hsb)
          rw [hsb, ha] at this
          exact absurd (some.inj this) hne'
        · obtain ⟨x, hx⟩ := h.window.exists_arrival hd hc
          have hkept : s1.arrival c = some x := by
            cases hx1 : s1.arrival c with
            | none =>
              rw [hx, ha, h.arrival_eq hD ha hx (hgone c x hx hx1)] at hca
              exact absurd rfl hca
            | some y => exact (hs'.arrival c y hx1).symm.trans hx
          have hle : b ≤ x := h.sorted _ _ b x hsb hx (hw.range c (mem_keys_of_arrival hkept)).1
          have hxD := hcb x hx
          omega
      have hlate := harm.late
      refine hs'.discardInv h hw fun x hx => ?_
      obtain rfl : b = x := some.inj (hb.symm.trans hx)
      have htimer' : s1.discardTimer = run s.now 0 := htimer
      rw [htimer']
      exact ⟨rfl, by rw [run_expiry]; omega, by rw [run_expiry]; omega,
        by rw [run_expiry]; omega, by simp⟩

/-! ## New SDUs -/

include hd in
/-- the timer runs for the SDU at hand, if it is the only one -/
theorem startDiscardTimer_spec (s : PdcpEntityTx κ) :
    SameWindow s (s.startDiscardTimer setup) ∧ (s.startDiscardTimer setup).stopped = s.stopped ∧
      (s.startDiscardTimer setup).now = s.now ∧ (s.startDiscardTimer setup).discardTimer =
        if s.discardTimer.running = true then s.discardTimer else run s.now D := by
  rcases startDiscardTimer_cases setup s with ⟨heq, hcase⟩ | ⟨duration, hd', hrun, heq⟩
  · have hrun : s.discardTimer.running = true := hcase.resolve_left (by rw [hd]; simp)
    rw [heq, if_pos hrun]
    exact ⟨of_eq ⟨rfl, rfl⟩ rfl rfl, rfl, rfl, rfl⟩
  · obtain rfl : duration = D := some.inj (hd'.symm.trans hd)
    rw [heq, if_neg (by rw [hrun]; simp)]
    exact ⟨of_eq ⟨rfl, rfl⟩ rfl rfl, rfl, rfl, rfl⟩

/-- an empty window finds the timer stopped -/
def Idle (s : PdcpEntityTx κ) : Prop := s.txWindow.keys = ∅ → s.discardTimer.running = false

/-- an SDU with the next COUNT, which arrives now, is stored and sent -/
theorem DiscardInv.sent (h : DiscardInv setup D s) (hidle : s.Idle) {s1 : PdcpEntityTx κ} (hw : WindowInv setup s1)
    (hact : s1.stopped = false) (hnow : s1.now = s.now)
    (hst : s1.st.txNextAck = s.st.txNextAck ∧ s1.st.txNext = s.st.txNext + 1)
    (htimer : s1.discardTimer = if s.discardTimer.running = true then s.discardTimer else run s.now D)
    (hnew : s1.arrival s.st.txNext = some s.now)
    (hold : ∀ c a, c ≠ s.st.txNext → s1.arrival c = some a → s.arrival c = some a) : DiscardInv setup D s1 := by
  have hcases : ∀ c a, s1.arrival c = some a →
      c = s.st.txNext ∧ a = s.now ∨ c ≠ s.st.txNext ∧ s.arrival c = some a := by
    intro c a ha
    by_cases hc : c = s.st.txNext
    · subst hc
      exact .inl ⟨rfl, some.inj (ha.symm.trans hnew)⟩
    · exact .inr ⟨hc, hold c a hc ha⟩
  refine ⟨hw, hact, fun c a ha => ?_, fun c c' a a' ha ha' hcc => ?_, fun a ha => ?_⟩
  · rw [hnow]
    rcases hcases c a ha with ⟨-, rfl⟩ | ⟨-, ha⟩
    · exact le_rfl
    · exact h.arrived c a ha
  · rcases hcases c' a' ha' with ⟨rfl, rfl⟩ | ⟨hc', ha'⟩
    · rcases hcases c a ha with ⟨-, rfl⟩ | ⟨-, ha⟩
      · exact le_rfl
      · exact h.arrived c a ha
    · rcases hcases c a ha with ⟨rfl, -⟩ | ⟨-, ha⟩
      · have hlt := (h.window.range c' (mem_keys_of_arrival ha')).2
        exact absurd hcc (not_le.2 hlt)
      · exact h.sorted c c' a a' ha ha' hcc
  · rw [hnow, htimer]
    rw [hst.1] at ha
    rcases hcases _ a ha with ⟨hack, rfl⟩ | ⟨hack, ha⟩
    · -- the window was empty and the timer stopped
      have hrun : s.discardTimer.running = false := by
        refine hidle (h.window.keys_eq_empty fun hmem => ?_)
        have hlt := (h.window.range _ hmem).2
        exact absurd hack hlt.ne
      rw [if_neg (by rw [hrun]; simp)]
      have harm : Armed (run s.now (s.now + D - s.now)) s.now D s.now := Armed.run (Nat.le_add_right _ _)
      rwa [Nat.add_sub_cancel_left] at harm
    · have harm := h.armed a ha
      rw [if_pos harm.running]
      exact harm

include hd in
theorem DiscardInv.handleSdu (h : DiscardInv setup D s) {buf : Bytes} {env : SduEnv}
    (hok : SduOk setup s buf env) (hidle : s.Idle) : DiscardInv setup D (s.handleSdu setup buf env) := by
  have hw := h.window.handleSdu hok
  rcases handleSdu_cases setup s buf env with hc | ⟨s1, hc, hcomp, -, -, -, -, heq⟩
  · exact h.congr (core hc)
  · have h1 : DiscardInv setup D s1 := h.congr (core hc)
    have hidle1 : s1.Idle := by
      unfold Idle
      rw [hc.txWindow, hc.discardTimer]
      exact hidle
    obtain ⟨hwin, hstop, hnow, htimer⟩ := startDiscardTimer_spec hd s1
    rw [heq] at hw ⊢
    rcases transmitSdu_cases setup s1 buf env with ⟨-, -, hs⟩ | ⟨hfail, -⟩ | ⟨s2, body, hs, -, heq2⟩
    · -- the copy failed: the timer was running, or it runs now without an SDU
      cases hrun : s1.discardTimer.running with
      | true =>
        rw [if_pos hrun] at htimer
        exact (h1.congr ⟨hwin, hstop, hnow, htimer⟩).congr (core hs)
      | false =>
        have hempty : s1.txWindow.keys = ∅ := by
          refine h1.window.keys_eq_empty fun hmem => ?_
          obtain ⟨a, ha⟩ := h1.window.exists_arrival hd hmem
          exact absurd (h1.armed a ha).running (by simp [hrun])
        exact DiscardInv.of_empty hw (hs.stopped.trans (hstop.trans h1.active)) (by rw [hs.txWindow, hwin.keys, hempty])
    · rcases hfail with ⟨comp, hcm, hnil⟩ | hhdr
      · exact absurd hnil (hok.compress comp (by rw [← hcomp]; exact hcm))
      · rw [hok.header] at hhdr
        cases hhdr
    · rw [heq2, sendBuffer_eq] at hw ⊢
      have hst : s2.st = s1.st := hs.st.trans (startDiscardTimer_st setup s1)
      have hfind : ∀ c, s2.txWindow.find? c = ((s1.startDiscardTimer setup).storeSdu setup buf).txWindow.find? c :=
        fun c => by rw [hs.txWindow]
      refine h1.sent hidle1 hw ?_ ?_ ?_ ?_ ?_ ?_
      · exact hs.stopped.trans (hstop.trans h1.active)
      · exact hs.now.trans hnow
      · exact ⟨by rw [← hst], by rw [← hst]⟩
      · exact hs.discardTimer.trans htimer
      · refine arrival_eq_some_iff.2 ⟨⟨(s1.startDiscardTimer setup).newSduInfo setup buf, [], buf.length⟩, ?_, ?_⟩
        · show s2.txWindow.find? s1.st.txNext = _
          rw [hfind, find?_storeSdu, if_pos hwin.next.symm]
        · show (setup.cfg.discardTimer.bind PdcpDiscardTimer.toMs).map (fun _ => (s1.startDiscardTimer setup).now) = _
          rw [hd, hnow]
          rfl
      · intro c a hne ha
        obtain ⟨elem, he, hel⟩ := arrival_eq_some_iff.1 ha
        have he' : s2.txWindow.find? c = some elem := he
        rw [hfind, find?_storeSdu, if_neg (by rw [hwin.next]; exact hne)] at he'
        split_ifs at he'
        rw [← hwin.arrival]
        exact arrival_eq_some_iff.2 ⟨elem, he', hel⟩

/-! ## Delivery and retransmission -/

/-- during delivery: test mode of a UM bearer acknowledges each PDU that is handed down -/
structure DeliveryDiscard (setup : PdcpTxSetup κ) (D : ℕ) (s : PdcpEntityTx κ) : Prop where
  inv : DiscardInv setup D s
  delivery : DeliveryInv setup s
  acked : setup.cfg.testMode = true → setup.cfg.rlcMode = .um → TicksOk D s ∧ s.discardTimer.due = false

namespace DeliveryDiscard

theorem congr (h : DeliveryDiscard setup D s) (hs : SameDiscard s s') : DeliveryDiscard setup D s' where
  inv := h.inv.congr hs
  delivery := h.delivery.congr hs.window
  acked := by
    intro htest hum
    obtain ⟨ht, hdue⟩ := h.acked htest hum
    refine ⟨fun c a ha => ?_, by rw [hs.timer]; exact hdue⟩
    rw [hs.now]
    exact ht c a (by rw [← hs.window.arrival]; exact ha)

include hd in
theorem stopDiscardTimer (h : DeliveryDiscard setup D s) (htest : setup.cfg.testMode = true)
    (hum : setup.cfg.rlcMode = .um) (c : ℕ) : DeliveryDiscard setup D (s.stopDiscardTimer setup c) := by
  obtain ⟨ht, hdue⟩ := h.acked htest hum
  have hholes := h.delivery.holes htest hum
  have hok : NotifiedOk s c := fun h1 h2 => hholes (c + 1) (h1.trans (Nat.le_succ c)) h2
  obtain ⟨hinv, hs, hdue'⟩ := h.inv.stopDiscardTimer hd hok ht hdue
  exact ⟨hinv, h.delivery.stopDiscardTimer htest hum c, fun _ _ => ⟨hs.ticksOk ht, hdue'⟩⟩

include hd in
theorem rule : DeliveryRule setup (DeliveryDiscard setup D) :=
  DeliveryRule.of_same (fun h hs => h.congr hs) fun c h htest hum => h.stopDiscardTimer hd htest hum c

end DeliveryDiscard

theorem DiscardInv.retransmitAllPdus (h : DiscardInv setup D s) (env : RetxEnv) :
    DiscardInv setup D (s.retransmitAllPdus setup env) :=
  retransmitAllPdus_same (fun h hs => h.congr hs) env h.window.le h

/-! ## Runs -/

/-- the conditions of the header but the first, on the state before the step -/
def DiscardStep (setup : PdcpTxSetup κ) (D : ℕ) (s : PdcpEntityTx κ) : Op → Prop
  | .handleSdu _ _ => s.Idle
  | .endBuffering env =>
    Machine.Always (fun s (call : Bytes × ℕ) => s.handleSdu setup call.1 (env call.2)) (fun s _ => s.Idle)
      { s with buffering := false, sduBuffer := [] } s.sduBuffer.zipIdx
  | .transmitNotification _ | .deliveryNotification _ | .retransmitNotification _
  | .deliveryRetransmittedNotification _ => TicksOk D s ∧ s.discardTimer.due = false
  | .applyReordering _ | .cryptoReorderingTimerExpiry =>
    setup.cfg.testMode = true → setup.cfg.rlcMode = .um → TicksOk D s ∧ s.discardTimer.due = false
  | .statusReport buf _ => s.ReportOk buf
  | .tick => s.discardTimer.due = false
  | .discardTimerExpiry => s.discardTimer.due = true → TicksOk D s ∧ NextBatchOk D s
  | _ => True

namespace DiscardInv

theorem still (h : DiscardInv setup D s) (op : Op) (hop : op.Still) : DiscardInv setup D (s.step setup op) :=
  h.congr (SameDiscard.step s op hop)

include hd in
theorem notification (h : DiscardInv setup D s)
    (op : Op) (hop : op.Notification) (hgood : GoodStep setup s op) (hok : TicksOk D s ∧ s.discardTimer.due = false) :
    DiscardInv setup D (s.step setup op) := by
  have htrans : ∀ c, DiscardInv setup D (s.setTxTrans c) :=
    fun c => h.congr (of_eq ⟨rfl, rfl⟩ rfl rfl ⟨rfl, rfl, rfl⟩)
  rcases notification_cases setup s op hop with heq | ⟨c, -, -, heq⟩ | ⟨sn, c, rfl, hum, rfl, -, -, heq⟩ |
    ⟨sn, rfl | rfl, heq⟩ <;> rw [heq]
  · exact h
  · exact htrans (c + 1)
  · exact ((htrans (s.notificationCountEstimation setup sn + 1)).stopDiscardTimer hd (hgood hum) hok.1 hok.2).1
  · exact (h.stopDiscardTimer hd hgood hok.1 hok.2).1
  · exact (h.stopDiscardTimer hd hgood hok.1 hok.2).1

theorem tick (h : DiscardInv setup D s) (hdue : s.discardTimer.due = false) :
    DiscardInv setup D (s.step setup .tick) := by
  refine ⟨h.window.congr (of_eq ⟨rfl, rfl⟩ rfl rfl), h.active, fun c a ha => ?_, h.sorted,
    fun a ha => (h.armed a ha).tick hdue⟩
  exact (h.arrived c a ha).trans (Nat.le_succ _)

include hd in
theorem endBuffering (h : DiscardInv setup D s) (env : ℕ → SduEnv) (hgood : GoodStep setup s (.endBuffering env))
    (hok : DiscardStep setup D s (.endBuffering env)) : DiscardInv setup D (s.endBuffering setup env) := by
  have hrun : ∀ calls t, DiscardInv setup D t →
      Machine.Always (fun s (call : Bytes × ℕ) => s.handleSdu setup call.1 (env call.2))
        (fun s call => SduOk setup s call.1 (env call.2)) t calls →
      Machine.Always (fun s (call : Bytes × ℕ) => s.handleSdu setup call.1 (env call.2)) (fun s _ => s.Idle) t calls →
      DiscardInv setup D (Machine.run (fun s (call : Bytes × ℕ) => s.handleSdu setup call.1 (env call.2)) t calls) := by
    intro calls
    induction calls with
    | nil => exact fun t ht _ _ => ht
    | cons call calls ih => exact fun t ht hok hidle => ih _ (ht.handleSdu hd hok.1 hidle.1) hok.2 hidle.2
  exact hrun _ _ (h.congr (core (endBuffering_core s))) hgood hok

include hd in
theorem step (h : DiscardInv setup D s)
    (hD : D ≤ 1500) (op : Op) (hgood : GoodStep setup s op) (hok : DiscardStep setup D s op) :
    DiscardInv setup D (s.step setup op) := by
  cases op with
  | handleSdu buf env => exact h.handleSdu hd hgood hok
  | applyReordering idx =>
    rw [PdcpEntityTx.step]
    cases s.reorderingTasks[idx]? with
    | none => exact h
    | some info =>
      have h' : DeliveryDiscard setup D { s with reorderingTasks := s.reorderingTasks.eraseIdx idx } :=
        DeliveryDiscard.congr ⟨h, ⟨h.window, hgood⟩, hok⟩ (of_eq ⟨rfl, rfl⟩ rfl rfl ⟨rfl, rfl, rfl⟩)
      exact ((DeliveryDiscard.rule hd).applyReordering h' fun _ =>
        h'.congr (of_setPdu ⟨rfl, rfl⟩ rfl rfl ⟨rfl, rfl, rfl⟩)).inv
  | transmitNotification sn => exact h.notification hd _ trivial hgood hok
  | deliveryNotification sn => exact h.notification hd _ trivial hgood hok
  | retransmitNotification sn => exact h.notification hd _ trivial hgood hok
  | deliveryRetransmittedNotification sn => exact h.notification hd _ trivial hgood hok
  | statusReport buf ok => exact h.statusReport hd buf ok hok
  | dataRecovery report env =>
    obtain ⟨t, hc | hc, heq⟩ := dataRecovery_cases setup s report env <;> rw [PdcpEntityTx.step, heq]
    · exact (h.congr (core hc)).retransmitAllPdus env
    · have hfault : DiscardInv setup D (s.fault .dataRecoveryBearer) :=
        { h with window := h.window.recoveryFault }
      exact (hfault.congr (core hc)).retransmitAllPdus env
  | reestablish secCfg env =>
    exact reestablish_rule secCfg env (fun t h => h.congr (SameDiscard.initHeaderCompression t))
      (fun t ht _ => .of_empty (WindowInv.cleared (show t.reset.txWindow.txWindow.cap = _ from ht.window.cap) rfl
        (fun _ => rfl) ht.window.faults) ht.active rfl)
      (fun t h => h.congr (SameDiscard.configureSecurity t _ _ _)) (fun _ h => h.retransmitAllPdus env) s h
  | endBuffering env => exact h.endBuffering hd env hgood hok
  | suspend =>
    have hw := h.window.step .suspend trivial
    rw [PdcpEntityTx.step] at hw ⊢
    rcases suspend_cases setup s with heq | ⟨timer, -, heq⟩
    · rwa [heq]
    · rw [heq] at hw ⊢
      exact DiscardInv.of_empty hw h.active rfl
  | stop => exact hgood.elim
  | setCount hfn sn => exact DiscardInv.of_empty (h.window.step (.setCount hfn sn) hgood) h.active hgood
  | tick => exact h.tick hok
  | discardTimerExpiry =>
    rw [PdcpEntityTx.step]
    split_ifs with hdue
    · exact h.discardCallback hd hD hdue (hok hdue).1 (hok hdue).2
    · exact h
  | cryptoReorderingTimerExpiry =>
    rw [PdcpEntityTx.step]
    split_ifs
    · have h' : DeliveryDiscard setup D { s with cryptoReorderingTimer := s.cryptoReorderingTimer.stop } :=
        DeliveryDiscard.congr ⟨h, ⟨h.window, hgood⟩, hok⟩ (of_eq ⟨rfl, rfl⟩ rfl rfl ⟨rfl, rfl, rfl⟩)
      exact ((DeliveryDiscard.rule hd).cryptoReorderingTimeout h').inv
    · exact h
  | _ => exact h.still _ trivial

theorem init : DiscardInv setup D (init setup) := by
  refine DiscardInv.of_empty WindowInv.init ?_ ?_ <;> unfold PdcpEntityTx.init PdcpEntityTx.initHeaderCompression <;>
    split_ifs <;> rfl

end DiscardInv

/-- With a discard timer of D ticks, in every run whose steps meet the conditions: the callback discards only SDUs that
arrived at least D ticks ago, and while the window is not empty the timer runs and expires at most one tick after the
oldest COUNT is due. -/
theorem discard_on_time (setup : PdcpTxSetup κ) {timer : PdcpDiscardTimer} {D : ℕ}
    (htimer : setup.cfg.discardTimer = some timer) (hD : timer.toMs = some D) (ops : List Op)
    (hops : Machine.Always (step setup) (fun s op => GoodStep setup s op ∧ DiscardStep setup D s op) (init setup) ops) :
    let s := Machine.run (step setup) (init setup) ops
    (∀ c a, s.arrival c = some a → (s.step setup .discardTimerExpiry).arrival c = none → a + D ≤ s.now) ∧
      ∀ c ∈ s.txWindow.keys, (∀ c' ∈ s.txWindow.keys, c ≤ c') →
        s.discardTimer.running = true ∧ ∃ a, s.arrival c = some a ∧ s.discardTimer.expiry ≤ a + D + 1 := by
  intro s
  have hd : setup.cfg.discardTimer.bind PdcpDiscardTimer.toMs = some D := by rw [htimer]; exact hD
  have hbound := toMs_bound hD
  have h : DiscardInv setup D s :=
    Machine.run_inv (fun _ op h hok => h.step hd hbound.2 op hok.1 hok.2) _ ops DiscardInv.init hops
  refine ⟨fun c b hb hgone => ?_, fun c hc hmin => ?_⟩
  · rw [step] at hgone
    split_ifs at hgone with hdue
    · exact h.discarded_due hd hbound.2 hdue hb hgone
    · exact absurd (hb.symm.trans hgone) (by simp)
  · have hack := h.window.oldest.resolve_left (by have := h.window.range c hc; omega)
    obtain rfl : c = s.st.txNextAck := le_antisymm (hmin _ hack) (h.window.range c hc).1
    obtain ⟨a, ha⟩ := h.window.exists_arrival hd hc
    have harm := h.armed a ha
    exact ⟨harm.running, a, ha, harm.late⟩

/-- two SDUs of the same tick, discarded ten ticks later -/
def sdusOfOneTick : List Op :=
  [.desiredBufferSizeNotification 10000, .handleSdu [1] ⟨true, true, true⟩, .handleSdu [2] ⟨true, true, true⟩] ++
    List.replicate 10 .tick

theorem sdusOfOneTick_ok :
    Machine.Always (step sampleSetup) (fun s op => GoodStep sampleSetup s op ∧ DiscardStep sampleSetup 10 s op)
      (init sampleSetup) sdusOfOneTick := by
  refine ⟨⟨trivial, trivial⟩, ⟨sduOk_sample _ _ ?_, fun _ => ?_⟩, ⟨sduOk_sample _ _ ?_, fun hempty => ?_⟩, ?_⟩
  · decide +kernel
  · decide +kernel
  · decide +kernel
  · exact absurd hempty (by decide +kernel)
  · refine ⟨⟨trivial, ?_⟩, ⟨trivial, ?_⟩, ⟨trivial, ?_⟩, ⟨trivial, ?_⟩, ⟨trivial, ?_⟩, ⟨trivial, ?_⟩, ⟨trivial, ?_⟩,
      ⟨trivial, ?_⟩, ⟨trivial, ?_⟩, ⟨trivial, ?_⟩, trivial⟩ <;> (show due _ = false) <;> decide +kernel

theorem discard_on_time_one_tick :
    let s := Machine.run (step sampleSetup) (init sampleSetup) sdusOfOneTick
    s.txWindow.keys = {0, 1} ∧ (s.step sampleSetup .discardTimerExpiry).txWindow.keys = ∅ ∧ 0 + 10 ≤ s.now := by
  refine ⟨by decide +kernel, by decide +kernel, ?_⟩
  exact (discard_on_time sampleSetup rfl rfl sdusOfOneTick sdusOfOneTick_ok).1 1 0 (by decide +kernel)
    (by decide +kernel)

/-- With a discard timer of 10 ticks, SDUs arrive in ticks 0 and 5. The callback of tick 10 discards the first and arms
the timer for the tick in which that one was due: the second is discarded in tick 11, six ticks after it arrived. -/
theorem next_sdu_discarded_early :
    let s := Machine.run (step sampleSetup) (init sampleSetup)
      ([.desiredBufferSizeNotification 10000, .handleSdu [1] ⟨true, true, true⟩] ++ List.replicate 5 .tick ++
        [.handleSdu [2] ⟨true, true, true⟩] ++ List.replicate 5 .tick ++ [.discardTimerExpiry, .tick])
    s.now = 11 ∧ s.arrival 1 = some 5 ∧ (s.step sampleSetup .discardTimerExpiry).arrival 1 = none := by
  decide +kernel

end OcuduRan.Pdcp.PdcpEntityTx
