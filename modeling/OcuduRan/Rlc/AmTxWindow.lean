/-
The transmit window on absolute indices.

TX_Next_Ack stands for an index `A` and TX_Next for `N`. The window holds the SDUs of the indices [A, N), and that of N
while it is being segmented, hence those of [A, top) (`Window`).

An operation either leaves the window alone (`SameWindow`) or writes the SDU info of one SN (`Wrote`), or moves
TX_Next_Ack.
-/
import OcuduRan.Rlc.AmTx

namespace OcuduRan.Rlc

open ModWindow Finset

/-- PDCP SN whose delivery a call reports -/
def TxEvent.deliveredSn : TxEvent → Option ℕ
  | .deliveredSdu pdcpSn => some pdcpSn
  | .deliveredRetransmittedSdu pdcpSn => some pdcpSn
  | _ => none

namespace RlcTxAmEntity

variable {cfg : RlcTxAmConfig} {s s' : RlcTxAmEntity} {A N i : ℕ} {info : RlcTxAmSduInfo}

/-! ## The window -/

/-- one past the last index in the window -/
def top (s : RlcTxAmEntity) (N : ℕ) : ℕ := if s.snUnderSegmentation = invalidRlcSn then N else N + 1

/-- what the window holds for an index -/
def infoAt (cfg : RlcTxAmConfig) (s : RlcTxAmEntity) (i : ℕ) : Option RlcTxAmSduInfo :=
  s.txWindow.find? (i % cfg.snFieldLength.mod)

/-- absolute indices of the state variables, and of the SDUs in the window -/
structure Window (cfg : RlcTxAmConfig) (A N : ℕ) (s : RlcTxAmEntity) : Prop where
  cap : s.txWindow.cap = cfg.snFieldLength.amWindowSize
  ack : s.st.txNextAck = A % cfg.snFieldLength.mod
  next : s.st.txNext = N % cfg.snFieldLength.mod
  le : A ≤ N
  seg : s.snUnderSegmentation = invalidRlcSn ∨ s.snUnderSegmentation = N % cfg.snFieldLength.mod
  room : s.top N ≤ A + cfg.snFieldLength.amWindowSize
  keys : ∀ sn, sn ∈ s.txWindow.keys ↔ ∃ i, A ≤ i ∧ i < s.top N ∧ sn = i % cfg.snFieldLength.mod

theorem top_of_idle (h : s.snUnderSegmentation = invalidRlcSn) : s.top N = N := if_pos h

theorem top_of_segmenting {n : RlcAmSnSize} (h : s.snUnderSegmentation = N % n.mod) : s.top N = N + 1 := by
  rw [top, if_neg]
  rw [h]
  exact mod_ne_invalid n N

theorem le_top (s : RlcTxAmEntity) (N : ℕ) : N ≤ s.top N := by
  unfold top
  split_ifs <;> omega

theorem top_le (s : RlcTxAmEntity) (N : ℕ) : s.top N ≤ N + 1 := by
  unfold top
  split_ifs <;> omega

section

variable (h : Window cfg A N s)
include h

/-- the distance of an SN from TX_Next_Ack is that of its index -/
theorem Window.txModBase {sn : ℕ}
    (hsn : sn % cfg.snFieldLength.mod = i % cfg.snFieldLength.mod) (hle : A ≤ i) (hlt : i < A + cfg.snFieldLength.mod) :
    s.txModBase cfg sn = i - A := modBase_index h.ack hsn hle hlt

theorem Window.txModBase_next : s.txModBase cfg s.st.txNext = N - A := by
  obtain ⟨h0, h1⟩ := sizes cfg.snFieldLength
  have h2 := h.room
  have h3 := le_top s N
  refine h.txModBase ?_ h.le (by omega)
  rw [h.next, Nat.mod_mod]

/-- the window holds an index of the SN space from TX_Next_Ack on iff it is below the top -/
theorem Window.exists_infoAt_iff (hi : A ≤ i) (hi' : i < A + cfg.snFieldLength.mod) :
    (∃ info, infoAt cfg s i = some info) ↔ i < s.top N := by
  have h0 := mod_eq cfg.snFieldLength
  have h2 := h.room
  unfold infoAt
  rw [← CircularMap.mem_keys, h.keys]
  constructor
  · rintro ⟨j, hj, hjt, heq⟩
    have := eq_of_mod_eq heq (by omega) (by omega)
    omega
  · exact fun hit => ⟨i, hi, hit, rfl⟩

theorem Window.infoAt_none (hi : s.top N ≤ i) (hi' : i < A + cfg.snFieldLength.mod) : infoAt cfg s i = none := by
  have h1 := h.le
  have h2 := le_top s N
  by_contra hne
  obtain ⟨info, hinfo⟩ := Option.ne_none_iff_exists'.1 hne
  have := (h.exists_infoAt_iff (by omega) hi').1 ⟨info, hinfo⟩
  omega

/-- every SDU in the window has an index -/
theorem Window.exists_index {sn : ℕ} {info : RlcTxAmSduInfo}
    (hf : s.txWindow.find? sn = some info) : ∃ i, A ≤ i ∧ i < s.top N ∧ sn = i % cfg.snFieldLength.mod :=
  (h.keys sn).1 (CircularMap.mem_keys.2 ⟨info, hf⟩)

theorem Window.size : s.txWindow.size = s.top N - A := by
  have h0 := mod_eq cfg.snFieldLength
  have h2 := h.room
  have hkeys : s.txWindow.keys = (Finset.Ico A (s.top N)).image (· % cfg.snFieldLength.mod) := by
    ext sn
    rw [h.keys, mem_image]
    constructor
    · rintro ⟨i, hi, hit, rfl⟩
      exact ⟨i, mem_Ico.2 ⟨hi, hit⟩, rfl⟩
    · rintro ⟨i, hmem, rfl⟩
      exact ⟨i, (mem_Ico.1 hmem).1, (mem_Ico.1 hmem).2, rfl⟩
  rw [CircularMap.size_eq_card, hkeys, card_image_of_injOn, Nat.card_Ico]
  intro i hi j hj heq
  rw [mem_coe, mem_Ico] at hi hj
  exact eq_of_mod_eq heq (by omega) (by omega)

/-- a window that is not full has room for one more index -/
theorem Window.room_of_not_full (hf : s.txWindow.full = false) : s.top N < A + cfg.snFieldLength.amWindowSize := by
  have h1 := h.room
  have hsize : s.txWindow.size ≠ s.txWindow.cap := of_decide_eq_false hf
  rw [h.size, h.cap] at hsize
  omega

end

/-! ## Changes of the window -/

/-- every delivery reported has been reported before -/
def NoDelivery (s s' : RlcTxAmEntity) : Prop := ∀ e ∈ s'.events, ∀ pdcpSn, e.deliveredSn = some pdcpSn → e ∈ s.events

theorem NoDelivery.of_eq (h : s'.events = s.events) : NoDelivery s s' := by
  intro e he _ _
  rwa [← h]

theorem NoDelivery.trans {s₁ s₂ s₃ : RlcTxAmEntity} (h : NoDelivery s₁ s₂) (h' : NoDelivery s₂ s₃) :
    NoDelivery s₁ s₃ := fun e he pdcpSn hd => h e (h' e he pdcpSn hd) pdcpSn hd

theorem NoDelivery.append (events : List TxEvent) (h : s'.events = s.events ++ events)
    (hno : ∀ e ∈ events, e.deliveredSn = none) : NoDelivery s s' := by
  intro e he pdcpSn hd
  rw [h] at he
  rcases List.mem_append.1 he with hold | hnew
  · exact hold
  · rw [hno e hnew] at hd
    cases hd

/-- nothing but the queues and the polling state has changed -/
structure SameWindow (s s' : RlcTxAmEntity) : Prop where
  ack : s'.st.txNextAck = s.st.txNextAck
  next : s'.st.txNext = s.st.txNext
  seg : s'.snUnderSegmentation = s.snUnderSegmentation
  cap : s'.txWindow.cap = s.txWindow.cap
  find : ∀ sn, s'.txWindow.find? sn = s.txWindow.find? sn
  faults : s'.faults = s.faults
  events : NoDelivery s s'

theorem SameWindow.of_eq (h : (s'.st.txNextAck, s'.st.txNext, s'.snUnderSegmentation, s'.txWindow, s'.faults,
    s'.events) =
    (s.st.txNextAck, s.st.txNext, s.snUnderSegmentation, s.txWindow, s.faults, s.events)) : SameWindow s s' := by
  simp only [Prod.mk.injEq] at h
  obtain ⟨hack, hnext, hseg, hwin, hfaults, hevents⟩ := h
  exact ⟨hack, hnext, hseg, by rw [hwin], fun _ => by rw [hwin], hfaults, NoDelivery.of_eq hevents⟩

theorem SameWindow.refl (s : RlcTxAmEntity) : SameWindow s s := .of_eq rfl

theorem SameWindow.trans {s₁ s₂ s₃ : RlcTxAmEntity} (h : SameWindow s₁ s₂) (h' : SameWindow s₂ s₃) :
    SameWindow s₁ s₃ :=
  ⟨h'.ack.trans h.ack, h'.next.trans h.next, h'.seg.trans h.seg, h'.cap.trans h.cap,
    fun sn => (h'.find sn).trans (h.find sn), h'.faults.trans h.faults, h.events.trans h'.events⟩

/-- the SDU info of one SN has been written -/
structure Wrote (sn : ℕ) (info : RlcTxAmSduInfo) (s s' : RlcTxAmEntity) : Prop where
  ack : s'.st.txNextAck = s.st.txNextAck
  cap : s'.txWindow.cap = s.txWindow.cap
  find : ∀ k, s'.txWindow.find? k = if k = sn then some info else s.txWindow.find? k
  faults : s'.faults = s.faults
  events : NoDelivery s s'

theorem SameWindow.top (h : SameWindow s s') : s'.top N = s.top N := by
  unfold RlcTxAmEntity.top
  rw [h.seg]

theorem SameWindow.infoAt (h : SameWindow s s') : infoAt cfg s' i = infoAt cfg s i := h.find _

theorem Window.congr (h : Window cfg A N s) (hs : SameWindow s s') : Window cfg A N s' := by
  refine ⟨hs.cap.trans h.cap, hs.ack.trans h.ack, hs.next.trans h.next, h.le, ?_, ?_, ?_⟩
  · rw [hs.seg]
    exact h.seg
  · rw [hs.top]
    exact h.room
  · intro sn
    rw [CircularMap.mem_keys, hs.find, ← CircularMap.mem_keys, hs.top]
    exact h.keys sn

theorem Wrote.mem_keys {sn : ℕ} (h : Wrote sn info s s') (k : ℕ) :
    k ∈ s'.txWindow.keys ↔ k = sn ∨ k ∈ s.txWindow.keys := by
  rw [CircularMap.mem_keys, h.find]
  by_cases hk : k = sn
  · simp [hk]
  · simp [hk, CircularMap.mem_keys]

/-- writing the info of index N: the window reaches up to N + 1 afterwards -/
theorem Window.wrote {N' : ℕ} (h : Window cfg A N s)
    (hw : Wrote (N % cfg.snFieldLength.mod) info s s') (hroom : N < A + cfg.snFieldLength.amWindowSize)
    (hnext : s'.st.txNext = N' % cfg.snFieldLength.mod)
    (hseg : s'.snUnderSegmentation = invalidRlcSn ∨ s'.snUnderSegmentation = N' % cfg.snFieldLength.mod)
    (htop : s'.top N' = N + 1) : Window cfg A N' s' := by
  have h1 := h.le
  have h2 := le_top s N
  have h3 := top_le s N
  have h4 := top_le s' N'
  refine ⟨hw.cap.trans h.cap, hw.ack.trans h.ack, hnext, by omega, hseg, by omega, fun sn => ?_⟩
  rw [hw.mem_keys, h.keys, htop]
  constructor
  · rintro (rfl | ⟨i, hi, hit, rfl⟩)
    · exact ⟨N, h1, Nat.lt_succ_self N, rfl⟩
    · exact ⟨i, hi, by omega, rfl⟩
  · rintro ⟨i, hi, hit, rfl⟩
    rcases Nat.lt_succ_iff_lt_or_eq.1 hit with hlt | rfl
    · exact .inr ⟨i, hi, by omega, rfl⟩
    · exact .inl rfl

theorem Wrote.infoAt (hw : Wrote (N % cfg.snFieldLength.mod) info s s')
    (hi : i < N + cfg.snFieldLength.mod) (hi' : N < i + cfg.snFieldLength.mod) :
    infoAt cfg s' i = if i = N then some info else infoAt cfg s i := by
  unfold RlcTxAmEntity.infoAt
  rw [hw.find]
  by_cases hiN : i = N
  · rw [if_pos hiN, if_pos (by rw [hiN])]
  · rw [if_neg hiN, if_neg fun heq => hiN (eq_of_mod_eq heq hi hi')]

end RlcTxAmEntity

end OcuduRan.Rlc
