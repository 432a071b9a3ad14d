/-
Runs of the transmitter against an arbitrary peer.

A `Traced` transmitter also carries the index of TX_Next_Ack, the SDUs in the order in which they were given an SN, and
all that it has given to the lower layer except STATUS PDUs, with the indices of the SNs. `Inv` holds in every state of
a run in which SDUs have 1 to 2^16 bytes and no STATUS PDU acknowledges the SDU under segmentation: the window is that
of its indices, what has been sent of an index are pieces of its SDU, and of every SDU below TX_Next the last byte has
been sent. The SDUs come from the upper layer in the order of the indices (`run_submitted`).
-/
import OcuduRan.Rlc.AmTxPoll

namespace OcuduRan.Rlc

open ModWindow List Nat

namespace RlcTxAmEntity

variable {cfg : RlcTxAmConfig} {s s' : RlcTxAmEntity} {A N i : ℕ}

theorem Filled.sized (h : Filled s) (hp : s.snUnderSegmentation ≠ invalidRlcSn → ∀ info, infoAt cfg s N = some info →
    0 < info.nextSo ∧ info.nextSo < info.sdu.length) : Sized cfg N s :=
  { h with progress := hp }

/-! ## Traced runs -/

structure Traced where
  /-- index of TX_Next_Ack -/
  ack : ℕ
  /-- SDUs in the order in which they were given an SN -/
  sdus : List Bytes
  /-- data PDUs sent, with the index of their SN -/
  sent : List (ℕ × Bytes)
  entity : RlcTxAmEntity
deriving DecidableEq, Repr

namespace Traced

variable {t : Traced} (cfg)

def init : Traced := ⟨0, [], [], RlcTxAmEntity.init cfg⟩

/-- the index an SN stands for -/
def indexOf (t : Traced) (sn : ℕ) : ℕ := t.ack + t.entity.txModBase cfg sn

/-- the SDU that has joined the window as TX_Next -/
def joined (s s' : RlcTxAmEntity) : List Bytes :=
  match s.txWindow.find? s.st.txNext, s'.txWindow.find? s.st.txNext with
  | none, some info => [info.sdu]
  | _, _ => []

/-- the data PDU sent by an operation; one that had no readable header would be recorded under SN 0 -/
def sentBy (t : Traced) (op : Op) (out : Bytes) : List (ℕ × Bytes) :=
  match op with
  | .pullPdu none _ _ =>
    let sn := ((rlcAmReadDataPduHeader cfg.snFieldLength out).map (·.1.sn)).getD 0
    if out = [] then [] else [(t.indexOf cfg sn, out)]
  | _ => []

/-- SDUs that come from the upper layer -/
def submitted : Op → List Bytes
  | .handleSdu buf _ => [buf]
  | _ => []

def step (t : Traced) (op : Op) : Traced where
  ack := t.indexOf cfg (t.entity.stepOut cfg op).1.st.txNextAck
  sdus := t.sdus ++ joined t.entity (t.entity.stepOut cfg op).1
  sent := t.sent ++ t.sentBy cfg op (t.entity.stepOut cfg op).2
  entity := (t.entity.stepOut cfg op).1

/-- byte `b` of the SDU of index `i` has been submitted to lower layers -/
def Submitted (t : Traced) (i b : ℕ) : Prop :=
  ∃ e ∈ t.sent, e.1 = i ∧ ∃ hdr payload, rlcAmReadDataPduHeader cfg.snFieldLength e.2 = some (hdr, payload) ∧
    hdr.so ≤ b ∧ b < hdr.so + payload.length

/-- SDUs have 1 to 2^16 bytes, and no STATUS PDU without NACK acknowledges the SDU under segmentation -/
def GoodStep (t : Traced) : Op → Prop
  | .handleSdu buf _ => 0 < buf.length ∧ buf.length ≤ 2 ^ 16
  | .handleStatusPdu status => t.entity.snUnderSegmentation ≠ invalidRlcSn → status.nacks = [] →
      t.entity.txModBase cfg status.ackSn ≠ t.entity.txModBase cfg (t.entity.st.txNext + 1)
  | _ => True

variable {cfg} {info : RlcTxAmSduInfo}

instance (cfg : RlcTxAmConfig) (t : Traced) : (op : Op) → Decidable (GoodStep cfg t op)
  | .handleSdu .. => instDecidableAnd
  | .handleStatusPdu _ => inferInstanceAs (Decidable (_ → _ → _))
  | .discardSdu .. | .pullPdu .. | .pollRetransmitExpiry | .bufferState _ | .stop => instDecidableTrue

structure Inv (cfg : RlcTxAmConfig) (N : ℕ) (t : Traced) : Prop where
  window : Window cfg t.ack N t.entity
  sized : Sized cfg N t.entity
  count : t.sdus.length = t.entity.top N
  sdus : ∀ i, t.ack ≤ i → i < t.entity.top N → ∀ info, infoAt cfg t.entity i = some info → t.sdus[i]? = some info.sdu
  sent : ∀ e ∈ t.sent, ∃ sdu so len, t.sdus[e.1]? = some sdu ∧ DataPdu cfg.snFieldLength e.1 sdu so len e.2
  complete : ∀ i < N, ∀ sdu, t.sdus[i]? = some sdu → t.Submitted cfg i (sdu.length - 1)
  faults : ∀ f ∈ t.entity.faults, ∃ sn, f = .snMissing sn

/-! ## Steps -/

/-- the index of TX_Next_Ack after a step -/
theorem indexOf_index (h : Window cfg t.ack N t.entity) (hi : t.ack ≤ i) (hi' : i < t.ack + cfg.snFieldLength.mod) :
    t.indexOf cfg (i % cfg.snFieldLength.mod) = i := by
  unfold indexOf
  rw [h.txModBase (mod_mod _ _) hi hi']
  omega

theorem joined_nil {s s' : RlcTxAmEntity}
    (h : s.txWindow.find? s.st.txNext = none → s'.txWindow.find? s.st.txNext = none) : joined s s' = [] := by
  unfold joined
  cases hf : s.txWindow.find? s.st.txNext with
  | none => rw [h hf]
  | some info => rfl

theorem joined_some {s s' : RlcTxAmEntity} (h : s.txWindow.find? s.st.txNext = none)
    (h' : s'.txWindow.find? s.st.txNext = some info) : joined s s' = [info.sdu] := by
  unfold joined
  rw [h, h']

theorem submitted_mono {ack : ℕ} {sdus : List Bytes} {more : List (ℕ × Bytes)} {b : ℕ} (h : t.Submitted cfg i b) :
    Submitted cfg ⟨ack, sdus, t.sent ++ more, s⟩ i b := by
  obtain ⟨e, he, hrest⟩ := h
  exact ⟨e, mem_append_left _ he, hrest⟩

theorem Inv.filled (h : Inv cfg N t) : Filled t.entity := { h.sized with }

/-- the indices of the window before and after a step; an SDU that joins the window has been in the queue -/
structure Advances (cfg : RlcTxAmConfig) (N N' : ℕ) (new : List Bytes) (t t' : Traced) : Prop where
  inv : Inv cfg N' t'
  ack_ge : t.ack ≤ t'.ack
  ack_le : t'.ack ≤ N
  top_le : t.entity.top N ≤ t'.entity.top N'
  queue : (t'.sdus ++ t'.entity.sduQueue.bufs).Sublist (t.sdus ++ t.entity.sduQueue.bufs ++ new)

/-- TX_Next_Ack may have moved, and the SDUs from it on are those of before -/
theorem Inv.moved {A' : ℕ} {new : List Bytes} (h : Inv cfg N t) (hA' : t.ack ≤ A') (hw : Window cfg A' N s')
    (hseg : s'.snUnderSegmentation = t.entity.snUnderSegmentation)
    (hkept : ∀ i, A' ≤ i → i < t.ack + cfg.snFieldLength.mod →
      (infoAt cfg s' i).map RlcTxAmSduInfo.core = (infoAt cfg t.entity i).map RlcTxAmSduInfo.core)
    (hfilled : Filled s') (hfaults : ∀ f ∈ s'.faults, f ∈ t.entity.faults ∨ ∃ sn, f = .snMissing sn)
    (hqueue : s'.sduQueue.bufs.Sublist (t.entity.sduQueue.bufs ++ new)) :
    Advances cfg N N new t ⟨t.indexOf cfg s'.st.txNextAck, t.sdus ++ joined t.entity s', t.sent ++ [], s'⟩ := by
  obtain ⟨h0, hwin⟩ := sizes cfg.snFieldLength
  have hAN := hw.le
  have hroom := h.window.room
  have htop := le_top t.entity N
  have htop' : s'.top N = t.entity.top N := by
    unfold top
    rw [hseg]
  -- what is in the window has been there before
  have hback : ∀ i, A' ≤ i → i < t.entity.top N → ∀ info, infoAt cfg s' i = some info →
      ∃ info₀, infoAt cfg t.entity i = some info₀ ∧ info₀.sdu = info.sdu ∧ info₀.nextSo = info.nextSo :=
    fun i hi hit info hinfo => exists_of_core (hkept i hi (by omega)) hinfo
  have hjoined : joined t.entity s' = [] := by
    refine joined_nil fun hnone => ?_
    have hk := hkept N hAN (by omega)
    unfold infoAt at hk
    rw [← h.window.next, hnone, Option.map_none, Option.map_eq_none_iff] at hk
    exact hk
  rw [hjoined, hw.ack, indexOf_index h.window hA' (by omega), append_nil, append_nil]
  refine ⟨⟨hw, hfilled.sized ?_, ?_, ?_, h.sent, fun i hi sdu hsdu => h.complete i hi sdu hsdu, ?_⟩, hA', hAN, htop'.ge,
    by rw [append_assoc]; exact hqueue.append_left _⟩
  · intro hne info hinfo
    have hne' : t.entity.snUnderSegmentation ≠ invalidRlcSn := hseg ▸ hne
    have hN : N < t.entity.top N := by
      unfold top
      rw [if_neg hne']
      omega
    obtain ⟨info₀, h₀, hsdu, hso⟩ := hback N hAN hN info hinfo
    rw [← hsdu, ← hso]
    exact h.sized.progress hne' info₀ h₀
  · rw [htop']
    exact h.count
  · intro i hi hit info hinfo
    rw [htop'] at hit
    obtain ⟨info₀, h₀, hsdu, -⟩ := hback i hi hit info hinfo
    rw [← hsdu]
    exact h.sdus i (le_trans hA' hi) hit info₀ h₀
  · intro f hf
    rcases hfaults f hf with hold | hnew
    · exact h.faults f hold
    · exact hnew

/-- a step that changes nothing of the window but retransmission counts -/
theorem Inv.same {new : List Bytes} (h : Inv cfg N t) (hs : SameCore t.entity s') (hfilled : Filled s')
    (hqueue : s'.sduQueue.bufs.Sublist (t.entity.sduQueue.bufs ++ new)) :
    Advances cfg N N new t ⟨t.indexOf cfg s'.st.txNextAck, t.sdus ++ joined t.entity s', t.sent ++ [], s'⟩ :=
  h.moved le_rfl (hs.window h.window) hs.seg (fun _ _ _ => hs.find _) hfilled hs.faults hqueue

/-- the data PDU recorded for a pull -/
theorem sentBy_dataPdu {sdu pdu : Bytes} {so len grantLen : ℕ} {poolOk : Bool} (h : Window cfg t.ack N t.entity)
    (hi : t.ack ≤ i) (hi' : i < t.ack + cfg.snFieldLength.mod) (hpdu : DataPdu cfg.snFieldLength i sdu so len pdu) :
    t.sentBy cfg (.pullPdu none grantLen poolOk) pdu = [(i, pdu)] := by
  obtain ⟨hdr, payload, hread, -, -, hsn, -⟩ := hpdu.read
  have hne : pdu ≠ [] := by
    rintro rfl
    cases hread
  unfold sentBy
  dsimp only
  rw [hread, if_neg hne, Option.map_some, Option.getD_some, hsn, indexOf_index h hi hi']

theorem submitted_of_dataPdu {sdu pdu : Bytes} {so len b : ℕ} (hmem : (i, pdu) ∈ t.sent)
    (hpdu : DataPdu cfg.snFieldLength i sdu so len pdu) (hlo : so ≤ b) (hhi : b < so + len) : t.Submitted cfg i b := by
  obtain ⟨hdr, payload, hread, -, -, -, hso, hlen, -⟩ := hpdu.read
  exact ⟨(i, pdu), hmem, rfl, hdr, payload, hread, by omega, by omega⟩

/-- the SDU of index N has been written and a piece of it sent -/
theorem Inv.wrote {N' so len : ℕ} {pdu : Bytes} {js : List Bytes} (h : Inv cfg N t)
    (hroom : N < t.ack + cfg.snFieldLength.amWindowSize) (hw : Wrote (N % cfg.snFieldLength.mod) info t.entity s')
    (hnext : s'.st.txNext = N' % cfg.snFieldLength.mod)
    (hseg : s'.snUnderSegmentation = invalidRlcSn ∨ s'.snUnderSegmentation = N' % cfg.snFieldLength.mod)
    (htop : s'.top N' = N + 1) (hcount : (t.sdus ++ js).length = N + 1) (hN : (t.sdus ++ js)[N]? = some info.sdu)
    (hprogress : s'.snUnderSegmentation ≠ invalidRlcSn → 0 < info.nextSo ∧ info.nextSo < info.sdu.length)
    (hpdu : DataPdu cfg.snFieldLength N info.sdu so len pdu)
    (hlast : N' = N + 1 → so + len = info.sdu.length) (hfilled : Filled s')
    (hqueue : (js ++ s'.sduQueue.bufs).Sublist t.entity.sduQueue.bufs) :
    Advances cfg N N' [] t ⟨t.ack, t.sdus ++ js, t.sent ++ [(N, pdu)], s'⟩ := by
  have h0 := mod_eq cfg.snFieldLength
  have hle := h.window.le
  have hNtop := le_top t.entity N
  have hN'top := le_top s' N'
  have hold : ∀ {i : ℕ} {sdu : Bytes}, t.sdus[i]? = some sdu → (t.sdus ++ js)[i]? = some sdu := by
    intro i sdu hi
    rw [List.getElem?_append_left (List.getElem?_eq_some_iff.1 hi).1]
    exact hi
  have hinfo : ∀ i, t.ack ≤ i → i < N + 1 → infoAt cfg s' i = if i = N then some info else infoAt cfg t.entity i :=
    fun i hi hi' => hw.infoAt (by omega) (by omega)
  refine ⟨⟨h.window.wrote hw hroom hnext hseg htop, hfilled.sized ?_, ?_, ?_, ?_, ?_, ?_⟩, le_rfl, hle,
    (top_le t.entity N).trans htop.ge, by rw [append_nil, append_assoc]; exact hqueue.append_left _⟩
  · intro hne v hv
    have hN' : N' = N := by
      unfold top at htop
      rw [if_neg hne] at htop
      omega
    rw [hN', hinfo N hle (lt_succ_self N), if_pos rfl] at hv
    cases hv
    exact hprogress hne
  · rw [htop]
    exact hcount
  · intro i hi hit v hv
    rw [htop] at hit
    rw [hinfo i hi hit] at hv
    split_ifs at hv with hiN
    · cases hv
      rw [hiN]
      exact hN
    · exact hold (h.sdus i hi (by omega) v hv)
  · intro e he
    rcases mem_append.1 he with hmem | hmem
    · obtain ⟨sdu, so', len', hsdu, hd⟩ := h.sent e hmem
      exact ⟨sdu, so', len', hold hsdu, hd⟩
    · rw [mem_singleton.1 hmem]
      exact ⟨info.sdu, so, len, hN, hpdu⟩
  · intro i hi sdu hsdu
    by_cases hiN : i < N
    · have hlen : i < t.sdus.length := by
        rw [h.count]
        omega
      rw [getElem?_append_left hlen] at hsdu
      exact submitted_mono (h.complete i hiN sdu hsdu)
    · obtain rfl : i = N := by omega
      rw [hN] at hsdu
      cases hsdu
      have hpos := hpdu.pos
      exact submitted_of_dataPdu (mem_append_right _ (mem_singleton_self _)) hpdu (by omega) (by omega)
  · rw [hw.faults]
    exact h.faults

/-- a piece of an SDU is sent once more -/
theorem Inv.record {so len : ℕ} {sdu pdu : Bytes} (h : Inv cfg N t) (hsdu : t.sdus[i]? = some sdu)
    (hpdu : DataPdu cfg.snFieldLength i sdu so len pdu) :
    Inv cfg N ⟨t.ack, t.sdus, t.sent ++ [(i, pdu)], t.entity⟩ := by
  refine ⟨h.window, h.sized, h.count, h.sdus, fun e he => ?_, fun j hj x hx => ?_, h.faults⟩
  · rcases mem_append.1 he with hmem | hmem
    · exact h.sent e hmem
    · rw [mem_singleton.1 hmem]
      exact ⟨sdu, so, len, hsdu, hpdu⟩
  · exact submitted_mono (h.complete j hj x hx)

theorem Inv.pulled {grantLen : ℕ} {poolOk : Bool} {pdu : Bytes} (h : Inv cfg N t)
    (hp : Pulled cfg t.ack N t.entity s' pdu) (hfilled : Filled s') :
    ∃ N', Advances cfg N N' [] t ⟨t.indexOf cfg s'.st.txNextAck, t.sdus ++ joined t.entity s',
      t.sent ++ t.sentBy cfg (.pullPdu none grantLen poolOk) pdu, s'⟩ := by
  obtain ⟨h0, hwin⟩ := sizes cfg.snFieldLength
  have hle := h.window.le
  have hroom := h.window.room
  have hack : ∀ {s₁ : RlcTxAmEntity}, s₁.st.txNextAck = t.entity.st.txNextAck →
      t.indexOf cfg s₁.st.txNextAck = t.ack := by
    intro s₁ heq
    rw [heq, h.window.ack]
    exact indexOf_index h.window le_rfl (by omega)
  have hfind : t.entity.txWindow.find? t.entity.st.txNext = infoAt cfg t.entity N := by
    unfold infoAt
    rw [h.window.next]
  -- an SDU that starts is new, and one that goes on is not
  have hstarts {info : RlcTxAmSduInfo} (hidle : t.entity.snUnderSegmentation = invalidRlcSn)
      (hwrote : Wrote (N % cfg.snFieldLength.mod) info t.entity s') :
      joined t.entity s' = [info.sdu] ∧ t.sdus.length = N := by
    have htop := @top_of_idle t.entity N hidle
    refine ⟨joined_some ?_ (by rw [hwrote.find, if_pos h.window.next]), h.count.trans htop⟩
    rw [hfind]
    exact h.window.infoAt_none htop.le (by omega)
  have hgoes {info : RlcTxAmSduInfo} (hinfo : infoAt cfg t.entity N = some info) : joined t.entity s' = [] := by
    refine joined_nil fun hnone => ?_
    rw [hfind, hinfo] at hnone
    cases hnone
  cases hp with
  | idle hw hretx hsdus =>
    refine ⟨N, ?_⟩
    rw [show t.sentBy cfg (.pullPdu none grantLen poolOk) [] = [] from rfl]
    exact h.same hw.sameCore hfilled (by rwa [append_nil])
  | retx i k r info hi hit hr hsn hinfo hk hend hpdu hw hretx hsdus =>
    refine ⟨N, ?_⟩
    rw [sentBy_dataPdu h.window hi (by omega) hpdu]
    have hadv := @Inv.same _ _ _ _ [] h hw.sameCore hfilled (by rw [hsdus, append_nil])
    rw [append_nil, hack hw.ack] at hadv
    rw [hack hw.ack]
    have hsdu := hadv.inv.sdus i hi (by rw [hw.top]; exact hit) info (by rw [hw.infoAt]; exact hinfo)
    exact ⟨hadv.inv.record hsdu hpdu, hadv.ack_ge, hadv.ack_le, hadv.top_le, hadv.queue⟩
  | full info hidle hN hwrote hpdu hnext hseg hretx hsdus =>
    refine ⟨N + 1, ?_⟩
    obtain ⟨hjoined, hcount⟩ := hstarts hidle hwrote
    rw [hack hwrote.ack, hjoined, sentBy_dataPdu h.window hle (by omega) hpdu]
    exact h.wrote hN hwrote hnext (.inl hseg) (top_of_idle hseg) (by simp [hcount]) (by simp [← hcount])
      (fun hne => absurd hseg hne) hpdu (fun _ => zero_add _) hfilled hsdus
  | first info hidle hN hwrote hprogress hpdu hnext hseg hretx hsdus =>
    refine ⟨N, ?_⟩
    obtain ⟨hjoined, hcount⟩ := hstarts hidle hwrote
    rw [hack hwrote.ack, hjoined, sentBy_dataPdu h.window hle (by omega) hpdu]
    exact h.wrote hN hwrote hnext (.inr hseg) (top_of_segmenting hseg) (by simp [hcount]) (by simp [← hcount])
      (fun _ => hprogress) hpdu (fun heq => absurd heq (by omega)) hfilled hsdus
  | middle info k hcont hinfo hwrote hk hpdu hnext hseg hretx hsdus =>
    refine ⟨N, ?_⟩
    have htop := top_of_segmenting hcont
    rw [hack hwrote.ack, hgoes hinfo, sentBy_dataPdu h.window hle (by omega) hpdu]
    have hpos := hpdu.pos
    refine h.wrote (by omega) hwrote hnext (.inr hseg) (top_of_segmenting hseg) ?_ ?_
      (fun _ => ⟨by dsimp only; omega, hk⟩) hpdu (fun heq => absurd heq (by omega)) hfilled (by rw [hsdus]; rfl)
    · rw [append_nil, h.count, htop]
    · rw [append_nil]
      exact h.sdus N hle (by omega) info hinfo
  | last info info' k hcont hinfo hwrote hsdu hk hpdu hnext hseg hretx hsdus =>
    refine ⟨N + 1, ?_⟩
    have htop := top_of_segmenting hcont
    rw [hack hwrote.ack, hgoes hinfo, sentBy_dataPdu h.window hle (by omega) hpdu]
    rw [← hsdu] at hk hpdu
    refine h.wrote (by omega) hwrote hnext (.inl hseg) (top_of_idle hseg) ?_ ?_
      (fun hne => absurd hseg hne) hpdu (fun _ => hk) hfilled (by rw [hsdus]; rfl)
    · rw [append_nil, h.count, htop]
    · rw [append_nil, hsdu]
      exact h.sdus N hle (by omega) info hinfo

theorem init_inv (cfg : RlcTxAmConfig) : Inv cfg 0 (init cfg) := by
  refine ⟨⟨rfl, (zero_mod _).symm, (zero_mod _).symm, le_rfl, .inl rfl, zero_le _, fun sn => ?_⟩,
    ⟨?_, ?_, ?_, fun hne => absurd rfl hne⟩, rfl, ?_, ?_, ?_, ?_⟩
  · constructor
    · intro hmem
      simp [init, RlcTxAmEntity.init] at hmem
    · rintro ⟨i, -, hi, -⟩
      exact absurd hi (not_lt_zero i)
  · intro sn info hf
    simp [init, RlcTxAmEntity.init] at hf
  · intro buf hb
    cases hb
  · intro r hr
    cases hr
  · intro i _ hi
    exact absurd hi (not_lt_zero i)
  · intro e he
    cases he
  · intro i hi
    exact absurd hi (not_lt_zero i)
  · intro f hf
    cases hf

theorem step_advances (op : Op) (h : Inv cfg N t) (hgood : GoodStep cfg t op) :
    ∃ N', Advances cfg N N' (submitted op) t (t.step cfg op) := by
  have hsized : SizedOp op := by
    cases op with
    | handleSdu buf isRetx => exact hgood
    | _ => trivial
  have hfilled : Filled (t.entity.stepOut cfg op).1 := (step_filled op h.filled hsized).1
  unfold step
  cases op with
  | handleSdu buf isRetx =>
    refine ⟨N, h.same (SameWindow.sameCore (.of_eq rfl)) hfilled ?_⟩
    rcases RlcSduQueue.write_bufs t.entity.sduQueue
      ⟨buf, isRetx && !cfg.isSrb, getPdcpSn buf cfg.pdcpSnLen cfg.isSrb⟩ with heq | heq
    · exact heq ▸ sublist_append_left _ _
    · exact heq ▸ Sublist.refl _
  | discardSdu start block =>
    obtain ⟨hs, hbufs⟩ : SameCore t.entity (t.entity.discardSdu cfg start block) ∧
        (t.entity.discardSdu cfg start block).sduQueue.bufs = t.entity.sduQueue.bufs := by
      unfold discardSdu
      dsimp only
      split_ifs
      · exact ⟨SameCore.refl _, rfl⟩
      · exact ⟨SameCore.refl _, rfl⟩
      · exact ⟨SameWindow.sameCore (.of_eq rfl), discardLoop_bufs _ _ _ _⟩
    exact ⟨N, h.same hs hfilled (hbufs ▸ sublist_append_left _ _)⟩
  | pullPdu status grantLen poolOk =>
    cases status with
    | none => exact h.pulled (pullPdu_pulled grantLen poolOk h.window h.sized) hfilled
    | some report =>
      have hs : (t.entity.stepOut cfg (.pullPdu (some report) grantLen poolOk)).1 = t.entity := by
        unfold stepOut pullPdu
        split_ifs <;> rfl
      rw [hs] at hfilled ⊢
      exact ⟨N, h.same (SameCore.refl _) hfilled (sublist_append_left _ _)⟩
  | handleStatusPdu status =>
    refine ⟨N, ?_⟩
    rcases handleStatusPdu_cases h.window h.sized.window hgood with ⟨hs, hsdus, -⟩ | ⟨a, X, -, hp⟩
    · exact h.same hs.sameCore hfilled (hsdus ▸ sublist_append_left _ _)
    · exact h.moved hp.le hp.window hp.seg hp.kept hfilled hp.faults (hp.sdus.trans (sublist_append_left _ _))
  | pollRetransmitExpiry =>
    refine ⟨N, ?_⟩
    unfold stepOut at hfilled ⊢
    by_cases hrun : t.entity.pollRetransmitTimer = true
    · rw [if_pos hrun] at hfilled ⊢
      have hs₀ : SameWindow t.entity { t.entity with pollRetransmitTimer := false } := .of_eq rfl
      obtain ⟨hs, hsdus, -⟩ := onExpiredPollRetransmitTimer_core cfg { t.entity with pollRetransmitTimer := false }
      exact h.same (hs₀.sameCore.trans hs) hfilled (hsdus.trans (sublist_append_left _ _))
    · rw [if_neg hrun] at hfilled ⊢
      exact h.same (SameCore.refl _) hfilled (sublist_append_left _ _)
  | bufferState statusLen =>
    obtain ⟨hs, -, hsdus⟩ := @getBufferState_spec cfg t.entity statusLen
    exact ⟨N, h.same hs.sameCore hfilled (hsdus.trans (sublist_append_left _ _))⟩
  | stop => exact ⟨N, h.same (SameWindow.sameCore (.of_eq rfl)) hfilled (sublist_append_left _ _)⟩

theorem run_inv (ops : List Op) (h : Machine.Always (step cfg) (GoodStep cfg) (init cfg) ops) :
    ∃ N, Inv cfg N (Machine.run (step cfg) (init cfg) ops) := by
  refine Machine.run_inv (fun t op (ht : ∃ N, Inv cfg N t) hgood => ?_) (init cfg) ops ⟨0, init_inv cfg⟩ h
  obtain ⟨N, hinv⟩ := ht
  obtain ⟨N', hadv⟩ := step_advances op hinv hgood
  exact ⟨N', hadv.inv⟩

/-- the SDUs of the window and of the queue came from the upper layer, in this order -/
theorem run_submitted (ops : List Op) (h : Inv cfg N t) (hgood : Machine.Always (step cfg) (GoodStep cfg) t ops) :
    ((Machine.run (step cfg) t ops).sdus ++ (Machine.run (step cfg) t ops).entity.sduQueue.bufs).Sublist
      (t.sdus ++ t.entity.sduQueue.bufs ++ ops.flatMap submitted) := by
  induction ops generalizing t N with
  | nil => simp
  | cons op ops ih =>
    obtain ⟨N', hadv⟩ := step_advances op h hgood.1
    have hrest := ih hadv.inv hgood.2
    rw [flatMap_cons, ← append_assoc]
    exact hrest.trans (hadv.queue.append_right _)

/-- an SDU that leaves the window has been submitted up to its last byte -/
theorem submitted_of_removed {op : Op} {sn : ℕ} (h : Inv cfg N t) (hgood : GoodStep cfg t op)
    (hbefore : t.entity.txWindow.find? sn = some info) (hafter : (t.step cfg op).entity.txWindow.find? sn = none) :
    t.Submitted cfg (t.indexOf cfg sn) (info.sdu.length - 1) := by
  have h0 := mod_eq cfg.snFieldLength
  obtain ⟨N', hadv⟩ := step_advances op h hgood
  obtain ⟨i, hi, hit, rfl⟩ := h.window.exists_index hbefore
  have hroom := h.window.room
  have htop := hadv.top_le
  have hiN : i < N := by
    by_contra hge
    -- the index would still be in the window
    have hin := (hadv.inv.window.keys (i % cfg.snFieldLength.mod)).2
      ⟨i, by have := hadv.ack_le; omega, by omega, rfl⟩
    obtain ⟨v, hv⟩ := CircularMap.mem_keys.1 hin
    rw [hafter] at hv
    cases hv
  rw [indexOf_index h.window hi (by omega)]
  exact h.complete i hiN info.sdu (h.sdus i hi hit info hbefore)

/-- in every run whose steps are good: TX_Next is within the window, the window holds exactly the SNs
[TX_Next_Ack, TX_Next) and TX_Next iff it is under segmentation, the SN under segmentation is in the window, neither
add_sn nor pull_pdu finds it otherwise, and an SDU only leaves the window after its last byte has been submitted -/
theorem txWindow_invariant (cfg : RlcTxAmConfig) (ops : List Op)
    (h : Machine.Always (step cfg) (GoodStep cfg) (init cfg) ops) :
    let t := Machine.run (step cfg) (init cfg) ops
    let s := t.entity
    s.txModBase cfg s.st.txNext ≤ cfg.snFieldLength.amWindowSize ∧
      (∀ sn, sn ∈ s.txWindow.keys ↔ sn < cfg.snFieldLength.mod ∧
        (s.txModBase cfg sn < s.txModBase cfg s.st.txNext ∨ (sn = s.st.txNext ∧ s.snUnderSegmentation = s.st.txNext))) ∧
      (s.snUnderSegmentation = invalidRlcSn ∨ s.snUnderSegmentation ∈ s.txWindow.keys) ∧
      (∀ sn, .addSnExists sn ∉ s.faults ∧ .sduUnderSegmentationMissing sn ∉ s.faults) ∧
      ∀ op, GoodStep cfg t op → ∀ sn info, s.txWindow.find? sn = some info →
        (s.step cfg op).txWindow.find? sn = none → t.Submitted cfg (t.indexOf cfg sn) (info.sdu.length - 1) := by
  intro t s
  obtain ⟨N, hinv⟩ : ∃ N, Inv cfg N t := run_inv ops h
  have hw := hinv.window
  obtain ⟨h0, hwin⟩ := sizes cfg.snFieldLength
  have hle := hw.le
  have hroom : s.top N ≤ t.ack + cfg.snFieldLength.amWindowSize := hw.room
  have hkeys : ∀ sn, sn ∈ s.txWindow.keys ↔ ∃ i, t.ack ≤ i ∧ i < s.top N ∧ sn = i % cfg.snFieldLength.mod := hw.keys
  have htop := le_top s N
  have hnext : s.txModBase cfg s.st.txNext = N - t.ack := hw.txModBase_next
  refine ⟨by omega, fun sn => ?_, ?_, fun sn => ⟨fun hf => ?_, fun hf => ?_⟩, fun op hgood sn info hb ha => ?_⟩
  · rw [hkeys, hnext]
    constructor
    · rintro ⟨i, hi, hit, rfl⟩
      refine ⟨mod_lt _ (mod_pos _), ?_⟩
      rw [hw.txModBase (mod_mod _ _) hi (by omega)]
      by_cases hiN : i < N
      · exact Or.inl (by omega)
      · -- the index is TX_Next, and in the window only under segmentation
        have hiN' : i = N := by
          have := top_le s N
          omega
        subst hiN'
        have hne : s.snUnderSegmentation ≠ invalidRlcSn := by
          intro hidle
          rw [top_of_idle hidle] at hit
          omega
        exact Or.inr ⟨hw.next.symm, (hw.seg.resolve_left hne).trans hw.next.symm⟩
    · rintro ⟨hsn, hlt | ⟨rfl, hseg⟩⟩
      · obtain ⟨i, hi, -, heq, hbase⟩ := exists_index_of_base hw.ack sn
        replace hbase : s.txModBase cfg sn = i - t.ack := hbase
        rw [mod_eq_of_lt hsn] at heq
        exact ⟨i, hi, by omega, heq⟩
      · exact ⟨N, hle, by rw [top_of_segmenting (hseg.trans hw.next)]; omega, hw.next⟩
  · rcases hw.seg with hidle | hseg
    · exact Or.inl hidle
    · refine Or.inr ((hkeys _).2 ⟨N, hle, ?_, hseg⟩)
      rw [top_of_segmenting hseg]
      exact lt_succ_self N
  · obtain ⟨_, heq⟩ := hinv.faults _ hf
    cases heq
  · obtain ⟨_, heq⟩ := hinv.faults _ hf
    cases heq
  · exact submitted_of_removed hinv hgood hb ha

def sampleCfg : RlcTxAmConfig := ⟨.size12bits, .size12bits, 0, 4, 0, 0, 8, 1000, 0, false⟩

/-- an SDU of 10 bytes sent in two segments, and its acknowledgement -/
def twoSegments : List Op :=
  [.handleSdu [1, 2, 3, 4, 5, 6, 7, 8, 9, 10] false, .pullPdu none 7 true, .pullPdu none 20 true,
    .handleStatusPdu { snSize := .size12bits, ackSn := 1 }]

theorem twoSegments_good : Machine.Always (step sampleCfg) (GoodStep sampleCfg) (init sampleCfg) twoSegments :=
  ⟨by decide +kernel, by decide +kernel, by decide +kernel, by decide +kernel, trivial⟩

theorem txWindow_invariant_two_segments :
    (Machine.run (step sampleCfg) (init sampleCfg) twoSegments).entity.txModBase sampleCfg
      (Machine.run (step sampleCfg) (init sampleCfg) twoSegments).entity.st.txNext ≤
      sampleCfg.snFieldLength.amWindowSize :=
  (txWindow_invariant sampleCfg twoSegments twoSegments_good).1

/-- in every run whose steps are good, whatever is sent as a data PDU, first or again, carries a piece of the SDU of its
index, and the SDUs of the indices are SDUs of the upper layer, in their order -/
theorem sent_pieces (cfg : RlcTxAmConfig) (ops : List Op)
    (h : Machine.Always (step cfg) (GoodStep cfg) (init cfg) ops) :
    let t := Machine.run (step cfg) (init cfg) ops
    (∀ e ∈ t.sent, ∃ sdu so len, t.sdus[e.1]? = some sdu ∧ DataPdu cfg.snFieldLength e.1 sdu so len e.2) ∧
      t.sdus.Sublist (ops.flatMap submitted) := by
  obtain ⟨N, hinv⟩ := run_inv ops h
  exact ⟨hinv.sent, (sublist_append_left _ _).trans (run_submitted ops (init_inv cfg) h)⟩

theorem sent_pieces_two_segments : ∃ sdu so len, DataPdu .size12bits 0 sdu so len [0x90, 0, 1, 2, 3, 4, 5] := by
  obtain ⟨sdu, so, len, -, hpdu⟩ :=
    (sent_pieces sampleCfg twoSegments twoSegments_good).1 (0, [0x90, 0, 1, 2, 3, 4, 5]) (by decide +kernel)
  exact ⟨sdu, so, len, hpdu⟩

/-- a report that acknowledges SN 0 while only its first 5 of 10 bytes have been sent: the SDU leaves the window,
TX_Next is behind TX_Next_Ack, and the next pull does not find the SDU under segmentation -/
theorem ack_of_sdu_under_segmentation :
    let cfg := sampleCfg
    let t := Machine.run (step cfg) (init cfg)
      [.handleSdu [1, 2, 3, 4, 5, 6, 7, 8, 9, 10] false, .pullPdu none 7 true,
        .handleStatusPdu { snSize := .size12bits, ackSn := 1 }]
    t.sent = [(0, [0x90, 0, 1, 2, 3, 4, 5])] ∧ t.entity.txWindow.find? 0 = none ∧ t.entity.snUnderSegmentation = 0 ∧
      t.entity.txModBase cfg t.entity.st.txNext = 4095 ∧
      (t.entity.step cfg (.pullPdu none 20 true)).faults = [.sduUnderSegmentationMissing 0] := by
  decide +kernel

end Traced

end RlcTxAmEntity

end OcuduRan.Rlc
