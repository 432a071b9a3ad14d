/-
What the receiver passes to the upper layer.

Index `i` stands for an SDU `sdu i`, and data PDUs carry pieces of these SDUs in any order, repeated or not at all, as
in AmStatusExact. `delivered_once`: the SDUs passed on are SDUs sent, byte for byte, none of them twice, and all SDUs
below RX_Next are among them, as long as no reassembly fails: an SDU is lost, and counts as received, if no buffer can
be allocated for it or if it is stored in more segments than a byte_buffer_chain takes (`Reassembles`).
-/
import OcuduRan.Rlc.AmStatusExact

namespace OcuduRan.Rlc.RlcRxAmEntity.Traced

open List

variable {cfg : RlcRxAmConfig} {sdu : ℕ → Bytes} {t : Traced} {S H i : ℕ} {order : List ℕ} {s : RlcRxAmEntity}

/-- the SDUs of `order` have been passed to the upper layer, and these are the ones that are complete -/
structure Delivered (cfg : RlcRxAmConfig) (sdu : ℕ → Bytes) (t : Traced) (order : List ℕ) : Prop where
  nodup : order.Nodup
  sdus : t.entity.delivered = order.map sdu
  done : ∀ i, i ∈ order ↔ i < t.next + cfg.snFieldLength.amWindowSize ∧ Done cfg t.next t.entity i

/-- neither the window nor what has been delivered changes -/
structure SameDelivery (s s' : RlcRxAmEntity) : Prop where
  next : s'.st.rxNext = s.st.rxNext
  window : s'.rxWindow = s.rxWindow
  delivered : s'.delivered = s.delivered

theorem SameDelivery.postProcess (stored statusRequested : Bool) :
    SameDelivery s (s.postProcess cfg stored statusRequested) := by
  unfold RlcRxAmEntity.postProcess
  split_ifs <;> exact ⟨rfl, rfl, rfl⟩

/-- RX_Next has moved to index `R'` in a step -/
theorem Delivered.moved {op : Op} {R' : ℕ} (h : Delivered cfg sdu ⟨R', [], s⟩ order) (hex : Exact cfg sdu S H t)
    (hs : SameDelivery s (t.entity.step cfg op)) (hnext : s.st.rxNext = R' % cfg.snFieldLength.mod) (hle : t.next ≤ R')
    (hR' : R' ≤ t.next + cfg.snFieldLength.amWindowSize) : Delivered cfg sdu (t.step cfg op) order := by
  have hmoved : (t.step cfg op).next = R' := indexOf_next hex.inv (hs.next.trans hnext) hle hR'
  refine ⟨h.nodup, hs.delivered.trans h.sdus, fun i => ?_⟩
  have hfull : Full cfg (t.step cfg op).entity i ↔ Full cfg s i := full_iff_of_infoAt (infoAt_of_window hs.window i)
  rw [hmoved, h.done, Done, Done, hfull]

theorem Delivered.unmoved {op : Op} (h : Delivered cfg sdu t order) (hex : Exact cfg sdu S H t)
    (hs : SameDelivery t.entity (t.entity.step cfg op)) : Delivered cfg sdu (t.step cfg op) order :=
  moved ⟨h.nodup, h.sdus, h.done⟩ hex hs hex.inv.rxNext le_rfl (Nat.le_add_right _ _)

/-- a handled PDU of index `i` passes its SDU on if that is complete now -/
theorem Delivered.handled {R' S' H' so len : ℕ} (h : Delivered cfg sdu t order) (hex : Exact cfg sdu S H t)
    (hi : i < t.next + cfg.snFieldLength.amWindowSize) (hR' : R' ≤ t.next + cfg.snFieldLength.amWindowSize)
    (hh : Handled cfg sdu t.next R' S' H' i so len true t.entity s) : ∃ order',
      Delivered cfg sdu ⟨R', [], s⟩ order' := by
  have hle := hh.le
  have hmod := mod_eq cfg.snFieldLength
  have hH := hex.inv.highest_le
  have hothers : ∀ j ≠ i, (j ∈ order ↔ j < R' + cfg.snFieldLength.amWindowSize ∧ Done cfg R' s j) := by
    intro j hji
    rw [h.done]
    constructor
    · rintro ⟨hj, hdone⟩
      exact ⟨by omega, (hh.done j (by omega) hji).2 hdone⟩
    · rintro ⟨hj, hdone⟩
      rw [hh.done j hj hji] at hdone
      refine ⟨by_contra fun hge => ?_, hdone⟩
      -- nothing has been received of an SDU behind the window
      obtain ⟨info, hinfo, -⟩ := full_iff.1 (hdone.resolve_left (by omega))
      rw [hex.inv.toWindow.infoAt_none (by omega) (by omega)] at hinfo
      cases hinfo
  rcases hh.delivered with ⟨hnot, hdone, hout⟩ | ⟨hsame, hout⟩
  · have hnew : i ∉ order := fun hmem => hnot ((h.done i).1 hmem).2
    refine ⟨order ++ [i], h.nodup.append (nodup_singleton i) (disjoint_singleton.2 hnew), ?_, fun j => ?_⟩
    · rw [hout, h.sdus, map_append]
      rfl
    · rw [mem_append, mem_singleton]
      by_cases hji : j = i
      · simp [hji, hdone, show i < R' + cfg.snFieldLength.amWindowSize by omega]
      · rw [or_iff_left hji, hothers j hji]
  · refine ⟨order, h.nodup, hout.trans h.sdus, fun j => ?_⟩
    by_cases hji : j = i
    · rw [hji, h.done, hsame]
      exact and_congr_left' (iff_of_true hi (show i < R' + _ by omega))
    · exact hothers j hji

/-- a data PDU with which its SDU is complete finds a buffer and, in the byte_buffer_chain, room for the segments -/
def Reassembles (cfg : RlcRxAmConfig) (s : RlcRxAmEntity) : Op → Prop
  | .handlePdu buf _ allocOk => allocOk = true ∧ ∀ pdu ∈ rlcAmReadDataPduHeader cfg.snFieldLength buf,
      FitsChain (s.segmentsOf pdu.1.sn) ⟨pdu.1.si, pdu.1.so, pdu.2⟩
  | _ => True

/-- a genuine data PDU keeps what has been delivered in step with what is complete -/
theorem handlePdu_delivered {buf : Bytes} {poolOk : Bool} (hd : Delivered cfg sdu t order) (h : Exact cfg sdu S H t)
    (hgen : GenuineStep cfg sdu t (.handlePdu buf poolOk true))
    (hchain : Reassembles cfg t.entity (.handlePdu buf poolOk true)) :
    ∃ order', Delivered cfg sdu (t.step cfg (.handlePdu buf poolOk true)) order' := by
  rcases @handlePdu_cases cfg t.entity buf poolOk true with ⟨heq, -⟩ | ⟨hdr, payload, hread, hdc, hpay, heq⟩
  · refine ⟨order, hd.unmoved h ?_⟩
    rw [RlcRxAmEntity.step, heq]
    exact ⟨rfl, rfl, rfl⟩
  · have hkept : (t.entity.placeSdu cfg hdr payload poolOk true).1 = t.entity →
        ∃ order', Delivered cfg sdu (t.step cfg (.handlePdu buf poolOk true)) order' := by
      intro hsame
      refine ⟨order, hd.unmoved h ?_⟩
      rw [RlcRxAmEntity.step, heq, hsame]
      exact .postProcess ..
    cases hin : t.entity.insideRxWindow cfg hdr.sn with
    | false => exact hkept (placeSdu_outside hin)
    | true =>
      obtain ⟨hfits, hi, hi', hsn⟩ := h.index hread hin
      have hpdu := hgen hdr payload hread hdc hin
      rcases placeSdu_genuine poolOk true h.inv h.genuine hi hi' hsn hfits hpdu hpay with
        ⟨hsame, -, -⟩ | ⟨⟨R', S', hh⟩, -⟩
      · exact hkept hsame
      · have hR' : R' ≤ t.next + cfg.snFieldLength.amWindowSize :=
          calc R' ≤ max H (t.indexOf cfg hdr.sn + 1) := hh.inv.next_le.trans hh.inv.status_le
            _ ≤ t.next + cfg.snFieldLength.amWindowSize := max_le h.inv.highest_le hi'
        rw [decide_eq_true (hchain.2 (hdr, payload) hread), Bool.and_true] at hh
        obtain ⟨order', hd'⟩ := hd.handled h hi' hR' hh
        have hs : SameDelivery (t.entity.placeSdu cfg hdr payload poolOk true).1
            (t.entity.step cfg (.handlePdu buf poolOk true)) := by
          rw [RlcRxAmEntity.step, heq]
          exact .postProcess ..
        exact ⟨order', hd'.moved h hs hh.inv.rxNext hh.le hR'⟩

/-- a step on genuine PDUs in which reassembly does not fail -/
def Deliverable (cfg : RlcRxAmConfig) (sdu : ℕ → Bytes) (t : Traced) (op : Op) : Prop :=
  GenuineStep cfg sdu t op ∧ Reassembles cfg t.entity op

theorem step_delivered (op : Op) (hop : Deliverable cfg sdu t op) (hex : Exact cfg sdu S H t)
    (hd : Delivered cfg sdu t order) : ∃ order', Delivered cfg sdu (t.step cfg op) order' := by
  cases op with
  | handlePdu buf poolOk allocOk =>
    obtain rfl : allocOk = true := hop.2.1
    exact handlePdu_delivered hd hex hop.1 hop.2
  | reassemblyExpiry =>
    refine ⟨order, hd.unmoved hex ?_⟩
    rw [RlcRxAmEntity.step]
    split_ifs with hrun
    · obtain ⟨S', s', hinv, hw, hout, -, heq, -⟩ := reassemblyExpiry_inv hex.inv hrun
      rw [heq]
      exact ⟨hinv.rxNext.trans hex.inv.rxNext.symm, hw, hout⟩
    · exact ⟨rfl, rfl, rfl⟩
  | statusProhibitExpiry => exact ⟨order, hd.unmoved hex ⟨rfl, rfl, rfl⟩⟩
  | getStatusPdu =>
    refine ⟨order, hd.unmoved hex ?_⟩
    rw [RlcRxAmEntity.step]
    split_ifs <;> exact ⟨rfl, rfl, rfl⟩

/-- in every run on genuine PDUs: what has been passed on are the SDUs of `order`, each once; every SDU below RX_Next is
among them, and in the window those that are fully received -/
theorem delivered_once (cfg : RlcRxAmConfig) (sdu : ℕ → Bytes)
    (hsdu : ∀ i, 0 < (sdu i).length ∧ (sdu i).length ≤ 2 ^ 16) (ops : List Op)
    (hops : Machine.Always (step cfg) (Deliverable cfg sdu) (init cfg) ops) :
    let t := Machine.run (step cfg) (init cfg) ops
    ∃ order : List ℕ, order.Nodup ∧ t.entity.delivered = order.map sdu ∧ (∀ i < t.next, i ∈ order) ∧
      ∀ i, t.next ≤ i → (i ∈ order ↔ i < t.next + cfg.snFieldLength.amWindowSize ∧
        t.entity.fullyReceived (i % cfg.snFieldLength.mod) = true) := by
  intro t
  have hinit : Delivered cfg sdu (init cfg) [] :=
    ⟨.nil, rfl, fun i => by simp [Done, Full, fullyReceived, init, RlcRxAmEntity.init]⟩
  obtain ⟨-, order, hd⟩ : (∃ S H, Exact cfg sdu S H t) ∧ ∃ order, Delivered cfg sdu t order := by
    refine Machine.run_inv (I := fun t => (∃ S H, Exact cfg sdu S H t) ∧ ∃ order, Delivered cfg sdu t order) ?_ _ ops
      ⟨⟨0, 0, init_exact cfg (fun i => (hsdu i).1) fun i => (hsdu i).2⟩, [], hinit⟩ hops
    rintro t op ⟨⟨S, H, hex⟩, order, hd⟩ hop
    exact ⟨step_exact op ⟨S, H, hex⟩ hop.1, step_delivered op hop hex hd⟩
  refine ⟨order, hd.nodup, hd.sdus, fun i hi => (hd.done i).2 ⟨by omega, .inl hi⟩, fun i hi => ?_⟩
  rw [hd.done, Done, or_iff_right (not_lt.2 hi)]
  rfl

/-- the last segment of SN 0 before the first one, and a second time -/
def overtaken : List Op :=
  [.handlePdu [0xa0, 0, 0, 2, 3, 4] true true, .handlePdu [0x90, 0, 1, 2] true true,
    .handlePdu [0xa0, 0, 0, 2, 3, 4] true true]

theorem delivered_once_overtaken :
    let t := Machine.run (step ⟨.size12bits, 35, 0, none⟩) (init ⟨.size12bits, 35, 0, none⟩) overtaken
    ∃ order : List ℕ, order.Nodup ∧ t.entity.delivered = order.map fun _ => [1, 2, 3, 4] := by
  obtain ⟨order, hnodup, hsdus, -⟩ :=
    delivered_once ⟨.size12bits, 35, 0, none⟩ (fun _ => [1, 2, 3, 4]) (fun _ => by decide) overtaken
      ⟨⟨genuineStep_of_pduOf (by decide +kernel), rfl, by decide +kernel⟩,
        ⟨genuineStep_of_pduOf (by decide +kernel), rfl, by decide +kernel⟩,
        ⟨genuineStep_of_pduOf (by decide +kernel), rfl, by decide +kernel⟩, trivial⟩
  exact ⟨order, hnodup, hsdus⟩

end OcuduRan.Rlc.RlcRxAmEntity.Traced
