/-
Order and protection of the PDUs an AM DRB hands to the lower layers.

An epoch is the time between two increments of retransmit_id. `transmit_order`: in every run of steps that meet the
conditions below, the PDUs handed down in one epoch have strictly increasing COUNT, and each PDU was ciphered and
integrity protected in its epoch, by the security engine in force when it is handed down.

  buffered PDUs   when data recovery or re-establishment starts a new epoch, or a new security engine is installed, no
                  protected PDU waits in the window for its turn. retransmit_all_pdus rewinds TX_TRANS_CRYPTO and
                  increments retransmit_id but leaves such PDUs in the window, and only results that arrive later are
                  compared with retransmit_id (`buffered_pdu_survives`).
  results         a new engine is installed with no result on its way to apply_reordering; a result arrives before
                  retransmit_id, which has 16 bits, has gone round once.
  COUNTs          suspend is not called: it sets TX_TRANS_CRYPTO back within an epoch. A status transfer finds an empty
                  window and does not set it back.
-/
import OcuduRan.Pdcp.TxWindow

namespace OcuduRan.Pdcp.PdcpEntityTx

open List

open Rlc (Bytes PdcpSnSize)

variable {κ : Type} {setup : PdcpTxSetup κ} {s s' : PdcpEntityTx κ} {elem : PdcpTxWindowElement} {t : PdcpEntityTx κ}
  {info : PdcpTxBufferInfo}

/-! ## What the lower layers have seen -/

/-- epoch and COUNT of a PDU handed down -/
def TxEvent.submission? : TxEvent → Option (ℕ × ℕ)
  | .newDataPdu epoch count _ _ => some (epoch, count)
  | _ => none

/-- neither a PDU handed down nor a protected one -/
def TxEvent.Neutral : TxEvent → Prop
  | .newDataPdu _ _ _ _ | .secured _ _ _ _ => False
  | _ => True

/-- epochs and COUNTs of the PDUs handed down, in order -/
def submissions (s : PdcpEntityTx κ) : List (ℕ × ℕ) := s.events.filterMap TxEvent.submission?

/-- protected in this epoch by this engine -/
def SecuredBy (s : PdcpEntityTx κ) (epoch : ℕ) (engine : Option SecurityEngineTx) (count : ℕ) (pdu : Bytes) : Prop :=
  .secured epoch engine count pdu ∈ s.events

/-- a PDU protected in this epoch by the engine in force -/
def Current (s : PdcpEntityTx κ) (count : ℕ) (pdu : Bytes) : Prop := s.SecuredBy s.retransmitId s.secEngine count pdu

/-- no protected PDU waits for its turn -/
def NoBufferedPdu (s : PdcpEntityTx κ) : Prop := ∀ c elem, s.txWindow.find? c = some elem → elem.pdu = []

instance (s : PdcpEntityTx κ) : Decidable s.NoBufferedPdu :=
  decidable_of_iff (∀ c ∈ s.txWindow.keys, ∀ elem ∈ s.txWindow.find? c, elem.pdu = [])
    ⟨fun h c elem he => h c (PdcpTxWindow.mem_keys_of_find? he) elem he, fun h c _ elem he => h c elem he⟩

/-! ## Invariant -/

structure TxOrderInv (s : PdcpEntityTx κ) : Prop where
  increasing : s.submissions.Pairwise fun a b => a.1 = b.1 → a.2 < b.2
  past : ∀ e c pdu isRetx, .newDataPdu e c pdu isRetx ∈ s.events →
    e < s.retransmitId ∨ e = s.retransmitId ∧ c < s.st.txTransCrypto
  origin : ∀ e c pdu isRetx, .newDataPdu e c pdu isRetx ∈ s.events → ∃ engine, s.SecuredBy e engine c pdu
  window : ∀ c elem, s.txWindow.find? c = some elem → elem.pdu ≠ [] → s.Current c elem.pdu
  results : ∀ t ∈ s.reorderingTasks, t.retxId ≤ s.retransmitId ∧
    (t.retxId = s.retransmitId → s.Current t.count t.buf)
  tasks : ∀ t ∈ s.cryptoTasks, t.retxId ≤ s.retransmitId

/-- nothing is handed down; window elements and tasks may go, TX_TRANS_CRYPTO may move up -/
structure OrderFrame (s s' : PdcpEntityTx κ) : Prop where
  epoch : s'.retransmitId = s.retransmitId
  engine : s'.secEngine = s.secEngine
  crypto : s.st.txTransCrypto ≤ s'.st.txTransCrypto
  window : ∀ c elem, s'.txWindow.find? c = some elem → elem.pdu ≠ [] →
    ∃ old, s.txWindow.find? c = some old ∧ old.pdu = elem.pdu
  results : ∀ t ∈ s'.reorderingTasks, t ∈ s.reorderingTasks
  tasks : ∀ t ∈ s'.cryptoTasks, t ∈ s.cryptoTasks ∨ t.retxId = s.retransmitId
  events : ∃ new, s'.events = s.events ++ new ∧ ∀ e ∈ new, TxEvent.Neutral e

namespace OrderFrame

theorem refl (s : PdcpEntityTx κ) : OrderFrame s s :=
  ⟨rfl, rfl, le_rfl, fun _ elem h _ => ⟨elem, h, rfl⟩, fun _ h => h, fun _ h => .inl h, ⟨[], by simp, by simp⟩⟩

theorem trans {s'' : PdcpEntityTx κ} (h : OrderFrame s s') (h' : OrderFrame s' s'') : OrderFrame s s'' where
  epoch := h'.epoch.trans h.epoch
  engine := h'.engine.trans h.engine
  crypto := h.crypto.trans h'.crypto
  window := by
    intro c elem he hne
    obtain ⟨mid, hm, heq⟩ := h'.window c elem he hne
    obtain ⟨old, ho, heq'⟩ := h.window c mid hm (by rw [heq]; exact hne)
    exact ⟨old, ho, heq'.trans heq⟩
  results := fun t ht => h.results t (h'.results t ht)
  tasks := by
    intro t ht
    rcases h'.tasks t ht with ht | ht
    · exact h.tasks t ht
    · exact .inr (ht.trans h.epoch)
  events := Machine.appends_trans h.events h'.events

theorem neutral_of_quiet {e : TxEvent} (h : e.Quiet) : TxEvent.Neutral e := by
  cases e <;> trivial

theorem core (h : SameCore s s') : OrderFrame s s' where
  epoch := h.retransmitId
  engine := h.secEngine
  crypto := by rw [h.st]
  window := fun c elem he _ => ⟨elem, h.txWindow ▸ he, rfl⟩
  results := fun t ht => h.reorderingTasks ▸ ht
  tasks := fun t ht => .inl (h.cryptoTasks ▸ ht)
  events := by
    obtain ⟨new, heq, hq⟩ := h.events
    exact ⟨new, heq, fun e he => neutral_of_quiet (hq e he)⟩

/-- fields that do not matter here change -/
theorem of_eq (hepoch : s'.retransmitId = s.retransmitId) (hengine : s'.secEngine = s.secEngine)
    (hcrypto : s.st.txTransCrypto ≤ s'.st.txTransCrypto) (hw : s'.txWindow = s.txWindow)
    (htasks : s'.reorderingTasks = s.reorderingTasks ∧ s'.cryptoTasks = s.cryptoTasks)
    (hev : s'.events = s.events) : OrderFrame s s' :=
  ⟨hepoch, hengine, hcrypto, fun c elem he _ => ⟨elem, hw ▸ he, rfl⟩, fun t ht => htasks.1 ▸ ht,
    fun t ht => .inl (htasks.2 ▸ ht), ⟨[], by simpa using hev, by simp⟩⟩

theorem passive (setup : PdcpTxSetup κ) (s : PdcpEntityTx κ) : PassiveRule setup (OrderFrame s) where
  core hc h := h.trans (core hc)
  clock _ _ _ _ h := h.trans (of_eq rfl rfl le_rfl rfl ⟨rfl, rfl⟩ rfl)
  trans h _ _ := h.trans (of_eq rfl rfl le_rfl rfl ⟨rfl, rfl⟩ rfl)
  ack h _ _ := h.trans ⟨rfl, rfl, le_rfl, fun _ elem he _ => ⟨elem, find?_of_removeUpTo he, rfl⟩, fun _ h => h,
    fun _ h => .inl h, ⟨[], by simp [PdcpEntityTx.removeUpTo], by simp⟩⟩
  discard h _ _ := h.trans ⟨rfl, rfl, le_rfl, fun _ elem he _ => ⟨elem, find?_of_discarded he, rfl⟩, fun _ h => h,
    fun _ h => .inl h, ⟨_, rfl, by simp [TxEvent.Neutral]⟩⟩

theorem sendBuffer (s : PdcpEntityTx κ) (isRetx : Bool) (count : ℕ) (body : Bytes) (ok : Bool) :
    OrderFrame s (s.sendBuffer setup isRetx count body ok) := by
  rw [sendBuffer_eq]
  refine ⟨rfl, rfl, le_rfl, fun _ elem h _ => ⟨elem, h, rfl⟩, fun _ h => h, fun t ht => ?_, ⟨[], by simp, by simp⟩⟩
  rcases mem_append.1 ht with ht | ht
  · exact .inl ht
  · split_ifs at ht
    · rw [mem_singleton.1 ht]
      exact .inr rfl
    · cases ht

/-- a new element has no protected PDU yet -/
theorem storeSdu (s : PdcpEntityTx κ) (buf : Bytes) : OrderFrame s (s.storeSdu setup buf) := by
  refine ⟨rfl, rfl, le_rfl, fun c elem he hne => ?_, fun _ h => h, fun _ h => .inl h,
    ⟨[], by simp [PdcpEntityTx.storeSdu], by simp⟩⟩
  rw [find?_storeSdu] at he
  split_ifs at he
  · rw [← Option.some.inj he] at hne
    exact absurd rfl hne
  · exact ⟨elem, he, rfl⟩

theorem handleSdu (s : PdcpEntityTx κ) (buf : Bytes) (env : SduEnv) : OrderFrame s (s.handleSdu setup buf env) := by
  refine handleSdu_rule (passive setup s).core (passive setup s).startDiscardTimer
    (fun buf h => h.trans (storeSdu _ buf))
    (fun {t} body ok h _ => ?_) s buf env (refl s)
  have hnext : OrderFrame t { t with st := { t.st with txNext := t.st.txNext + 1 } } :=
    of_eq rfl rfl le_rfl rfl ⟨rfl, rfl⟩ rfl
  exact (h.trans hnext).trans (sendBuffer _ _ _ _ _)

variable {e c : ℕ} {pdu : Bytes}

theorem securedBy_mono (h : OrderFrame s s') {engine : Option SecurityEngineTx}
    (hp : s.SecuredBy e engine c pdu) : s'.SecuredBy e engine c pdu := by
  obtain ⟨new, heq, -⟩ := h.events
  unfold SecuredBy
  rw [heq]
  exact mem_append_left _ hp

theorem current (h : OrderFrame s s') (hp : s.Current c pdu) : s'.Current c pdu := by
  unfold Current
  rw [h.epoch, h.engine]
  exact h.securedBy_mono hp

theorem mem_of_submission (h : OrderFrame s s') {isRetx : Bool}
    (hm : .newDataPdu e c pdu isRetx ∈ s'.events) : .newDataPdu e c pdu isRetx ∈ s.events := by
  obtain ⟨new, heq, hnew⟩ := h.events
  rw [heq] at hm
  rcases mem_append.1 hm with hm | hm
  · exact hm
  · exact (hnew _ hm).elim

theorem submissions_eq (h : OrderFrame s s') : s'.submissions = s.submissions := by
  obtain ⟨new, heq, hnew⟩ := h.events
  have hnil : new.filterMap TxEvent.submission? = [] := by
    refine filterMap_eq_nil_iff.2 fun e he => ?_
    have hn := hnew e he
    cases e <;> first | rfl | exact hn.elim
  unfold submissions
  rw [heq, filterMap_append, hnil, append_nil]

theorem txOrderInv (hf : OrderFrame s s') (h : TxOrderInv s) : TxOrderInv s' where
  increasing := by rw [hf.submissions_eq]; exact h.increasing
  past := by
    intro e c pdu isRetx hm
    rw [hf.epoch]
    rcases h.past e c pdu isRetx (hf.mem_of_submission hm) with hlt | ⟨heq, hlt⟩
    · exact .inl hlt
    · exact .inr ⟨heq, hlt.trans_le hf.crypto⟩
  origin := by
    intro e c pdu isRetx hm
    obtain ⟨engine, hs⟩ := h.origin e c pdu isRetx (hf.mem_of_submission hm)
    exact ⟨engine, hf.securedBy_mono hs⟩
  window := by
    intro c elem he hne
    obtain ⟨old, ho, heq⟩ := hf.window c elem he hne
    rw [← heq]
    exact hf.current (h.window c old ho (by rw [heq]; exact hne))
  results := by
    intro t ht
    obtain ⟨hle, hcur⟩ := h.results t (hf.results t ht)
    rw [hf.epoch]
    exact ⟨hle, fun heq => hf.current (hcur heq)⟩
  tasks := by
    intro t ht
    rw [hf.epoch]
    rcases hf.tasks t ht with ht | heq
    · exact h.tasks t ht
    · exact heq.le

end OrderFrame

/-! ## Delivery -/

/-- everything handed down on the way was current at the start -/
structure Submits (s s' : PdcpEntityTx κ) : Prop where
  epoch : s'.retransmitId = s.retransmitId
  engine : s'.secEngine = s.secEngine
  events : ∃ new, s'.events = s.events ++ new ∧
    (∀ e c pdu isRetx, .newDataPdu e c pdu isRetx ∈ new → e = s.retransmitId ∧ s.Current c pdu) ∧
    ∀ e engine c pdu, .secured e engine c pdu ∉ new

namespace Submits

theorem refl (s : PdcpEntityTx κ) : Submits s s := ⟨rfl, rfl, ⟨[], by simp, by simp, by simp⟩⟩

/-- what is current now was protected before -/
theorem current (h : Submits s s') {c : ℕ} {pdu : Bytes} (hc : s'.Current c pdu) : s.Current c pdu := by
  obtain ⟨new, heq, -, hsec⟩ := h.events
  unfold Current SecuredBy at hc ⊢
  rw [h.epoch, h.engine, heq] at hc
  exact (mem_append.1 hc).resolve_right (hsec _ _ _ _)

theorem trans {s'' : PdcpEntityTx κ} (h : Submits s s') (h' : Submits s' s'') : Submits s s'' := by
  obtain ⟨new, heq, hnew, hsec⟩ := h.events
  obtain ⟨new', heq', hnew', hsec'⟩ := h'.events
  refine ⟨h'.epoch.trans h.epoch, h'.engine.trans h.engine, new ++ new', by rw [heq', heq, append_assoc], ?_, ?_⟩
  · intro e c pdu isRetx hm
    rcases mem_append.1 hm with hm | hm
    · exact hnew e c pdu isRetx hm
    · obtain ⟨he, hc⟩ := hnew' e c pdu isRetx hm
      exact ⟨he.trans h.epoch, h.current hc⟩
  · intro e engine c pdu hm
    rcases mem_append.1 hm with hm | hm
    · exact hsec e engine c pdu hm
    · exact hsec' e engine c pdu hm

end Submits

theorem OrderFrame.submits (h : OrderFrame s s') : Submits s s' := by
  obtain ⟨new, heq, hnew⟩ := h.events
  exact ⟨h.epoch, h.engine, new, heq, fun _ _ _ _ hm => (hnew _ hm).elim, fun _ _ _ _ hm => (hnew _ hm).elim⟩

/-- the PDU of TX_TRANS_CRYPTO is handed down -/
theorem TxOrderInv.write (h : TxOrderInv s)
    (hf : s.txWindow.find? s.st.txTransCrypto = some elem) (hne : elem.pdu ≠ []) (isRetx : Bool) :
    TxOrderInv ((s.writeDataPdu s.st.txTransCrypto elem.pdu isRetx).setTxTransCrypto (s.st.txTransCrypto + 1)) ∧
      Submits s ((s.writeDataPdu s.st.txTransCrypto elem.pdu isRetx).setTxTransCrypto (s.st.txTransCrypto + 1)) := by
  have hcur := h.window _ elem hf hne
  have hmono : ∀ e engine c pdu, s.SecuredBy e engine c pdu →
      ((s.writeDataPdu s.st.txTransCrypto elem.pdu isRetx).setTxTransCrypto (s.st.txTransCrypto + 1)).SecuredBy e engine
        c pdu := fun _ _ _ _ hp => mem_append_left _ hp
  have hsub : ((s.writeDataPdu s.st.txTransCrypto elem.pdu isRetx).setTxTransCrypto
      (s.st.txTransCrypto + 1)).submissions = s.submissions ++ [(s.retransmitId, s.st.txTransCrypto)] := by
    unfold submissions writeDataPdu setTxTransCrypto PdcpEntityTx.emit
    rw [filterMap_append]
    rfl
  have hmem : ∀ e c pdu r, .newDataPdu e c pdu r ∈ ((s.writeDataPdu s.st.txTransCrypto elem.pdu isRetx).setTxTransCrypto
      (s.st.txTransCrypto + 1)).events → .newDataPdu e c pdu r ∈ s.events ∨
        e = s.retransmitId ∧ c = s.st.txTransCrypto ∧ pdu = elem.pdu := by
    intro e c pdu r hm
    rcases mem_append.1 hm with hm | hm
    · exact .inl hm
    · cases mem_singleton.1 hm
      exact .inr ⟨rfl, rfl, rfl⟩
  refine ⟨⟨?_, ?_, ?_, ?_, ?_, h.tasks⟩, rfl, rfl, _, rfl, ?_, ?_⟩
  · rw [hsub, pairwise_append]
    refine ⟨h.increasing, pairwise_singleton _ _, fun a ha b hb => ?_⟩
    rw [mem_singleton.1 hb]
    obtain ⟨e, he, hea⟩ := mem_filterMap.1 ha
    cases e with
    | newDataPdu epoch count pdu r =>
      cases hea
      intro heq
      rcases h.past epoch count pdu r he with hlt | ⟨-, hlt⟩
      · exact absurd heq hlt.ne
      · exact hlt
    | _ => cases hea
  · intro e c pdu r hm
    rcases hmem e c pdu r hm with hm | ⟨rfl, rfl, -⟩
    · rcases h.past e c pdu r hm with hlt | ⟨heq, hlt⟩
      · exact .inl hlt
      · exact .inr ⟨heq, hlt.trans (Nat.lt_succ_self _)⟩
    · exact .inr ⟨rfl, Nat.lt_succ_self _⟩
  · intro e c pdu r hm
    rcases hmem e c pdu r hm with hm | ⟨rfl, rfl, rfl⟩
    · obtain ⟨engine, hs⟩ := h.origin e c pdu r hm
      exact ⟨engine, hmono _ _ _ _ hs⟩
    · exact ⟨s.secEngine, hmono _ _ _ _ hcur⟩
  · intro c elem' he hne'
    have he' : (s.txWindow.setPdu s.st.txTransCrypto []).find? c = some elem' := he
    rw [PdcpTxWindow.find?_setPdu] at he'
    split_ifs at he' with heq
    · obtain ⟨old, -, rfl⟩ := Option.map_eq_some_iff.1 he'
      exact absurd rfl hne'
    · exact hmono _ _ _ _ (h.window c elem' he' hne')
  · intro t ht
    obtain ⟨hle, hc⟩ := h.results t ht
    exact ⟨hle, fun heq => hmono _ _ _ _ (hc heq)⟩
  · intro e c pdu r hm
    cases mem_singleton.1 hm
    exact ⟨rfl, hcur⟩
  · intro e engine c pdu hm
    cases mem_singleton.1 hm

/-- what delivery preserves -/
def Delivering (s t : PdcpEntityTx κ) : Prop := TxOrderInv t ∧ Submits s t

theorem Delivering.frame {t' : PdcpEntityTx κ} (h : Delivering s t) (hf : OrderFrame t t') : Delivering s t' :=
  ⟨hf.txOrderInv h.1, h.2.trans hf.submits⟩

theorem Delivering.write (h : Delivering s t)
    (hf : t.txWindow.find? t.st.txTransCrypto = some elem) (hne : elem.pdu ≠ []) (isRetx : Bool) :
    Delivering s ((t.writeDataPdu t.st.txTransCrypto elem.pdu isRetx).setTxTransCrypto (t.st.txTransCrypto + 1)) :=
  ⟨(h.1.write hf hne isRetx).1, h.2.trans (h.1.write hf hne isRetx).2⟩

theorem Delivering.rule (setup : PdcpTxSetup κ) (s : PdcpEntityTx κ) : DeliveryRule setup (Delivering s) where
  skip h := h.frame (OrderFrame.of_eq rfl rfl (Nat.le_succ _) rfl ⟨rfl, rfl⟩ rfl)
  write isRetx h hf hne := h.write hf hne isRetx
  trans h _ _ := h.frame (OrderFrame.of_eq rfl rfl le_rfl rfl ⟨rfl, rfl⟩ rfl)
  ack c h _ _ := h.frame ((OrderFrame.passive setup _).stopDiscardTimer c (OrderFrame.refl _))
  finish _ _ h := h.frame (OrderFrame.of_eq rfl rfl le_rfl rfl ⟨rfl, rfl⟩ rfl)

/-- the result of the crypto executor is of the current epoch, and enters the window -/
theorem TxOrderInv.applyReordering (h : TxOrderInv s) (setup : PdcpTxSetup κ)
    (hlate : s.retransmitId < info.retxId + 2 ^ 16)
    (hinfo : info.retxId ≤ s.retransmitId ∧ (info.retxId = s.retransmitId → s.Current info.count info.buf)) :
    Delivering s (s.applyReordering setup info) := by
  refine (Delivering.rule setup s).applyReordering ⟨h, Submits.refl s⟩ fun hepoch => ?_
  have hcur : s.Current info.count info.buf := hinfo.2 (by omega)
  refine ⟨⟨h.increasing, h.past, h.origin, fun c elem he hne => ?_, h.results, h.tasks⟩,
    rfl, rfl, ⟨[], by simp, by simp, by simp⟩⟩
  rw [PdcpTxWindow.find?_setPdu] at he
  split_ifs at he with hc
  · obtain ⟨old, -, rfl⟩ := Option.map_eq_some_iff.1 he
    rw [hc]
    exact hcur
  · exact h.window c elem he hne

/-! ## Protection -/

/-- the PDUs handed down were current before the step -/
def Emits (s s' : PdcpEntityTx κ) : Prop :=
  ∃ new, s'.events = s.events ++ new ∧
    ∀ e c pdu isRetx, .newDataPdu e c pdu isRetx ∈ new → e = s.retransmitId ∧ s.Current c pdu

theorem Submits.emits (h : Submits s s') : Emits s s' := by
  obtain ⟨new, heq, hnew, -⟩ := h.events
  exact ⟨new, heq, hnew⟩

/-- no data PDU is handed down -/
def Silent (s s' : PdcpEntityTx κ) : Prop :=
  ∃ new, s'.events = s.events ++ new ∧ ∀ e c pdu isRetx, .newDataPdu e c pdu isRetx ∉ new

theorem Silent.emits (h : Silent s s') : Emits s s' := by
  obtain ⟨new, heq, hnew⟩ := h
  exact ⟨new, heq, fun e c pdu r hm => (hnew e c pdu r hm).elim⟩

theorem Silent.trans {s'' : PdcpEntityTx κ} (h : Silent s s') (h' : Silent s' s'') : Silent s s'' := by
  obtain ⟨new, heq, hnew⟩ := h
  obtain ⟨new', heq', hnew'⟩ := h'
  refine ⟨new ++ new', by rw [heq', heq, append_assoc], fun e c pdu r hm => ?_⟩
  rcases mem_append.1 hm with hm | hm
  · exact hnew e c pdu r hm
  · exact hnew' e c pdu r hm

theorem OrderFrame.silent (h : OrderFrame s s') : Silent s s' := by
  obtain ⟨new, heq, hnew⟩ := h.events
  exact ⟨new, heq, fun e c pdu r hm => (hnew _ hm).elim⟩

theorem TxOrderInv.frame (h : TxOrderInv s) (hf : OrderFrame s s') : TxOrderInv s' ∧ Silent s s' :=
  ⟨hf.txOrderInv h, hf.silent⟩

/-- the PDU of a task is protected in the current epoch by the engine in force -/
theorem TxOrderInv.applySecurity (h : TxOrderInv s) (setup : PdcpTxSetup κ)
    (hinfo : info.retxId ≤ s.retransmitId) (env : SecurityEnv) :
    TxOrderInv (s.applySecurity setup info env) ∧ Silent s (s.applySecurity setup info env) := by
  obtain ⟨new, tasks, heq, hnew, htasks⟩ := applySecurity_cases setup s info env
  have hnone : ∀ e ∈ new, TxEvent.submission? e = none := by
    intro e he
    rcases hnew e he with hq | ⟨engine, -, rfl⟩ | ⟨pdu, rfl⟩
    · cases e <;> first | rfl | exact hq.elim
    · rfl
    · rfl
  have hmem : ∀ e c pdu r, .newDataPdu e c pdu r ∈ new → False := fun e c pdu r hm => by cases hnone _ hm
  have hold : ∀ e c pdu r, .newDataPdu e c pdu r ∈ s.events ++ new → .newDataPdu e c pdu r ∈ s.events :=
    fun e c pdu r hm => (mem_append.1 hm).resolve_right (hmem e c pdu r)
  rw [heq]
  refine ⟨⟨?_, ?_, ?_, ?_, ?_, h.tasks⟩, new, rfl, hmem⟩
  · unfold submissions
    rw [filterMap_append, filterMap_eq_nil_iff.2 hnone, append_nil]
    exact h.increasing
  · exact fun e c pdu r hm => h.past e c pdu r (hold e c pdu r hm)
  · intro e c pdu r hm
    obtain ⟨engine, hs⟩ := h.origin e c pdu r (hold e c pdu r hm)
    exact ⟨engine, mem_append_left _ hs⟩
  · exact fun c elem he hne => mem_append_left _ (h.window c elem he hne)
  · intro t ht
    rcases mem_append.1 ht with ht | ht
    · obtain ⟨hle, hc⟩ := h.results t ht
      exact ⟨hle, fun heq => mem_append_left _ (hc heq)⟩
    · obtain ⟨pdu, rfl, hs⟩ := htasks t ht
      exact ⟨hinfo, fun _ => mem_append_right _ hs⟩

/-! ## New epochs and new engines -/

/-- TX_TRANS_CRYPTO goes back, but in a new epoch; no PDU of the old one is left in the window -/
theorem TxOrderInv.rewind (h : TxOrderInv s) (hbuf : s.NoBufferedPdu) : TxOrderInv s.rewind where
  increasing := h.increasing
  past := by
    intro e c pdu r hm
    rcases h.past e c pdu r hm with hlt | ⟨rfl, -⟩
    · exact .inl (hlt.trans (Nat.lt_succ_self _))
    · exact .inl (Nat.lt_succ_self _)
  origin := h.origin
  window := fun c elem he hne => absurd (hbuf c elem he) hne
  results := by
    intro t ht
    have hle : t.retxId ≤ s.retransmitId := (h.results t ht).1
    exact ⟨hle.trans (Nat.le_succ _), fun heq => absurd heq (Nat.lt_succ_of_le hle).ne⟩
  tasks := fun t ht => (h.tasks t ht).trans (Nat.le_succ _)

theorem TxOrderInv.retransmitAllPdus (h : TxOrderInv s) (hle : s.st.txNextAck ≤ s.st.txNext)
    (hbuf : setup.cfg.discardTimer ≠ none → s.NoBufferedPdu) (env : RetxEnv) :
    TxOrderInv (s.retransmitAllPdus setup env) ∧ Silent s (s.retransmitAllPdus setup env) := by
  have hframe : ∀ {t t'}, TxOrderInv t ∧ Silent s t → OrderFrame t t' → TxOrderInv t' ∧ Silent s t' :=
    fun h hf => ⟨hf.txOrderInv h.1, h.2.trans hf.silent⟩
  exact retransmitAllPdus_rule (P := fun t => TxOrderInv t ∧ Silent s t) (fun _ _ hc h => hframe h (OrderFrame.core hc))
    (fun t _ _ _ _ h _ _ _ _ => hframe h (OrderFrame.sendBuffer t _ _ _ _)) env s hle (h.frame (OrderFrame.refl s))
    fun hd => ⟨h.rewind (hbuf hd), (OrderFrame.refl s).silent⟩

/-- with nothing on its way an engine may be installed -/
theorem TxOrderInv.configureSecurity (h : TxOrderInv s) (hbuf : s.NoBufferedPdu) (hres : s.reorderingTasks = [])
    (secCfg : Sec128AsConfig) (integrity : IntegrityEnabled) (ciphering : Bool) :
    TxOrderInv (s.configureSecurity secCfg integrity ciphering) ∧
      Silent s (s.configureSecurity secCfg integrity ciphering) := by
  rcases configureSecurity_cases s secCfg integrity ciphering with ⟨heq, -⟩ | heq
  · rw [heq]
    exact h.frame (OrderFrame.refl s)
  · rw [heq]
    refine ⟨⟨h.increasing, h.past, h.origin, fun c elem he hne => absurd (hbuf c elem he) hne, fun t ht => ?_, h.tasks⟩,
      [], by simp, by simp⟩
    exact absurd (show t ∈ s.reorderingTasks from ht) (by simp [hres])

theorem initHeaderCompression_frame (s : PdcpEntityTx κ) : OrderFrame s (s.initHeaderCompression setup) := by
  unfold initHeaderCompression
  split_ifs
  · exact OrderFrame.of_eq rfl rfl le_rfl rfl ⟨rfl, rfl⟩ rfl
  · exact OrderFrame.refl s

theorem TxOrderInv.reestablish (h : TxOrderInv s) (hw : WindowBounded s) (hdrb : setup.cfg.rbType = .drb)
    (ham : setup.cfg.rlcMode = .am) (hbuf : s.NoBufferedPdu) (hres : s.reorderingTasks = [])
    (secCfg : Sec128AsConfig) (env : RetxEnv) :
    TxOrderInv (s.reestablish setup secCfg env) ∧ Silent s (s.reestablish setup secCfg env) := by
  obtain ⟨s1, hs1, hwin, htasks⟩ : ∃ s1, s1 = s.initHeaderCompression setup ∧ s1.txWindow = s.txWindow ∧
      s1.reorderingTasks = s.reorderingTasks := by
    refine ⟨_, rfl, ?_, ?_⟩ <;> unfold initHeaderCompression <;> split_ifs <;> rfl
  have hw1 : WindowBounded s1 := by rw [hs1]; exact hw.initHeaderCompression
  have hbuf1 : s1.NoBufferedPdu := by
    unfold NoBufferedPdu
    rw [hwin]
    exact hbuf
  have h1 : TxOrderInv s1 ∧ Silent s s1 := by
    rw [hs1]
    exact h.frame (initHeaderCompression_frame s)
  have h2 := h1.1.configureSecurity hbuf1 (htasks.trans hres) secCfg s1.integrityEnabled s1.cipheringEnabled
  have hw2 := hw1.configureSecurity secCfg s1.integrityEnabled s1.cipheringEnabled
  have hbuf2 : (s1.configureSecurity secCfg s1.integrityEnabled s1.cipheringEnabled).NoBufferedPdu := by
    unfold PdcpEntityTx.configureSecurity
    split_ifs <;> exact hbuf1
  have heq : s.reestablish setup secCfg env =
      (s1.configureSecurity secCfg s1.integrityEnabled s1.cipheringEnabled).retransmitAllPdus setup env := by
    unfold PdcpEntityTx.reestablish
    simp only [hdrb, ham, reduceCtorEq, or_self, if_false, if_true, hs1]
  rw [heq]
  obtain ⟨h3, hsil⟩ := h2.1.retransmitAllPdus hw2.le (fun _ => hbuf2) env
  exact ⟨h3, (h1.2.trans h2.2).trans hsil⟩

theorem TxOrderInv.dataRecovery (h : TxOrderInv s) (hw : WindowBounded s)
    (hbuf : setup.cfg.discardTimer ≠ none → s.NoBufferedPdu) (report : Bytes) (env : RetxEnv) :
    TxOrderInv (s.dataRecovery setup report env) ∧ Silent s (s.dataRecovery setup report env) := by
  obtain ⟨t, hcase, heq⟩ := dataRecovery_cases setup s report env
  obtain ⟨hf, hst, hwin⟩ : OrderFrame s t ∧ t.st = s.st ∧ t.txWindow = s.txWindow := by
    rcases hcase with hc | hc
    · exact ⟨OrderFrame.core hc, hc.st, hc.txWindow⟩
    · have hfault : OrderFrame s (s.fault .dataRecoveryBearer) := OrderFrame.of_eq rfl rfl le_rfl rfl ⟨rfl, rfl⟩ rfl
      exact ⟨hfault.trans (OrderFrame.core hc), hc.st, hc.txWindow⟩
  have hbuft : setup.cfg.discardTimer ≠ none → t.NoBufferedPdu := by
    unfold NoBufferedPdu
    rw [hwin]
    exact hbuf
  have hle : t.st.txNextAck ≤ t.st.txNext := by rw [hst]; exact hw.le
  obtain ⟨ht, hsil⟩ := (hf.txOrderInv h).retransmitAllPdus hle hbuft env
  rw [heq]
  exact ⟨ht, hf.silent.trans hsil⟩

/-! ## Runs -/

/-- the conditions of the header, on the state before the step -/
def OrderStep (setup : PdcpTxSetup κ) (s : PdcpEntityTx κ) : Op → Prop
  | .applyReordering idx => ∀ t ∈ s.reorderingTasks[idx]?, s.retransmitId < t.retxId + 2 ^ 16
  | .configureSecurity _ _ _ => s.NoBufferedPdu ∧ s.reorderingTasks = []
  | .dataRecovery _ _ => setup.cfg.discardTimer ≠ none → s.NoBufferedPdu
  | .reestablish _ _ => s.NoBufferedPdu ∧ s.cryptoTasks = [] ∧ s.reorderingTasks = []
  | .suspend => False
  | .setCount hfn sn =>
    s.txWindow.keys = ∅ ∧ s.st.txTransCrypto ≤ setup.cfg.snSize.computeCount hfn.toNat sn.toNat
  | _ => True

theorem OrderStep.transferOk {op : Op} (h : OrderStep setup s op) : s.TransferOk op := by
  cases op with
  | setCount hfn sn => exact h.1
  | _ => trivial

instance (s : PdcpEntityTx κ) (op : Op) : Decidable (OrderStep setup s op) := by
  cases op <;> unfold OrderStep <;> infer_instance

namespace TxOrderInv

theorem frame_emits (h : TxOrderInv s) (hf : OrderFrame s s') : TxOrderInv s' ∧ Emits s s' :=
  ⟨hf.txOrderInv h, hf.silent.emits⟩

theorem step (h : TxOrderInv s) (hw : WindowBounded s) (hdrb : setup.cfg.rbType = .drb) (ham : setup.cfg.rlcMode = .am)
    (op : Op) (hok : OrderStep setup s op) : TxOrderInv (s.step setup op) ∧ Emits s (s.step setup op) := by
  cases op with
  | handleSdu buf env => exact h.frame_emits (OrderFrame.handleSdu s buf env)
  | applySecurity idx env =>
    rw [PdcpEntityTx.step]
    cases ht : s.cryptoTasks[idx]? with
    | none => exact h.frame_emits (OrderFrame.refl s)
    | some info =>
      have hinfo := h.tasks info (mem_of_getElem? ht)
      have h1 : TxOrderInv { s with cryptoTasks := s.cryptoTasks.eraseIdx idx } :=
        { h with tasks := fun t ht => h.tasks t (mem_of_mem_eraseIdx ht) }
      obtain ⟨h2, hs⟩ := h1.applySecurity setup hinfo env
      exact ⟨h2, hs.emits⟩
  | applyReordering idx =>
    rw [PdcpEntityTx.step]
    cases ht : s.reorderingTasks[idx]? with
    | none => exact h.frame_emits (OrderFrame.refl s)
    | some info =>
      have hinfo := h.results info (mem_of_getElem? ht)
      have h1 : TxOrderInv { s with reorderingTasks := s.reorderingTasks.eraseIdx idx } :=
        { h with results := fun t ht => h.results t (mem_of_mem_eraseIdx ht) }
      obtain ⟨h2, hs⟩ := h1.applyReordering setup (hok info ht) hinfo
      exact ⟨h2, hs.emits⟩
  | configureSecurity secCfg integrity ciphering =>
    obtain ⟨h', hs⟩ := h.configureSecurity hok.1 hok.2 secCfg integrity ciphering
    exact ⟨h', hs.emits⟩
  | dataRecovery report env =>
    obtain ⟨h', hs⟩ := h.dataRecovery hw hok report env
    exact ⟨h', hs.emits⟩
  | reestablish secCfg env =>
    obtain ⟨h', hs⟩ := h.reestablish hw hdrb ham hok.1 hok.2.2 secCfg env
    exact ⟨h', hs.emits⟩
  | endBuffering env =>
    have hf : OrderFrame s (s.endBuffering setup env) :=
      Machine.run_inv_all (I := fun t => OrderFrame s t) (fun t call h => h.trans (OrderFrame.handleSdu t _ _)) _ _
        (OrderFrame.core (endBuffering_core s))
    exact h.frame_emits hf
  | suspend => exact hok.elim
  | setCount hfn sn => exact h.frame_emits (OrderFrame.of_eq rfl rfl hok.2 rfl ⟨rfl, rfl⟩ rfl)
  | resume =>
    rw [PdcpEntityTx.step]
    rcases resume_cases s with heq | ⟨-, heq⟩
    · rw [heq]
      exact h.frame_emits (OrderFrame.refl s)
    · rw [heq]
      exact h.frame_emits (OrderFrame.of_eq rfl rfl le_rfl rfl ⟨rfl, rfl⟩ rfl)
  | stop =>
    rw [PdcpEntityTx.step]
    rcases stop_cases setup s with heq | ⟨timer, cryptoTimer, -, heq⟩
    · rw [heq]
      exact h.frame_emits (OrderFrame.refl s)
    · rw [heq]
      refine h.frame_emits ⟨rfl, rfl, le_rfl, fun c elem he _ => ?_, fun _ h => h, fun _ h => .inl h,
        ⟨[], by simp, by simp⟩⟩
      exact absurd he (by simp)
  | cryptoReorderingTimerExpiry =>
    rw [PdcpEntityTx.step]
    split_ifs
    · have h1 : TxOrderInv { s with cryptoReorderingTimer := s.cryptoReorderingTimer.stop } :=
        { h with }
      obtain ⟨h2, hs⟩ := (Delivering.rule setup _).cryptoReorderingTimeout ⟨h1, Submits.refl _⟩
      exact ⟨h2, hs.emits⟩
    · exact h.frame_emits (OrderFrame.refl s)
  | _ => exact h.frame_emits ((OrderFrame.passive setup s).step _ trivial (OrderFrame.refl s))

theorem init : TxOrderInv (PdcpEntityTx.init setup) := by
  refine (initHeaderCompression_frame _).txOrderInv ⟨List.Pairwise.nil, ?_, ?_, ?_, ?_, ?_⟩
  · exact fun _ _ _ _ hm => absurd hm not_mem_nil
  · exact fun _ _ _ _ hm => absurd hm not_mem_nil
  · exact fun c elem he => absurd he (by simp [PdcpTxWindow.find?, PdcpTxWindow.empty])
  · exact fun _ ht => absurd ht not_mem_nil
  · exact fun _ ht => absurd ht not_mem_nil

end TxOrderInv

/-- In every run of an AM DRB whose steps meet the conditions, the PDUs handed down in one epoch have strictly
increasing COUNT, each was protected in its epoch, and a next step hands down only PDUs protected in the current epoch
by the engine in force. -/
theorem transmit_order (setup : PdcpTxSetup κ) (hdrb : setup.cfg.rbType = .drb) (ham : setup.cfg.rlcMode = .am)
    (ops : List Op) (hops : Machine.Always (step setup) (OrderStep setup) (init setup) ops) :
    let s := Machine.run (step setup) (init setup) ops
    (s.submissions.Pairwise fun a b => a.1 = b.1 → a.2 < b.2) ∧
      (∀ e c pdu isRetx, .newDataPdu e c pdu isRetx ∈ s.events → ∃ engine, s.SecuredBy e engine c pdu) ∧
      ∀ op, OrderStep setup s op → Emits s (s.step setup op) := by
  intro s
  have h : TxOrderInv s ∧ WindowBounded s :=
    Machine.run_inv (I := fun t => TxOrderInv t ∧ WindowBounded t)
      (fun _ op h hok => ⟨(h.1.step h.2 hdrb ham op hok).1, h.2.step op hok.transferOk⟩) _ ops
      ⟨TxOrderInv.init, WindowBounded.init⟩ hops
  exact ⟨h.1.increasing, h.1.origin, fun op hok => (h.1.step h.2 hdrb ham op hok).2⟩

/-- two SDUs whose protected PDUs overtake each other, before and after data recovery -/
def overtakingResults : List Op :=
  let overtake : List Op :=
    [.applySecurity 1 ⟨true, true, true⟩, .applySecurity 0 ⟨true, true, true⟩, .applyReordering 0, .applyReordering 0]
  [.configureSecurity sampleKey .off true, .desiredBufferSizeNotification 10000, .handleSdu [1] ⟨true, true, true⟩,
    .handleSdu [2] ⟨true, true, true⟩] ++ overtake ++ [.dataRecovery [] fun _ => ⟨true, true, true⟩] ++ overtake

theorem transmit_order_overtaking :
    let s := Machine.run (step sampleSetup) (init sampleSetup) overtakingResults
    s.submissions = [(0, 0), (0, 1), (1, 0), (1, 1)] ∧ s.submissions.Pairwise fun a b => a.1 = b.1 → a.2 < b.2 :=
  ⟨by decide +kernel, (transmit_order sampleSetup rfl rfl overtakingResults (by decide +kernel)).1⟩

def secondKey : Sec128AsConfig := { sampleKey with k128Enc := 0x000102030405060708090a0b0c0d0e0f }

/-- the task of COUNT 0 is lost, the PDU of COUNT 1 waits in the window; then the bearer is re-established -/
def rekeyedWindow : List Op :=
  [.configureSecurity sampleKey .off true, .desiredBufferSizeNotification 10000, .handleSdu [1] ⟨true, true, false⟩,
    .handleSdu [2] ⟨true, true, true⟩, .applySecurity 0 ⟨true, true, true⟩, .applyReordering 0,
    .reestablish secondKey fun _ => ⟨true, true, true⟩, .applySecurity 0 ⟨true, true, true⟩, .applyReordering 0]

/-- No task is in flight when the bearer is re-established, but the PDU of COUNT 1 is in the window: it is handed down
in the new epoch, although only the old key has protected it. -/
theorem buffered_pdu_survives :
    let s := Machine.run (step sampleSetup) (init sampleSetup) rekeyedWindow
    let before := Machine.run (step sampleSetup) (init sampleSetup) (rekeyedWindow.take 6)
    before.cryptoTasks = [] ∧ before.reorderingTasks = [] ∧
    s.secEngine = some ⟨secondKey, .off, true⟩ ∧
    .newDataPdu 1 1 [0x80, 1, 2] true ∈ s.events ∧
    s.SecuredBy 0 (some ⟨sampleKey, .off, true⟩) 1 [0x80, 1, 2] ∧
    ∀ engine, ¬s.SecuredBy 1 engine 1 [0x80, 1, 2] := by
  have hev : (Machine.run (step sampleSetup) (init sampleSetup) rekeyedWindow).events =
      [.ciphered ⟨sampleKey.k128Enc, 1, 0, .downlink⟩ [2], .secured 0 (some ⟨sampleKey, .off, true⟩) 1 [0x80, 1, 2],
        .ciphered ⟨secondKey.k128Enc, 0, 0, .downlink⟩ [1], .secured 1 (some ⟨secondKey, .off, true⟩) 0 [0x80, 0, 1],
        .newDataPdu 1 0 [0x80, 0, 1] true, .newDataPdu 1 1 [0x80, 1, 2] true] := by decide +kernel
  unfold SecuredBy
  dsimp only
  rw [hev]
  refine ⟨by decide +kernel, by decide +kernel, by decide +kernel, by simp, by simp, fun engine => by simp⟩

end OcuduRan.Pdcp.PdcpEntityTx
