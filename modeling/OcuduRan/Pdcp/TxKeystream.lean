/-
No key stream is used for two different messages.

The ciphering engine is called with key, COUNT, bearer and direction; two calls with the same four must have the same
message, or their difference leaks. `keystream_unique`: in every run of steps that meet these conditions, they have.

  new keys       configure_security installs a key that has not been used for ciphering yet (or the engine that is there
                 already); re-establishment installs such a key, with no task of the crypto executor in flight.
  recovery       data_recovery is not called while header compression is in use and there is something to send again
                 (with a discard timer; without one nothing is sent again):
                 it runs the stateful compressor again and ciphers the result with the old key and COUNT
                 (`recovery_compresses_again`).
  transfer       a status transfer finds an empty window and does not set TX_NEXT back.
  suspension     suspend, which sets the COUNTs back and keeps the key, is called with no task in flight; SDUs are
                 buffered until resume, and by then a new key is installed.

The proof assigns a body to every COUNT below TX_NEXT: tasks in flight, stored SDUs and calls with the current key all
have the body of their COUNT.
-/
import OcuduRan.Pdcp.TxWindow

namespace OcuduRan.Pdcp.PdcpEntityTx

open Function List

open Rlc (Bytes PdcpSnSize)

variable {κ : Type} {setup : PdcpTxSetup κ} {s s' : PdcpEntityTx κ} {count : ℕ} {body : ℕ → Bytes} {t : PdcpEntityTx κ}
  {new : Bytes} {secCfg : Sec128AsConfig}

/-! ## Steps that start nothing -/

/-- nothing new is sent or ciphered; window elements and tasks may go -/
structure KeyFrame (s s' : PdcpEntityTx κ) : Prop where
  next : s'.st.txNext = s.st.txNext
  engine : s'.secEngine = s.secEngine
  suspended : s'.suspended = s.suspended
  rohc : s'.rohcComp.isSome = s.rohcComp.isSome
  tasks : ∀ t ∈ s'.cryptoTasks, t ∈ s.cryptoTasks
  window : ∀ c elem, s'.txWindow.find? c = some elem → ∃ old, s.txWindow.find? c = some old ∧ old.sduInfo = elem.sduInfo
  calls : ∀ ctx msg, .ciphered ctx msg ∈ s'.events → .ciphered ctx msg ∈ s.events

namespace KeyFrame

theorem refl (s : PdcpEntityTx κ) : KeyFrame s s :=
  ⟨rfl, rfl, rfl, rfl, fun _ h => h, fun _ elem h => ⟨elem, h, rfl⟩, fun _ _ h => h⟩

theorem trans {s'' : PdcpEntityTx κ} (h : KeyFrame s s') (h' : KeyFrame s' s'') : KeyFrame s s'' where
  next := h'.next.trans h.next
  engine := h'.engine.trans h.engine
  suspended := h'.suspended.trans h.suspended
  rohc := h'.rohc.trans h.rohc
  tasks := fun t ht => h.tasks t (h'.tasks t ht)
  window := by
    intro c elem he
    obtain ⟨mid, hm, heq⟩ := h'.window c elem he
    obtain ⟨old, ho, heq'⟩ := h.window c mid hm
    exact ⟨old, ho, heq'.trans heq⟩
  calls := fun ctx msg hm => h.calls ctx msg (h'.calls ctx msg hm)

theorem core (h : SameCore s s') : KeyFrame s s' where
  next := by rw [h.st]
  engine := h.secEngine
  suspended := h.suspended
  rohc := h.rohc
  tasks := fun t ht => h.cryptoTasks ▸ ht
  window := fun c elem he => ⟨elem, h.txWindow ▸ he, rfl⟩
  calls := by
    intro ctx msg hm
    obtain ⟨new, heq, hq⟩ := h.events
    rw [heq] at hm
    rcases mem_append.1 hm with hm | hm
    · exact hm
    · exact (hq _ hm).elim

/-- fields that do not matter here change, and perhaps the PDU of a window element -/
theorem of_eq (hnext : s'.st.txNext = s.st.txNext)
    (hfields : s'.secEngine = s.secEngine ∧ s'.suspended = s.suspended ∧ s'.rohcComp = s.rohcComp)
    (htasks : s'.cryptoTasks = s.cryptoTasks)
    (hw : s'.txWindow = s.txWindow ∨ ∃ count pdu, s'.txWindow = s.txWindow.setPdu count pdu)
    (hcalls : ∀ ctx msg, .ciphered ctx msg ∈ s'.events → .ciphered ctx msg ∈ s.events) : KeyFrame s s' where
  next := hnext
  engine := hfields.1
  suspended := hfields.2.1
  rohc := by rw [hfields.2.2]
  tasks := fun t ht => htasks ▸ ht
  window := by
    intro c elem he
    rcases hw with hw | ⟨count, pdu, hw⟩
    · exact ⟨elem, hw ▸ he, rfl⟩
    · have hinfo := s.txWindow.sduInfo_setPdu count c pdu
      rw [← hw, he] at hinfo
      obtain ⟨old, ho, heq⟩ := Option.map_eq_some_iff.1 hinfo.symm
      exact ⟨old, ho, heq⟩
  calls := hcalls

theorem passive (setup : PdcpTxSetup κ) (s : PdcpEntityTx κ) : PassiveRule setup (KeyFrame s) where
  core hc h := h.trans (core hc)
  clock _ _ _ _ h := h.trans (of_eq rfl ⟨rfl, rfl, rfl⟩ rfl (.inl rfl) fun _ _ h => h)
  trans h _ _ := h.trans (of_eq rfl ⟨rfl, rfl, rfl⟩ rfl (.inl rfl) fun _ _ h => h)
  ack h _ _ := h.trans ⟨rfl, rfl, rfl, rfl, fun _ h => h, fun _ elem he => ⟨elem, find?_of_removeUpTo he, rfl⟩,
    fun _ _ h => h⟩
  discard h _ _ := by
    refine h.trans ⟨rfl, rfl, rfl, rfl, fun _ h => h, fun _ elem he => ⟨elem, find?_of_discarded he, rfl⟩,
      fun ctx msg hm => ?_⟩
    exact (mem_append.1 hm).resolve_right fun hm => absurd (mem_singleton.1 hm) (by simp)

theorem delivery (setup : PdcpTxSetup κ) (s : PdcpEntityTx κ) : DeliveryRule setup (KeyFrame s) where
  skip h := h.trans (of_eq rfl ⟨rfl, rfl, rfl⟩ rfl (.inl rfl) fun _ _ h => h)
  write _ h _ _ := by
    refine h.trans (of_eq rfl ⟨rfl, rfl, rfl⟩ rfl (.inr ⟨_, [], rfl⟩) fun ctx msg hm => ?_)
    exact (mem_append.1 hm).resolve_right fun hm => absurd (mem_singleton.1 hm) (by simp)
  trans := (passive setup s).trans
  ack c h _ _ := (passive setup s).stopDiscardTimer c h
  finish _ _ h := h.trans (of_eq rfl ⟨rfl, rfl, rfl⟩ rfl (.inl rfl) fun _ _ h => h)

end KeyFrame

/-! ## One body for each COUNT -/

/-- the PDU with this body -/
def pduOf (setup : PdcpTxSetup κ) (count : ℕ) (body : Bytes) : Bytes :=
  prependDataPduHeader setup.cfg.rbType setup.cfg.snSize (setup.cfg.snSize.computeSn count) body

/-- what the ciphering engine gets for it -/
def cipherInput (setup : PdcpTxSetup κ) (engine : SecurityEngineTx) (count : ℕ) (body : Bytes) : Bytes :=
  (protectIntegrity setup engine (pduOf setup count body) count).drop setup.cfg.snSize.dataPduHeaderSize

/-- the ciphering engine has not been called with this key -/
def KeyUnused (s : PdcpEntityTx κ) (key : Sec128Key) : Prop := ∀ ctx msg, .ciphered ctx msg ∈ s.events → ctx.key ≠ key

/-- the current key has not been used -/
def FreshEngine (s : PdcpEntityTx κ) : Prop := ∀ engine, s.secEngine = some engine → s.KeyUnused engine.secCfg.k128Enc

structure Consistent (setup : PdcpTxSetup κ) (s : PdcpEntityTx κ) (body : ℕ → Bytes) : Prop where
  tasks : ∀ t ∈ s.cryptoTasks, t.count < s.st.txNext ∧ t.buf = pduOf setup t.count (body t.count)
  calls : ∀ ctx msg engine, .ciphered ctx msg ∈ s.events → s.secEngine = some engine →
    ctx.key = engine.secCfg.k128Enc →
    ctx.count < s.st.txNext ∧ msg = cipherInput setup engine ctx.count (body ctx.count)
  stored : s.rohcComp = none → storesCopy setup = true → ∀ c elem, s.txWindow.find? c = some elem →
    c < s.st.txNext → elem.sduInfo.sdu = body c

/-- nothing to be sent -/
def Paused (s : PdcpEntityTx κ) : Prop := s.cryptoTasks = [] ∧ ∀ c, s.txWindow.find? c = none

structure KeystreamInv (setup : PdcpTxSetup κ) (s : PdcpEntityTx κ) : Prop where
  unique : ∀ ctx msg msg', .ciphered ctx msg ∈ s.events → .ciphered ctx msg' ∈ s.events → msg = msg'
  active : s.suspended = false → ∃ body, Consistent setup s body
  paused : s.suspended = true → s.Paused

theorem eq_none_of_isSome {o o' : Option κ} (h : o'.isSome = o.isSome) (hn : o' = none) : o = none := by
  rw [hn] at h
  exact Option.isNone_iff_eq_none.1 (by rw [← Option.not_isSome, ← h]; rfl)

namespace KeyFrame

theorem consistent (hf : KeyFrame s s') {body : ℕ → Bytes} (h : Consistent setup s body) :
    Consistent setup s' body where
  tasks := by
    intro t ht
    rw [hf.next]
    exact h.tasks t (hf.tasks t ht)
  calls := by
    intro ctx msg engine hm he hk
    rw [hf.next]
    exact h.calls ctx msg engine (hf.calls ctx msg hm) (hf.engine ▸ he) hk
  stored := by
    intro hr hcopy c elem he hc
    obtain ⟨old, ho, heq⟩ := hf.window c elem he
    rw [← heq]
    exact h.stored (eq_none_of_isSome hf.rohc hr) hcopy c old ho (hf.next ▸ hc)

theorem paused (hf : KeyFrame s s') (h : s.Paused) : s'.Paused := by
  constructor
  · refine eq_nil_iff_forall_not_mem.2 fun t ht => ?_
    have := hf.tasks t ht
    rw [h.1] at this
    cases this
  · intro c
    cases he : s'.txWindow.find? c with
    | none => rfl
    | some elem =>
      obtain ⟨old, ho, -⟩ := hf.window c elem he
      rw [h.2 c] at ho
      cases ho

theorem keystreamInv (hf : KeyFrame s s') (h : KeystreamInv setup s) : KeystreamInv setup s' where
  unique := fun ctx msg msg' hm hm' => h.unique ctx msg msg' (hf.calls ctx msg hm) (hf.calls ctx msg' hm')
  active := by
    intro hs
    obtain ⟨body, hb⟩ := h.active (hf.suspended ▸ hs)
    exact ⟨body, hf.consistent hb⟩
  paused := fun hs => hf.paused (h.paused (hf.suspended ▸ hs))

end KeyFrame

/-! ## Sending -/

theorem mem_sendBuffer {isRetx : Bool} {body : Bytes} {ok : Bool} {t : PdcpTxBufferInfo}
    (ht : t ∈ (s.sendBuffer setup isRetx count body ok).cryptoTasks) :
    t ∈ s.cryptoTasks ∨ t.count = count ∧ t.buf = pduOf setup count body := by
  rw [sendBuffer_eq] at ht
  rcases mem_append.1 ht with ht | ht
  · exact .inl ht
  · split_ifs at ht
    · rw [mem_singleton.1 ht]
      exact .inr ⟨rfl, rfl⟩
    · cases ht

/-- what sendBuffer leaves as it is -/
theorem sendBuffer_fields (setup : PdcpTxSetup κ) (s : PdcpEntityTx κ) (isRetx : Bool) (count : ℕ) (body : Bytes)
    (ok : Bool) :
    let s1 := s.sendBuffer setup isRetx count body ok
    s1.st = s.st ∧ s1.txWindow = s.txWindow ∧ s1.rohcComp = s.rohcComp ∧ s1.secEngine = s.secEngine ∧
      s1.events = s.events ∧ s1.suspended = s.suspended := by
  rw [sendBuffer_eq]
  exact ⟨rfl, rfl, rfl, rfl, rfl, rfl⟩

section

variable (h : Consistent setup s body)
include h

/-- the body of a COUNT is sent (again) -/
theorem Consistent.sendBuffer (hcount : count < s.st.txNext) (isRetx ok : Bool) :
    Consistent setup (s.sendBuffer setup isRetx count (body count) ok) body := by
  obtain ⟨hst, hw, hr, he, hev, -⟩ := sendBuffer_fields setup s isRetx count (body count) ok
  refine ⟨fun t ht => ?_, ?_, ?_⟩
  · rw [hst]
    rcases mem_sendBuffer ht with ht | ⟨hc, hb⟩
    · exact h.tasks t ht
    · rw [hc]
      exact ⟨hcount, hb⟩
  · rw [hst, he, hev]
    exact h.calls
  · rw [hst, hw, hr]
    exact h.stored

/-- a COUNT that no task and no call uses gets a body -/
theorem Consistent.update (htasks : ∀ t ∈ s.cryptoTasks, t.count ≠ count)
    (hcalls : ∀ ctx msg engine, .ciphered ctx msg ∈ s.events → s.secEngine = some engine →
      ctx.key = engine.secCfg.k128Enc → ctx.count ≠ count)
    (hstored : s.rohcComp = none → storesCopy setup = true → ∀ elem, s.txWindow.find? count = some elem →
      count < s.st.txNext → elem.sduInfo.sdu = new) : Consistent setup s (update body count new) where
  tasks := by
    intro t ht
    rw [update_of_ne (htasks t ht)]
    exact h.tasks t ht
  calls := by
    intro ctx msg engine hm he hk
    rw [update_of_ne (hcalls ctx msg engine hm he hk)]
    exact h.calls ctx msg engine hm he hk
  stored := by
    intro hr hcopy c elem hf hc
    by_cases heq : c = count
    · subst heq
      rw [update_self]
      exact hstored hr hcopy elem hf hc
    · rw [update_of_ne heq]
      exact h.stored hr hcopy c elem hf hc

theorem Consistent.storeSdu (buf : Bytes) : Consistent setup (s.storeSdu setup buf) body where
  tasks := h.tasks
  calls := h.calls
  stored := by
    intro hr hcopy c elem hf hc
    have hc' : c < s.st.txNext := hc
    rw [find?_storeSdu, if_neg hc'.ne] at hf
    split_ifs at hf
    exact h.stored hr hcopy c elem hf hc'

/-- the SDU that was just stored is sent with the next COUNT -/
theorem Consistent.sent {buf : Bytes} {s2 : PdcpEntityTx κ}
    (hs2 : SameCore (s.storeSdu setup buf) s2) (hnew : s2.rohcComp = none → new = buf) (ok : Bool) :
    ∃ body', Consistent setup ({ s2 with st := { s2.st with txNext := s2.st.txNext + 1 } }.sendBuffer setup false
      s2.st.txNext new ok) body' := by
  have h2 : Consistent setup s2 body := (KeyFrame.core hs2).consistent (h.storeSdu buf)
  have hst : s2.st = s.st := hs2.st
  have hwin : s2.txWindow = (s.storeSdu setup buf).txWindow := hs2.txWindow
  have hbody := update_self s2.st.txNext new body
  have h3 : Consistent setup { s2 with st := { s2.st with txNext := s2.st.txNext + 1 } }
      (Function.update body s2.st.txNext new) := by
    refine ⟨fun t ht => ?_, fun ctx msg engine hm he hk => ?_, fun hr hcopy c elem hf hc => ?_⟩
    · obtain ⟨hlt, hb⟩ := h2.tasks t ht
      rw [update_of_ne hlt.ne]
      exact ⟨hlt.trans (Nat.lt_succ_self _), hb⟩
    · obtain ⟨hlt, hb⟩ := h2.calls ctx msg engine hm he hk
      rw [update_of_ne hlt.ne]
      exact ⟨hlt.trans (Nat.lt_succ_self _), hb⟩
    · rcases Nat.lt_succ_iff_lt_or_eq.1 (show c < s2.st.txNext + 1 from hc) with hlt | heq
      · rw [update_of_ne hlt.ne]
        exact h2.stored hr hcopy c elem hf hlt
      · have hf' : s2.txWindow.find? c = some elem := hf
        rw [hwin, find?_storeSdu, if_pos (by rw [heq, hst])] at hf'
        rw [heq, hbody, ← Option.some.inj hf', hnew hr]
        exact if_pos hcopy
  have hsent := h3.sendBuffer (show s2.st.txNext < s2.st.txNext + 1 from Nat.lt_succ_self _) false ok
  rw [hbody] at hsent
  exact ⟨_, hsent⟩

end

/-! ## Steps that send -/

/-- tasks may be added, but the ciphering engine is not called -/
structure NoCalls (s s' : PdcpEntityTx κ) : Prop where
  suspended : s'.suspended = s.suspended
  calls : ∀ ctx msg, .ciphered ctx msg ∈ s'.events → .ciphered ctx msg ∈ s.events

theorem NoCalls.trans {s'' : PdcpEntityTx κ} (h : NoCalls s s') (h' : NoCalls s' s'') : NoCalls s s'' :=
  ⟨h'.suspended.trans h.suspended, fun ctx msg hm => h.calls ctx msg (h'.calls ctx msg hm)⟩

theorem KeyFrame.noCalls (h : KeyFrame s s') : NoCalls s s' := ⟨h.suspended, h.calls⟩

theorem NoCalls.sendBuffer (isRetx : Bool) (count : ℕ) (body : Bytes) (ok : Bool) :
    NoCalls s (s.sendBuffer setup isRetx count body ok) := by
  obtain ⟨-, -, -, -, hev, hsus⟩ := sendBuffer_fields setup s isRetx count body ok
  exact ⟨hsus, fun ctx msg hm => hev ▸ hm⟩

theorem NoCalls.keystreamInv (hn : NoCalls s s') (h : KeystreamInv setup s)
    (hactive : s.suspended = false → ∃ body, Consistent setup s' body) (hpaused : s.suspended = true → s'.Paused) :
    KeystreamInv setup s' where
  unique := fun ctx msg msg' hm hm' => h.unique ctx msg msg' (hn.calls ctx msg hm) (hn.calls ctx msg' hm')
  active := fun hs => hactive (hn.suspended ▸ hs)
  paused := fun hs => hpaused (hn.suspended ▸ hs)

theorem startDiscardTimer_frame (setup : PdcpTxSetup κ) (s : PdcpEntityTx κ) : KeyFrame s (s.startDiscardTimer setup) :=
  (KeyFrame.passive setup s).startDiscardTimer (KeyFrame.refl s)

theorem handleSdu_noCalls (setup : PdcpTxSetup κ) (s : PdcpEntityTx κ) (buf : Bytes) (env : SduEnv) :
    NoCalls s (s.handleSdu setup buf env) := by
  refine handleSdu_rule (fun hc h => h.trans (KeyFrame.core hc).noCalls)
    (fun {t} h => h.trans (startDiscardTimer_frame setup t).noCalls) (fun _ h => ⟨h.suspended, h.calls⟩)
    (fun {t} body ok h _ => ?_) s buf env (KeyFrame.refl s).noCalls
  have hnext : NoCalls s { t with st := { t.st with txNext := t.st.txNext + 1 } } := ⟨h.suspended, h.calls⟩
  exact hnext.trans (NoCalls.sendBuffer _ _ _ _)

namespace KeystreamInv

theorem handleSdu (h : KeystreamInv setup s) {buf : Bytes} {env : SduEnv}
    (hok : s.suspended = true → s.buffering = true) : KeystreamInv setup (s.handleSdu setup buf env) := by
  rcases handleSdu_cases setup s buf env with hc | ⟨s1, hc, -, -, hbuf, -, -, heq⟩
  · exact (KeyFrame.core hc).keystreamInv h
  · have hact : s.suspended = false := by
      by_contra hs
      rw [Bool.not_eq_false] at hs
      rw [hok hs] at hbuf
      cases hbuf
    have hf : KeyFrame s (s1.startDiscardTimer setup) := (KeyFrame.core hc).trans (startDiscardTimer_frame setup s1)
    obtain ⟨body, hb⟩ := h.active hact
    have h1 : Consistent setup (s1.startDiscardTimer setup) body := hf.consistent hb
    refine (handleSdu_noCalls setup s buf env).keystreamInv h (fun _ => ?_) fun hs => absurd hs (by rw [hact]; decide)
    rw [heq]
    rcases transmitSdu_cases setup s1 buf env with ⟨-, -, hs⟩ | ⟨-, hs⟩ | ⟨s2, new, hs, hnew, heq2⟩
    · exact ⟨body, (KeyFrame.core hs).consistent h1⟩
    · exact ⟨body, (KeyFrame.core hs).consistent (h1.storeSdu buf)⟩
    · rw [heq2]
      refine h1.sent hs (fun hr => hnew ?_) env.executeOk
      exact eq_none_of_isSome (hs.rohc.trans (startDiscardTimer_frame setup s1).rohc) hr

/-- the buffered SDUs of an entity that is not suspended -/
theorem endBuffering (h : KeystreamInv setup s) (hact : s.suspended = false) (env : ℕ → SduEnv) :
    KeystreamInv setup (s.endBuffering setup env) := by
  have hstart : KeystreamInv setup { s with buffering := false, sduBuffer := [] } :=
    (KeyFrame.core (endBuffering_core s)).keystreamInv h
  have hend : KeystreamInv setup (s.endBuffering setup env) ∧ (s.endBuffering setup env).suspended = false := by
    refine Machine.run_inv_all (I := fun t => KeystreamInv setup t ∧ t.suspended = false) (fun t call ht => ?_) _ _
      ⟨hstart, hact⟩
    exact ⟨ht.1.handleSdu fun hs => absurd ht.2 (by rw [hs]; decide),
      (handleSdu_noCalls setup t _ _).suspended.trans ht.2⟩
  exact hend.1

/-- a task is ciphered: the call agrees with every earlier one for its COUNT -/
theorem applySecurity (h : KeystreamInv setup s) {info : PdcpTxBufferInfo} (hmem : info ∈ s.cryptoTasks)
    (hf : KeyFrame s s') (env : SecurityEnv) : KeystreamInv setup (s'.applySecurity setup info env) := by
  have hact : s.suspended = false := by
    by_contra hs
    rw [(h.paused (by simpa using hs)).1] at hmem
    cases hmem
  have h' := hf.keystreamInv h
  obtain ⟨body, hb⟩ := h.active hact
  obtain ⟨hcount, hbuf⟩ := hb.tasks info hmem
  have hb' := hf.consistent hb
  have hlt : info.count < s'.st.txNext := by rw [hf.next]; exact hcount
  obtain ⟨new, tasks, heq, hnew, -⟩ := applySecurity_cases setup s' info env
  rw [heq]
  -- a new call is the call for the body of this COUNT
  have hcall : ∀ ctx msg, .ciphered ctx msg ∈ new → ∃ engine, s'.secEngine = some engine ∧
      ctx = securityContext setup engine.secCfg.k128Enc info.count ∧
      msg = cipherInput setup engine info.count (body info.count) := by
    intro ctx msg hm
    rcases hnew _ hm with hq | ⟨engine, he, heq⟩ | ⟨pdu, heq⟩
    · exact hq.elim
    · cases heq
      exact ⟨engine, he, rfl, by rw [hbuf, cipherInput]⟩
    · cases heq
  have hcalls : ∀ ctx msg engine, .ciphered ctx msg ∈ s'.events ++ new → s'.secEngine = some engine →
      ctx.key = engine.secCfg.k128Enc →
      ctx.count < s'.st.txNext ∧ msg = cipherInput setup engine ctx.count (body ctx.count) := by
    intro ctx msg engine hm he hk
    rcases mem_append.1 hm with hm | hm
    · exact hb'.calls ctx msg engine hm he hk
    · obtain ⟨engine', he', rfl, rfl⟩ := hcall ctx msg hm
      rw [he] at he'
      cases he'
      exact ⟨hlt, rfl⟩
  refine ⟨fun ctx msg msg' hm hm' => ?_, fun _ => ⟨body, hb'.tasks, hcalls, hb'.stored⟩, fun hs => ?_⟩
  · -- two old calls, or a key in use now
    by_cases hold : .ciphered ctx msg ∈ s'.events ∧ .ciphered ctx msg' ∈ s'.events
    · exact h'.unique ctx msg msg' hold.1 hold.2
    · have hkey : ∃ engine, s'.secEngine = some engine ∧ ctx.key = engine.secCfg.k128Enc := by
        rcases not_and_or.1 hold with hno | hno
        · obtain ⟨engine, he, rfl, -⟩ := hcall ctx msg ((mem_append.1 hm).resolve_left hno)
          exact ⟨engine, he, rfl⟩
        · obtain ⟨engine, he, rfl, -⟩ := hcall ctx msg' ((mem_append.1 hm').resolve_left hno)
          exact ⟨engine, he, rfl⟩
      obtain ⟨engine, he, hk⟩ := hkey
      rw [(hcalls ctx msg engine hm he hk).2, (hcalls ctx msg' engine hm' he hk).2]
  · exact absurd hact (by rw [← hf.suspended, show s'.suspended = true from hs]; decide)

end KeystreamInv

/-! ## New keys -/

theorem Consistent.newEngine (h : Consistent setup s body) (secCfg : Sec128AsConfig)
    (integrity : IntegrityEnabled) (ciphering : Bool) (hkey : s.KeyUnused secCfg.k128Enc) :
    Consistent setup { s with
        integrityEnabled := integrity
        cipheringEnabled := ciphering
        secEngine := some ⟨secCfg, integrity, ciphering⟩ } body := by
  refine ⟨h.tasks, fun ctx msg engine hm he hk => ?_, h.stored⟩
  cases he
  exact absurd hk (hkey ctx msg hm)

theorem KeystreamInv.configureSecurity (h : KeystreamInv setup s) {integrity : IntegrityEnabled} {ciphering : Bool}
    (hok : s.KeyUnused secCfg.k128Enc ∨ s.secEngine = some ⟨secCfg, integrity, ciphering⟩) :
    KeystreamInv setup (s.configureSecurity secCfg integrity ciphering) := by
  rcases configureSecurity_cases s secCfg integrity ciphering with ⟨heq, -⟩ | heq
  · rwa [heq]
  · rw [heq]
    rcases hok with hkey | hsame
    · refine ⟨h.unique, fun hs => ?_, h.paused⟩
      obtain ⟨body, hb⟩ := h.active hs
      exact ⟨body, hb.newEngine secCfg integrity ciphering hkey⟩
    · have hf : KeyFrame s { s with
          integrityEnabled := integrity
          cipheringEnabled := ciphering
          secEngine := some ⟨secCfg, integrity, ciphering⟩ } :=
        KeyFrame.of_eq rfl ⟨hsame.symm, rfl, rfl⟩ rfl (.inl rfl) fun _ _ h => h
      exact hf.keystreamInv h

/-! ## Sending again -/

theorem FreshEngine.frame (hf : KeyFrame s s') (h : s.FreshEngine) : s'.FreshEngine :=
  fun engine he ctx msg hm => h engine (hf.engine ▸ he) ctx msg (hf.calls ctx msg hm)

theorem rewind_frame (s : PdcpEntityTx κ) : KeyFrame s s.rewind :=
  KeyFrame.of_eq rfl ⟨rfl, rfl, rfl⟩ rfl (.inl rfl) fun _ _ h => h

/-- with a key that was not used, every COUNT of the window gets the body it is now sent with -/
theorem retransmitAllPdus_fresh (hle : s.st.txNextAck ≤ s.st.txNext) (h : Consistent setup s body)
    (htasks : s.cryptoTasks = []) (hfresh : s.FreshEngine) (env : RetxEnv) :
    NoCalls s (s.retransmitAllPdus setup env) ∧ ∃ body', Consistent setup (s.retransmitAllPdus setup env) body' := by
  unfold retransmitAllPdus
  split_ifs with h1 h2
  · exact ⟨(KeyFrame.refl s).noCalls, body, h⟩
  · exact ⟨(KeyFrame.refl s).noCalls, body, h⟩
  · have hrw := rewind_frame s
    have hstart : NoCalls s s.rewind ∧ (∃ body, Consistent setup s.rewind body) ∧
        (∀ t ∈ s.rewind.cryptoTasks, t.count < s.rewind.st.txNextAck) ∧ s.rewind.FreshEngine := by
      refine ⟨hrw.noCalls, ⟨body, hrw.consistent h⟩, fun t ht => ?_, hfresh.frame hrw⟩
      have ht' : t ∈ s.cryptoTasks := ht
      rw [htasks] at ht'
      cases ht'
    let P : ℕ → PdcpEntityTx κ → Prop := fun n t => NoCalls s t ∧ (∃ body, Consistent setup t body) ∧
      (∀ u ∈ t.cryptoTasks, u.count < n) ∧ t.FreshEngine
    have hend : ∃ n, P n (s.rewind.retransmitPdus setup env s.st.txNextAck (s.st.txNext - s.st.txNextAck)) := by
      refine retransmitPdus_indexed ?_ ?_ ?_ env _ _ s.rewind hstart
        (show s.st.txNextAck + (s.st.txNext - s.st.txNextAck) ≤ s.st.txNext by omega)
      · rintro n t t' hc ⟨hno, ⟨body, hb⟩, hlt, hfr⟩
        have hf := KeyFrame.core hc
        exact ⟨hno.trans hf.noCalls, ⟨body, hf.consistent hb⟩, fun u hu => hlt u (hf.tasks u hu), hfr.frame hf⟩
      · rintro n t ⟨hno, hbody, hlt, hfr⟩
        exact ⟨hno, hbody, fun u hu => (hlt u hu).trans (Nat.lt_succ_self n), hfr⟩
      · rintro n t elem new ok ⟨hno, ⟨body, hb⟩, hlt, hfr⟩ hn hf hnew
        have hup : Consistent setup t (update body n new) := by
          refine hb.update (fun u hu => (hlt u hu).ne) ?_ ?_
          · intro ctx msg engine hm he hk
            exact absurd hk (hfr engine he ctx msg hm)
          · intro hr _ elem' hf' _
            rw [hf] at hf'
            rw [← Option.some.inj hf', hnew hr]
        have hsent := hup.sendBuffer hn true ok
        rw [update_self] at hsent
        obtain ⟨-, -, -, he, hev, -⟩ := sendBuffer_fields setup t true n new ok
        refine ⟨hno.trans (NoCalls.sendBuffer _ _ _ _), ⟨_, hsent⟩, fun u hu => ?_, ?_⟩
        · rcases mem_sendBuffer hu with hu | ⟨hc, -⟩
          · exact (hlt u hu).trans (Nat.lt_succ_self n)
          · rw [hc]
            exact Nat.lt_succ_self n
        · intro engine he' ctx msg hm
          exact hfr engine (he ▸ he') ctx msg (hev ▸ hm)
    obtain ⟨-, hno, hbody, -, -⟩ := hend
    exact ⟨hno, hbody⟩

theorem recoverable_core (hc : SameCore s s') (h : s.rohcComp = none ∨ ∀ c, s.txWindow.find? c = none) :
    s'.rohcComp = none ∨ ∀ c, s'.txWindow.find? c = none := by
  rcases h with hr | hempty
  · exact .inl (eq_none_of_isSome hc.rohc.symm hr)
  · exact .inr fun c => by rw [hc.txWindow]; exact hempty c

/-- without header compression the stored SDUs are the bodies -/
theorem retransmitAllPdus_stored (hle : s.st.txNextAck ≤ s.st.txNext) (h : Consistent setup s body)
    (hok : s.rohcComp = none ∨ ∀ c, s.txWindow.find? c = none) (env : RetxEnv) :
    NoCalls s (s.retransmitAllPdus setup env) ∧ Consistent setup (s.retransmitAllPdus setup env) body := by
  apply And.left
  refine retransmitAllPdus_rule
    (P := fun t => (NoCalls s t ∧ Consistent setup t body) ∧ (t.rohcComp = none ∨ ∀ c, t.txWindow.find? c = none)) ?_ ?_
    env s hle ⟨⟨(KeyFrame.refl s).noCalls, h⟩, hok⟩ fun _ =>
      ⟨⟨(rewind_frame s).noCalls, (rewind_frame s).consistent h⟩, hok⟩
  · rintro t t' hc ⟨⟨hno, hb⟩, hok⟩
    have hf := KeyFrame.core hc
    exact ⟨⟨hno.trans hf.noCalls, hf.consistent hb⟩, recoverable_core hc hok⟩
  · rintro t count elem new ok ⟨⟨hno, hb⟩, hok⟩ hcopy hn hf hnew
    have hr : t.rohcComp = none := by
      rcases hok with hr | hempty
      · exact hr
      · rw [hempty count] at hf
        cases hf
    obtain ⟨-, hw, hr', -, -, -⟩ := sendBuffer_fields setup t true count new ok
    have hbody : new = body count := (hnew hr).trans (hb.stored hr hcopy count elem hf hn)
    refine ⟨⟨hno.trans (NoCalls.sendBuffer _ _ _ _), ?_⟩, .inl (hr'.trans hr)⟩
    rw [hbody]
    exact hb.sendBuffer hn true ok

/-- an empty window has nothing to send -/
theorem retransmitAllPdus_paused (setup : PdcpTxSetup κ) (hle : s.st.txNextAck ≤ s.st.txNext) (h : s.Paused)
    (env : RetxEnv) : NoCalls s (s.retransmitAllPdus setup env) ∧ (s.retransmitAllPdus setup env).Paused := by
  refine retransmitAllPdus_rule (P := fun t => NoCalls s t ∧ t.Paused) ?_ ?_ env s hle ⟨(KeyFrame.refl s).noCalls, h⟩
    fun _ => ⟨(rewind_frame s).noCalls, (rewind_frame s).paused h⟩
  · rintro t t' hc ⟨hno, hp⟩
    exact ⟨hno.trans (KeyFrame.core hc).noCalls, (KeyFrame.core hc).paused hp⟩
  · rintro t count elem new ok ⟨-, hp⟩ - - hf
    rw [hp.2 count] at hf
    cases hf

theorem KeystreamInv.dataRecovery (h : KeystreamInv setup s) (hw : WindowBounded s)
    (hok : setup.cfg.discardTimer ≠ none → s.rohcComp = none ∨ ∀ c, s.txWindow.find? c = none) (report : Bytes)
    (env : RetxEnv) : KeystreamInv setup (s.dataRecovery setup report env) := by
  -- up to the retransmission only a fault or a control PDU is recorded
  obtain ⟨t, hcase, heq⟩ := dataRecovery_cases setup s report env
  obtain ⟨hf, hst, hok'⟩ : KeyFrame s t ∧ t.st = s.st ∧
      (setup.cfg.discardTimer ≠ none → t.rohcComp = none ∨ ∀ c, t.txWindow.find? c = none) := by
    rcases hcase with hc | hc
    · exact ⟨KeyFrame.core hc, hc.st, fun hd => recoverable_core hc (hok hd)⟩
    · have hfault : KeyFrame s (s.fault .dataRecoveryBearer) :=
        KeyFrame.of_eq rfl ⟨rfl, rfl, rfl⟩ rfl (.inl rfl) fun _ _ h => h
      exact ⟨hfault.trans (KeyFrame.core hc), hc.st, fun hd => recoverable_core hc (hok hd)⟩
  have ht := hf.keystreamInv h
  have hle : t.st.txNextAck ≤ t.st.txNext := by rw [hst]; exact hw.le
  rw [heq]
  by_cases hd : setup.cfg.discardTimer = none
  · rw [PdcpEntityTx.retransmitAllPdus, if_pos hd]
    exact ht
  cases hsus : t.suspended with
  | false =>
    obtain ⟨body, hb⟩ := ht.active hsus
    obtain ⟨hno, hb'⟩ := retransmitAllPdus_stored hle hb (hok' hd) env
    exact hno.keystreamInv ht (fun _ => ⟨body, hb'⟩) fun hs => absurd hs (by rw [hsus]; decide)
  | true =>
    obtain ⟨hno, hp⟩ := retransmitAllPdus_paused setup hle (ht.paused hsus) env
    exact hno.keystreamInv ht (fun hs => absurd hs (by rw [hsus]; decide)) fun _ => hp

/-- re-establishment installs this configuration -/
def Installs (s : PdcpEntityTx κ) (secCfg : Sec128AsConfig) : Prop :=
  s.integrityEnabled = .off ∨ secCfg.k128Int ≠ none ∧ secCfg.integAlgo ≠ none

/-- a state that only waits for its new key -/
structure Rekeyable (s t : PdcpEntityTx κ) : Prop where
  events : t.events = s.events
  tasks : t.cryptoTasks = []
  suspended : t.suspended = s.suspended
  integrity : t.integrityEnabled = s.integrityEnabled
  bounded : WindowBounded t
  paused : s.suspended = true → t.Paused

theorem Rekeyable.initHeaderCompression (h : Rekeyable s t) : Rekeyable s (t.initHeaderCompression setup) := by
  have hb : WindowBounded (t.initHeaderCompression setup) := h.bounded.initHeaderCompression
  unfold PdcpEntityTx.initHeaderCompression at hb ⊢
  split_ifs at hb ⊢
  · exact ⟨h.events, h.tasks, h.suspended, h.integrity, hb, h.paused⟩
  · exact h

theorem Rekeyable.reset (h : Rekeyable s t) : Rekeyable s t.reset :=
  ⟨h.events, h.tasks, h.suspended, h.integrity, WindowBounded.cleared rfl rfl, fun _ => ⟨h.tasks, fun _ => rfl⟩⟩

/-- with no task in flight and an unused key everything starts afresh -/
theorem KeystreamInv.fresh
    (hunique : ∀ ctx msg msg', .ciphered ctx msg ∈ s.events → .ciphered ctx msg' ∈ s.events → msg = msg')
    (htasks : s.cryptoTasks = []) (hfresh : s.FreshEngine) (hpaused : s.suspended = true → s.Paused) :
    KeystreamInv setup s := by
  refine ⟨hunique, fun _ => ⟨fun c => ((s.txWindow.find? c).map (·.sduInfo.sdu)).getD [], ?_, ?_, ?_⟩, hpaused⟩
  · intro t ht
    rw [htasks] at ht
    cases ht
  · intro ctx msg engine hm he hk
    exact absurd hk (hfresh engine he ctx msg hm)
  · intro _ _ c elem hf _
    rw [hf]
    rfl

theorem KeystreamInv.retransmitFresh (h : KeystreamInv setup s) (hle : s.st.txNextAck ≤ s.st.txNext)
    (htasks : s.cryptoTasks = []) (hfresh : s.FreshEngine) (env : RetxEnv) :
    KeystreamInv setup (s.retransmitAllPdus setup env) := by
  cases hsus : s.suspended with
  | false =>
    obtain ⟨body, hb⟩ := h.active hsus
    obtain ⟨hno, hb'⟩ := retransmitAllPdus_fresh hle hb htasks hfresh env
    exact hno.keystreamInv h (fun _ => hb') fun hs => absurd hs (by rw [hsus]; decide)
  | true =>
    obtain ⟨hno, hp⟩ := retransmitAllPdus_paused setup hle (h.paused hsus) env
    exact hno.keystreamInv h (fun hs => absurd hs (by rw [hsus]; decide)) fun _ => hp

theorem KeystreamInv.reestablish (h : KeystreamInv setup s) (hw : WindowBounded s)
    (htasks : s.cryptoTasks = []) (hkey : s.KeyUnused secCfg.k128Enc) (hinst : s.Installs secCfg) (env : RetxEnv) :
    KeystreamInv setup (s.reestablish setup secCfg env) := by
  have h0 : Rekeyable s s := ⟨rfl, htasks, rfl, rfl, hw, h.paused⟩
  have h1 : Rekeyable s (s.initHeaderCompression setup) := h0.initHeaderCompression
  unfold PdcpEntityTx.reestablish
  dsimp only
  generalize s.initHeaderCompression setup = s1 at h1
  have h2 : Rekeyable s (if setup.cfg.rbType = .srb ∨ setup.cfg.rlcMode = .um then s1.reset else s1) := by
    split_ifs
    · exact h1.reset
    · exact h1
  generalize (if setup.cfg.rbType = .srb ∨ setup.cfg.rlcMode = .um then s1.reset else s1) = s2 at h2
  rcases configureSecurity_cases s2 secCfg s2.integrityEnabled s2.cipheringEnabled with ⟨-, hon, hmiss⟩ | heq
  · -- the configuration is refused only without an integrity key or algorithm
    rcases hinst with hoff | ⟨hint, halgo⟩
    · exact absurd (h2.integrity.trans hoff) hon
    · exact absurd hmiss (not_or.2 ⟨hint, halgo⟩)
  · rw [heq]
    have hfresh : FreshEngine { s2 with secEngine := some ⟨secCfg, s2.integrityEnabled, s2.cipheringEnabled⟩ } := by
      intro engine he ctx msg hm
      cases he
      exact hkey ctx msg (h2.events ▸ hm)
    have h3 : KeystreamInv setup
        { s2 with secEngine := some ⟨secCfg, s2.integrityEnabled, s2.cipheringEnabled⟩ } := by
      refine KeystreamInv.fresh ?_ h2.tasks hfresh fun hs => h2.paused (h2.suspended ▸ hs)
      rw [show PdcpEntityTx.events { s2 with secEngine := _ } = s.events from h2.events]
      exact h.unique
    split_ifs
    · exact h3.retransmitFresh h2.bounded.le h2.tasks hfresh env
    · exact h3

/-! ## Runs -/

/-- the conditions of the header, on the state before the step -/
def KeystreamStep (setup : PdcpTxSetup κ) (s : PdcpEntityTx κ) : Op → Prop
  | .handleSdu _ _ => s.suspended = true → s.buffering = true
  | .endBuffering _ => s.suspended = false
  | .configureSecurity secCfg integrity ciphering =>
    s.KeyUnused secCfg.k128Enc ∨ s.secEngine = some ⟨secCfg, integrity, ciphering⟩
  | .dataRecovery _ _ => setup.cfg.discardTimer ≠ none → s.rohcComp = none ∨ ∀ c, s.txWindow.find? c = none
  | .reestablish secCfg _ => s.cryptoTasks = [] ∧ s.KeyUnused secCfg.k128Enc ∧ s.Installs secCfg
  | .suspend => s.cryptoTasks = []
  | .resume => s.FreshEngine ∨ s.suspended = false
  | .setCount hfn sn => s.txWindow.keys = ∅ ∧ s.st.txNext ≤ setup.cfg.snSize.computeCount hfn.toNat sn.toNat
  | _ => True

theorem KeystreamStep.transferOk {op : Op} (h : KeystreamStep setup s op) : s.TransferOk op := by
  cases op with
  | setCount hfn sn => exact h.1
  | _ => trivial

namespace KeystreamInv

theorem step (h : KeystreamInv setup s) (hw : WindowBounded s) (op : Op) (hok : KeystreamStep setup s op) :
    KeystreamInv setup (s.step setup op) := by
  cases op with
  | handleSdu buf env => exact h.handleSdu hok
  | applySecurity idx env =>
    rw [PdcpEntityTx.step]
    cases ht : s.cryptoTasks[idx]? with
    | none => exact h
    | some info =>
      refine h.applySecurity (mem_of_getElem? ht) ?_ env
      exact ⟨rfl, rfl, rfl, rfl, fun t ht => mem_of_mem_eraseIdx ht, fun _ elem h => ⟨elem, h, rfl⟩, fun _ _ h => h⟩
  | applyReordering idx =>
    rw [PdcpEntityTx.step]
    cases s.reorderingTasks[idx]? with
    | none => exact h
    | some info =>
      have hf : KeyFrame s { s with reorderingTasks := s.reorderingTasks.eraseIdx idx } :=
        KeyFrame.of_eq rfl ⟨rfl, rfl, rfl⟩ rfl (.inl rfl) fun _ _ h => h
      refine ((KeyFrame.delivery setup s).applyReordering hf fun _ => ?_).keystreamInv h
      exact hf.trans (KeyFrame.of_eq rfl ⟨rfl, rfl, rfl⟩ rfl (.inr ⟨_, _, rfl⟩) fun _ _ h => h)
  | configureSecurity secCfg integrity ciphering => exact h.configureSecurity hok
  | dataRecovery report env => exact h.dataRecovery hw hok report env
  | reestablish secCfg env => exact h.reestablish hw hok.1 hok.2.1 hok.2.2 env
  | endBuffering env => exact h.endBuffering hok env
  | suspend =>
    rw [PdcpEntityTx.step]
    rcases suspend_cases setup s with heq | ⟨timer, -, heq⟩
    · rwa [heq]
    · rw [heq]
      exact ⟨h.unique, fun hs => absurd hs (by simp), fun _ => ⟨hok, fun _ => rfl⟩⟩
  | resume =>
    rw [PdcpEntityTx.step]
    rcases resume_cases s with heq | ⟨hsus, heq⟩
    · rwa [heq]
    · rw [heq]
      have hfresh := hok.resolve_right (by rw [hsus]; decide)
      have hp := h.paused hsus
      exact KeystreamInv.fresh h.unique hp.1 hfresh fun hs => by cases hs
  | setCount hfn sn =>
    -- COUNTs in use stay below TX_NEXT
    refine ⟨h.unique, fun hs => ?_, h.paused⟩
    obtain ⟨body, hb⟩ := h.active hs
    refine ⟨body, fun t ht => ?_, fun ctx msg engine hm he hk => ?_, fun _ _ c elem hf => ?_⟩
    · exact ⟨(hb.tasks t ht).1.trans_le hok.2, (hb.tasks t ht).2⟩
    · obtain ⟨hlt, hmsg⟩ := hb.calls ctx msg engine hm he hk
      exact ⟨hlt.trans_le hok.2, hmsg⟩
    · exact absurd (hok.1 ▸ PdcpTxWindow.mem_keys_of_find? hf) (Finset.notMem_empty c)
  | stop =>
    rw [PdcpEntityTx.step]
    rcases stop_cases setup s with heq | ⟨timer, cryptoTimer, -, heq⟩
    · rwa [heq]
    · have hf : KeyFrame s (s.stop setup) := by
        rw [heq]
        exact ⟨rfl, rfl, rfl, rfl, fun _ h => h,
          fun _ _ h => absurd h (by simp [PdcpTxWindow.clear, PdcpTxWindow.find?]), fun _ _ h => h⟩
      exact hf.keystreamInv h
  | cryptoReorderingTimerExpiry =>
    rw [PdcpEntityTx.step]
    split_ifs
    · have hf : KeyFrame s { s with cryptoReorderingTimer := s.cryptoReorderingTimer.stop } :=
        KeyFrame.of_eq rfl ⟨rfl, rfl, rfl⟩ rfl (.inl rfl) fun _ _ h => h
      exact ((KeyFrame.delivery setup s).cryptoReorderingTimeout hf).keystreamInv h
    · exact h
  | _ =>
    refine KeyFrame.keystreamInv ?_ h
    exact (KeyFrame.passive setup s).step _ trivial (KeyFrame.refl s)

end KeystreamInv

/-- In every run whose steps meet the conditions, two calls of the ciphering engine with the same key, COUNT, bearer and
direction have the same message. -/
theorem keystream_unique (setup : PdcpTxSetup κ) (ops : List Op)
    (hops : Machine.Always (step setup) (KeystreamStep setup) (init setup) ops) :
    let s := Machine.run (step setup) (init setup) ops
    ∀ ctx msg msg', .ciphered ctx msg ∈ s.events → .ciphered ctx msg' ∈ s.events → msg = msg' := by
  intro s
  have hinit : KeystreamInv setup (init setup) := by
    unfold init initHeaderCompression
    split_ifs <;> exact KeystreamInv.fresh (by simp) rfl (fun _ he => by cases he) (fun hs => by cases hs)
  have h : KeystreamInv setup s ∧ WindowBounded s :=
    Machine.run_inv (I := fun t => KeystreamInv setup t ∧ WindowBounded t)
      (fun _ op h hok => ⟨h.1.step h.2 op hok, h.2.step op hok.transferOk⟩) _ ops ⟨hinit, WindowBounded.init⟩ hops
  exact h.1.unique

/-- an AM DRB with a header compressor that numbers its packets -/
def rohcSetup : PdcpTxSetup ℕ where
  cfg := { sampleSetup.cfg with headerCompression := some .rohc }
  rohc := ⟨some 0, fun n buf => (UInt8.ofNat n :: buf, n + 1), fun n _ => n⟩
  security := sampleSetup.security

/-- one SDU is ciphered, and again after data recovery -/
def recoveredSdu : List Op :=
  [.configureSecurity sampleKey .off true, .desiredBufferSizeNotification 10000, .handleSdu [7] ⟨true, true, true⟩,
    .applySecurity 0 ⟨true, true, true⟩, .dataRecovery [] fun _ => ⟨true, true, true⟩,
    .applySecurity 0 ⟨true, true, true⟩]

theorem recoveredSdu_ok : Machine.Always (step sampleSetup) (KeystreamStep sampleSetup) (init sampleSetup)
    recoveredSdu := by
  refine ⟨.inl fun ctx msg hm => ?_, trivial, fun hs => ?_, trivial, fun _ => .inl ?_, trivial, trivial⟩
  · exact absurd hm (by simp [init, initHeaderCompression, sampleSetup])
  · exact absurd hs (by decide +kernel)
  · decide +kernel

/-- without header compression data recovery ciphers the same message -/
theorem keystream_unique_recovered :
    let s := Machine.run (step sampleSetup) (init sampleSetup) recoveredSdu
    let ctx : SecurityContext := ⟨sampleKey.k128Enc, 0, 0, .downlink⟩
    s.events.count (.ciphered ctx [7]) = 2 ∧ ∀ msg, .ciphered ctx msg ∈ s.events → msg = [7] := by
  have htwo : (Machine.run (step sampleSetup) (init sampleSetup) recoveredSdu).events.count
      (.ciphered ⟨sampleKey.k128Enc, 0, 0, .downlink⟩ [7]) = 2 := by decide +kernel
  refine ⟨htwo, fun msg hm => keystream_unique sampleSetup recoveredSdu recoveredSdu_ok _ _ _ hm ?_⟩
  exact count_pos_iff.1 (by rw [htwo]; decide)

/-- With header compression, data recovery compresses the stored SDU again: the same key and COUNT cipher two different
messages. -/
theorem recovery_compresses_again :
    let s := Machine.run (step rohcSetup) (init rohcSetup) recoveredSdu
    let ctx : SecurityContext := ⟨sampleKey.k128Enc, 0, 0, .downlink⟩
    .ciphered ctx [0, 7] ∈ s.events ∧ .ciphered ctx [1, 7] ∈ s.events := by
  decide +kernel

end OcuduRan.Pdcp.PdcpEntityTx
