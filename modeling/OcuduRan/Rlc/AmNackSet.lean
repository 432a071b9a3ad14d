/-
What a NACK says is missing.

A NACK of a STATUS PDU denotes a set of (SN, byte) pairs: every byte of the SNs inside its range, except that a start
offset cuts the first SN and an end offset the last one. Merging two NACKs denotes the union of what they denoted, so a
report built by push_nack denotes exactly what was pushed.
-/
import OcuduRan.Rlc.AmPduMerge

namespace OcuduRan.Rlc

/-- byte `byte` of the SDU with SN `sn` is reported missing -/
def RlcAmStatusNack.Denotes (n : RlcAmSnSize) (nack : RlcAmStatusNack) (sn byte : ℕ) : Prop :=
  ∃ i < nack.range, sn = (nack.nackSn + i) % n.mod ∧
    (nack.hasSo = true → (i = 0 → nack.soStart ≤ byte) ∧
      (i + 1 = nack.range → nack.soEnd ≠ soEndOfSdu → byte ≤ nack.soEnd))

namespace RlcAmStatusPdu

variable {n : RlcAmSnSize} {prev nack : RlcAmStatusNack} {st : RlcAmStatusPdu}

/-- the NACK list reports the byte missing -/
def NacksDenote (n : RlcAmSnSize) (nacks : List RlcAmStatusNack) (sn byte : ℕ) : Prop :=
  ∃ nack ∈ nacks, nack.Denotes n sn byte

@[simp] theorem nacksDenote_nil (sn byte : ℕ) : ¬ NacksDenote n [] sn byte := by simp [NacksDenote]

@[simp] theorem nacksDenote_cons (nack : RlcAmStatusNack) (ns : List RlcAmStatusNack) (sn byte : ℕ) :
    NacksDenote n (nack :: ns) sn byte ↔ nack.Denotes n sn byte ∨ NacksDenote n ns sn byte := by
  simp [NacksDenote]

@[simp] theorem nacksDenote_append (a b : List RlcAmStatusNack) (sn byte : ℕ) :
    NacksDenote n (a ++ b) sn byte ↔ NacksDenote n a sn byte ∨ NacksDenote n b sn byte := by
  simp [NacksDenote, or_and_right, exists_or]

/-- merging takes the union: the first SNs are those of the left NACK, the others those of the right one -/
theorem expandPrev_denotes (hm : canBeMerged n prev nack = true)
    (hp : 1 ≤ prev.range) (hn : 1 ≤ nack.range) (sn byte : ℕ) :
    (expandPrev prev nack).Denotes n sn byte ↔ prev.Denotes n sn byte ∨ nack.Denotes n sn byte := by
  obtain ⟨hsn, hend, hstart, -⟩ := (canBeMerged_iff prev nack).1 hm
  unfold RlcAmStatusNack.Denotes
  simp only [expandPrev_range, expandPrev_nackSn, expandPrev_hasSo, expandPrev_soStart, expandPrev_soEnd]
  constructor
  · rintro ⟨i, hi, rfl, hso⟩
    rcases Nat.lt_or_ge i prev.range with hlt | hge
    · refine .inl ⟨i, hlt, rfl, ?_⟩
      intro hps
      refine ⟨fun h0 => ?_, fun _ hne => absurd (hend hps) hne⟩
      simpa [hps] using (hso (by simp [hps])).1 h0
    · refine .inr ⟨i - prev.range, by omega, ?_, ?_⟩
      · rw [hsn, Nat.mod_add_mod]
        congr 1
        omega
      · intro hns
        refine ⟨fun _ => by simp [hstart hns], fun hlast hne => ?_⟩
        have := (hso (by simp [hns])).2 (by omega)
        simpa [hns, hne] using this
  · rintro (⟨i, hi, rfl, hso⟩ | ⟨i, hi, rfl, hso⟩)
    · refine ⟨i, by omega, rfl, ?_⟩
      intro hor
      refine ⟨fun h0 => ?_, fun hlast => by omega⟩
      cases hps : prev.hasSo with
      | true => simpa [hps] using (hso hps).1 h0
      | false =>
        have hns : nack.hasSo = true := by simpa [hps] using hor
        simp [hns]
    · refine ⟨prev.range + i, by omega, ?_, ?_⟩
      · rw [hsn, Nat.mod_add_mod, Nat.add_assoc]
      · intro hor
        refine ⟨fun h0 => by omega, fun hlast => ?_⟩
        cases hns : nack.hasSo with
        | true => simpa [hns] using (hso hns).2 (by omega)
        | false =>
          have hps : prev.hasSo = true := by simpa [hns] using hor
          simp [hps]

theorem pushNack_denote (h : ∀ x ∈ st.nacks, 1 ≤ x.range)
    (hn : 1 ≤ nack.range) (sn byte : ℕ) : NacksDenote st.snSize (st.pushNack nack).nacks sn byte ↔
      NacksDenote st.snSize st.nacks sn byte ∨ nack.Denotes st.snSize sn byte := by
  rcases List.eq_nil_or_concat' st.nacks with hnil | ⟨pre, prev, hsnoc⟩
  · simp [pushNack_of_nil hnil, hnil]
  · rw [pushNack_of_snoc hsnoc, hsnoc]
    split_ifs with hm
    · have hp : 1 ≤ prev.range := h prev (by simp [hsnoc])
      simp [expandPrev_denotes hm hp hn, or_assoc]
    · simp [or_assoc]

theorem expandPrev_range_pos (hp : 1 ≤ prev.range) : 1 ≤ (expandPrev prev nack).range := by
  rw [expandPrev_range]
  omega

theorem foldl_pushNack_denote {ns : List RlcAmStatusNack} (h : ∀ x ∈ st.nacks, 1 ≤ x.range)
    (hns : ∀ x ∈ ns, 1 ≤ x.range) (sn byte : ℕ) : NacksDenote st.snSize (ns.foldl pushNack st).nacks sn byte ↔
      NacksDenote st.snSize st.nacks sn byte ∨ NacksDenote st.snSize ns sn byte := by
  induction ns generalizing st with
  | nil => simp
  | cons nack ns ih =>
    have hn : 1 ≤ nack.range := hns nack (by simp)
    have hpos : ∀ x ∈ (st.pushNack nack).nacks, 1 ≤ x.range :=
      forall_mem_pushNack (fun prev hp _ => expandPrev_range_pos hp) h hn
    have hrec := ih hpos fun x hx => hns x (by simp [hx])
    rw [pushNack_snSize] at hrec
    rw [List.foldl_cons, hrec, pushNack_denote h hn, nacksDenote_cons, or_assoc]

end RlcAmStatusPdu

end OcuduRan.Rlc
