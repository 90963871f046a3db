/-
# One instruction through the allocator

The parts of `AllocOp` put together, the write-back of the globals at the end of a block, and
the destruction of registers by a call.  The result is one statement about every instruction:
the code that the allocator leaves in its place does what the instruction did.
-/
import Rv32jit.Codegen.RegAllocExec

namespace Rv32jit.Qcg

open Qir ArchTraits

namespace QRegAlloc

variable {env : HelperEnv} {vi : VRegsInfo} {N W W' : ℕ → Prop} {ra ra' ra'' : QRegAlloc}
  {pin : ℕ → Prop}

/-! ### `AllocOp` -/

lemma orderOut_cases {op : Op} {c : InstCt} (h : opCt op = some c) :
    (op.nOut = 0 ∧ c.orderOut = []) ∨ (op.nOut = 1 ∧ c.orderOut = [0]) := by
  have hp := (order_perm h).1
  rcases Op.nOut_cases op with hn | hn
  · rw [hn] at hp
    exact Or.inl ⟨hn, List.perm_nil.mp hp⟩
  · rw [hn] at hp
    exact Or.inr ⟨hn, List.perm_singleton.mp hp⟩

variable (env W) in
/-- The result of the loop over the outputs, for every kind of output. -/
lemma allocOutputs {c : InstCt} (st : OpState) {st' : OpState} (hc : opCt st.ins.op = some c)
    (hi : Inv vi N st.ra) (ha : AvoidsFixed st.avoid)
    (hg : ∀ o ∈ st.ins.o, GoodOutput vi N o)
    (htied : ∀ t v, st.ins.o = [.vgpr t v] → (ctOf c 0).hasAlias = true →
      (st.ra.vregs v).loc = .REG)
    (h : c.orderOut.foldlM (fun st i => allocOutput c i st) st = some st') :
    ∃ raM, Step env vi N W (fun q => st.avoid.test q = true) st.ra raM ∧
      (NoDirty st.ra → NoDirty raM) ∧ Inv vi N st'.ra ∧ st'.ra.code = raM.code ∧
      st'.ins.op = st.ins.op ∧ st'.ins.i = st.ins.i ∧ OutDone st.ins.o st'.ins.o raM st'.ra := by
  rcases orderOut_cases hc with ⟨hn, horder⟩ | ⟨hn, horder⟩
  · rw [horder, FoldM.foldlM_nil_eq_some] at h
    subst h
    have ho : st.ins.o = [] := List.length_eq_zero_iff.mp (by rw [st.ins.ho, hn])
    exact ⟨st.ra, .refl _, id, hi, rfl, rfl, rfl, .kept rfl (by simp [ho]) rfl⟩
  · rw [horder] at h
    obtain ⟨st1, h1, h2⟩ := FoldM.foldlM_cons_eq_some.mp h
    rw [FoldM.foldlM_nil_eq_some] at h2
    subst h2
    obtain ⟨x, ho⟩ : ∃ x, st.ins.o = [x] := List.length_eq_one_iff.mp (by rw [st.ins.ho, hn])
    by_cases hv : ∃ t v, x = .vgpr t v
    · obtain ⟨t, v, rfl⟩ := hv
      cases halias : (ctOf c 0).hasAlias with
      | true =>
        obtain ⟨hi', -, hcode, hop, hin, hout⟩ :=
          allocOutput_tied hi ho halias (htied t v ho halias) h1
        exact ⟨st.ra, .refl _, id, hi', hcode, hop, hin, hout⟩
      | false =>
        obtain ⟨raM, hstep, -, hd, hi', -, hcode, hop, hin, hout⟩ :=
          allocOutput_fresh env W hi ha ho halias (hg _ (by simp [ho])) h1
        exact ⟨raM, hstep, hd, hi', hcode, hop, hin, hout⟩
    · have hst : st1 = st := by
        rw [allocOutput, ho] at h1
        cases x with
        | vgpr t v => exact absurd ⟨t, v, rfl⟩ hv
        | _ => simpa [eq_comm] using h1
      subst hst
      refine ⟨st1.ra, .refl _, id, hi, rfl, rfl, rfl, .kept rfl (fun t v hmem => hv ⟨t, v, ?_⟩) rfl⟩
      simpa [ho, eq_comm] using hmem

variable (env) in
/-- `AllocOp`: the inputs are placed, the CPU state is up to date if the operation has side
effects, and the outputs are assigned. -/
lemma allocOp_spec {ins ins' : Inst} (hi : Inv vi N ra) (hsel : Selected ins)
    (hgi : ∀ o ∈ ins.i, GoodInput vi N W o) (hgo : ∀ o ∈ ins.o, GoodOutput vi N o)
    (h : ra.allocOp ins = some (ra', ins')) :
    ∃ raM, StepTo env vi N W (fun _ => False) (Placed vi ins ins') ra raM ∧ Inv vi N ra' ∧
      ra'.code = raM.code ∧ ins'.op = ins.op ∧ (ins.op.sideeff = true → NoDirty raM) ∧
      OutDone ins.o ins'.o raM ra' := by
  simp only [allocOp] at h
  obtain ⟨c, hc, h⟩ := Option.bind_eq_some_iff.mp h
  obtain ⟨st, hin, h⟩ := Option.bind_eq_some_iff.mp h
  obtain ⟨ra1, hsync, h⟩ : ∃ ra1, (if ins.op.sideeff = true then st.ra.syncGlobals
      else some st.ra) = some ra1 ∧ _ := by
    split at h
    · rename_i hs
      obtain ⟨ra1, h1, h2⟩ := Option.bind_eq_some_iff.mp h
      exact ⟨ra1, by rw [if_pos hs, h1], h2⟩
    · rename_i hs
      exact ⟨st.ra, by rw [if_neg hs], h⟩
  obtain ⟨st', hout, h⟩ := Option.bind_eq_some_iff.mp h
  cases h
  have hperm := (order_perm hc).2
  have hmem : ∀ i, i ∈ c.orderIn ↔ i < ins.op.nIn := fun i => by
    rw [hperm.mem_iff, List.mem_range]
  -- the inputs
  obtain ⟨hdone, hframe, ha, hother, hstep⟩ := allocInputs env ins
    (hperm.nodup_iff.mpr List.nodup_range) hi (fun p hp => hp) (fun i _ => rfl) hgi hin
  obtain ⟨hi1, -⟩ := hstep hi
  -- the globals
  have hmid : Step env vi N W (fun q => st.avoid.test q = true) st.ra ra1 ∧
      Keeps st.avoid st.ra ra1 ∧ (ins.op.sideeff = true → NoDirty ra1) := by
    split at hsync
    · obtain ⟨h1, h2, h3⟩ :=
        syncGlobals_spec env W (fun q => st.avoid.test q = true) st.avoid hi1 hsync
      exact ⟨h1, h2, fun _ => h3⟩
    · rename_i hs
      cases hsync
      exact ⟨.refl _, .refl _ _, fun h => absurd h hs⟩
  obtain ⟨hstep1, hkeep1, hclean⟩ := hmid
  obtain ⟨hi2, -⟩ := hstep1 hi1
  -- the outputs
  have hop : st.ins.op = ins.op := hframe.op
  have ho : st.ins.o = ins.o := hframe.o
  obtain ⟨raM, hstep2, hd, hi', hcode, hop', hin', hout'⟩ :=
    allocOutputs env W { st with ra := ra1 } (by simpa only [hop] using hc) hi2 ha
    (by simpa only [ho] using hgo) (fun t v hov halias => by
      simp only [ho] at hov
      have hn : 0 < ins.op.nOut := by rw [← ins.ho, hov]; simp
      obtain ⟨hn1, hn0, hal, hidx, hall⟩ := tied_output hc hn halias
      obtain ⟨t1, t2, w, hw, hw'⟩ := (hsel c hc 0 hn0).1 (by simpa [hn1] using hal)
      rw [hn1, Nat.add_zero, hidx, hov] at hw'
      obtain ⟨-, rfl⟩ := VOperand.vgpr.inj (Option.some.inj hw')
      obtain ⟨p, hp⟩ := hdone 0 ((hmem 0).mpr hn0) t2 v hw
      obtain ⟨hl, hpp⟩ := hp.inPlace (by rw [ho, ins.ho, hn1, Nat.add_zero, hall])
      exact (hkeep1.reg v hl (by rw [hpp]; exact hp.avoided)).1) hout
  simp only [hop, ho] at hop' hin' hout'
  refine ⟨raM, ?_, hi', hcode, hop', fun hs => hd (hclean hs), hout'⟩
  have hlast : StepTo env vi N W (fun q => st.avoid.test q = true) (fun _ _ => True) st.ra raM :=
    (hstep1.trans hstep2).to fun _ _ _ _ => trivial
  have hfirst : StepTo env vi N W (fun _ => False) (InputsRead vi ins c.orderIn st) ra st.ra := by
    intro hinv
    obtain ⟨h1, δ, hδ, hs⟩ := hstep hinv
    refine ⟨h1, δ, hδ, fun s s' hm => ?_⟩
    obtain ⟨s1, q1, m1, -, r1⟩ := hs s s' hm
    exact ⟨s1, q1, m1, by simp, r1⟩
  refine hfirst.trans hlast (by simp) fun s s1 s2 hread hpin _ => ?_
  · refine ⟨fun i t v hv => ?_, fun i hv => ?_⟩
    · have hlt : i < ins.op.nIn := by
        rw [← ins.hi]
        exact (List.getElem?_eq_some_iff.mp hv).1
      obtain ⟨p, hp⟩ := hdone i ((hmem i).mpr hlt) t v hv
      refine ⟨p, by rw [hin']; exact hp.operand, ?_⟩
      rw [hpin p hp.avoided]
      exact hread i ((hmem i).mpr hlt) t v hv p hp.operand
    · rw [hin']
      exact hother i fun t v h' => absurd h' (hv t v)

/-! ### Boundaries and calls -/

/-- All global registers are in their homes. -/
def AllHome (ra : QRegAlloc) : Prop := ∀ v, (ra.vregs v).isGlobal = true → (ra.vregs v).loc = .MEM

lemma AllHome.noDirty (h : AllHome ra) : NoDirty ra := by
  intro v hg hl
  rw [h v hg] at hl
  cases hl

variable (env W pin) in
lemma blockBoundary_spec (hi : Inv vi N ra) (h : ra.blockBoundary = some ra') :
    Step env vi N W pin ra ra' ∧ AllHome ra' ∧ ∀ p, ra.p2v p = none → ra'.p2v p = none := by
  have key := FoldM.invariant_range
    (P := fun i r => Step env vi N W pin ra r ∧ r.nVregs = ra.nVregs ∧
      (∀ v < i, (r.vregs v).isGlobal = true → (r.vregs v).loc = .MEM) ∧
      ∀ p, ra.p2v p = none → r.p2v p = none) h
    ⟨.refl ra, rfl, fun v hv => by omega, fun _ h => h⟩ ?_
  · obtain ⟨hstep, hn, hhome, hfree⟩ := key
    obtain ⟨hi', -⟩ := hstep hi
    refine ⟨hstep, fun v hg => hhome v ?_ hg, hfree⟩
    rw [← hn]
    exact hi'.lt_of_global hg
  · rintro i - r r' ⟨hstep, hn, hhome, hfree⟩ hr
    obtain ⟨hir, -⟩ := hstep hi
    split at hr
    · rename_i hg
      obtain ⟨hstep', hspec⟩ := step_spill env vi N W pin (hir.alive i hg) hr
      refine ⟨hstep.trans hstep', hspec.nVregs.trans hn, fun v hv hgv => ?_, fun p hp => ?_⟩
      · by_cases hvi : v = i
        · rw [hvi]; exact hspec.loc
        · rw [hspec.other v hvi] at hgv ⊢
          exact hhome v (by omega) hgv
      · rw [hspec.p2v, hfree p hp]
        simp
    · rename_i hg
      cases hr
      refine ⟨hstep, hn, fun v hv hgv => ?_, hfree⟩
      by_cases hvi : v = i
      · subst hvi; exact absurd hgv hg
      · exact hhome v (by omega) hgv

/-- At the end of a region the local registers are given up. -/
lemma regionBoundary_spec (hi : Inv vi N ra) (h : ra.regionBoundary = some ra') :
    Step env vi N (fun _ => False) pin ra ra' ∧ AllHome ra' := by
  have key := FoldM.invariant_range
    (P := fun i r => Step env vi N (fun _ => False) pin ra r ∧ r.nVregs = ra.nVregs ∧
      ∀ v < i, (r.vregs v).isGlobal = true → (r.vregs v).loc = .MEM) h
    ⟨.refl ra, rfl, fun v hv => by omega⟩ ?_
  · obtain ⟨hstep, hn, hhome⟩ := key
    obtain ⟨hi', -⟩ := hstep hi
    refine ⟨hstep, fun v hg => hhome v ?_ hg⟩
    rw [← hn]
    exact hi'.lt_of_global hg
  · rintro i hlt r r' ⟨hstep, hn, hhome⟩ hr
    obtain ⟨hir, -⟩ := hstep hi
    split at hr
    · rename_i hg
      obtain ⟨hstep', hspec⟩ := step_spill env vi N (fun _ => False) pin (hir.alive i hg) hr
      refine ⟨hstep.trans hstep', hspec.nVregs.trans hn, fun v hv hgv => ?_⟩
      by_cases hvi : v = i
      · rw [hvi]; exact hspec.loc
      · rw [hspec.other v hvi] at hgv ⊢
        exact hhome v (by omega) hgv
    · rename_i hg
      cases hr
      refine ⟨hstep.trans (step_release (by rw [hn]; exact hlt) (fun _ => id) ?_),
        by simpa using hn, fun v hv hgv => ?_⟩
      · rintro - (hgl | hf)
        · exact absurd hgl hg
        · exact hf.elim
      · by_cases hvi : v = i
        · subst hvi; simp
        · simp only [vregs_release, hvi, if_false] at hgv ⊢
          exact hhome v (by omega) hgv

variable (env W pin) in
/-- In front of a call no register that the call destroys is in use. -/
lemma callOp_spec (hi : Inv vi N ra) (h : ra.callOp = some ra') :
    Step env vi N W pin ra ra' ∧ AllHome ra' ∧
      ∀ p, GPR_CALL_CLOBBER.test p = true → ra'.p2v p = none := by
  simp only [callOp] at h
  obtain ⟨ra1, h1, h2⟩ := Option.bind_eq_some_iff.mp h
  split at h2
  swap
  · cases h2
  have key := FoldM.invariant_range
    (P := fun i r => Step env vi N W pin ra r ∧
      ∀ p < i, GPR_CALL_CLOBBER.test p = true → r.p2v p = none) h1
    ⟨.refl ra, fun p hp => by omega⟩ ?_
  · obtain ⟨hstep, hfree⟩ := key
    obtain ⟨hi1, -⟩ := hstep hi
    obtain ⟨hstep', hhome, hkeep⟩ := blockBoundary_spec env W pin hi1 h2
    refine ⟨hstep.trans hstep', hhome, fun p hp => hkeep p ?_⟩
    by_cases hlt : p < N_PREGS
    · exact hfree p hlt hp
    · by_contra hne
      obtain ⟨v, hv⟩ := Option.ne_none_iff_exists'.mp hne
      exact hlt (hi1.pool p v hv).1
  · rintro i - r r' ⟨hstep, hfree⟩ hr
    obtain ⟨hir, -⟩ := hstep hi
    split at hr
    · obtain ⟨hstep', -, hp2v, -⟩ := step_spillPreg env W pin hir hr
      refine ⟨hstep.trans hstep', fun p hp hc => ?_⟩
      rw [hp2v]
      split
      · rfl
      · exact hfree p (by omega) hc
    · rename_i hnc
      cases hr
      refine ⟨hstep, fun p hp hc => ?_⟩
      by_cases hpi : p = i
      · subst hpi; exact absurd hc hnc
      · exact hfree p (by omega) hc

end QRegAlloc

end Rv32jit.Qcg
