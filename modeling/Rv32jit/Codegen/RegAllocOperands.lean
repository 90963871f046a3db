/-
# Bringing the operands of an instruction into registers

The loops of `AllocOp`.  After the loop over the inputs every input that was a virtual
register is a physical one that holds its value; after the write-back of the globals the CPU
state is the one of the original code; and the loop over the outputs decides where the results
go.
-/
import Rv32jit.Codegen.RegAllocSim

namespace Rv32jit.Qcg

open Qir ArchTraits

namespace QRegAlloc

/-! ### The operands of the original code -/

/-- An explicit slot of the CPU state that is the home of no register in `N`. -/
def SlotApart (vi : VRegsInfo) (N : ℕ → Prop) (glob : Bool) (t : VType) (o : ℕ) : Prop :=
  glob = true ∧ ∀ v g, N v → vi.getGlobalInfo v = some g → g.Apart ⟨o, t⟩

/-- An input of the original code: a constant, a register that has a value, read at its type or
a narrower one, or an explicit slot. -/
def GoodInput (vi : VRegsInfo) (N W : ℕ → Prop) : VOperand → Prop
  | .vgpr t v => (vi.isGlobal v = true → N v) ∧ (vi.isGlobal v = true ∨ W v) ∧
      ∃ t₀, vi.vregType v = some t₀ ∧ t.toSize ≤ t₀.toSize
  | .slot g t o => SlotApart vi N g t o
  | .pgpr _ _ => False
  | .const _ _ | .bad => True

/-- An output of the original code: a register, written at its type, or an explicit slot. -/
def GoodOutput (vi : VRegsInfo) (N : ℕ → Prop) : VOperand → Prop
  | .vgpr t v => (vi.isGlobal v = true → N v) ∧ vi.vregType v = some t
  | .slot g t o => SlotApart vi N g t o
  | .pgpr _ _ => False
  | .const _ _ | .bad => True

variable {env : HelperEnv} {vi : VRegsInfo} {N W : ℕ → Prop} {ra ra' ra'' : QRegAlloc}
  {pin : ℕ → Prop} {Q : QState → QState → Prop}

/-! ### Steps with a result -/

/-- A step after which `Q` holds of the two states. -/
def StepTo (env : HelperEnv) (vi : VRegsInfo) (N W pin : ℕ → Prop) (Q : QState → QState → Prop)
    (ra ra' : QRegAlloc) : Prop :=
  Inv vi N ra → Inv vi N ra' ∧ ∃ δ, ra'.code = ra.code ++ δ ∧
    ∀ s s', Match vi W ra s s' → ∃ s'', Quiet env vi δ s' s'' ∧ Match vi W ra' s s'' ∧
      (∀ p, pin p → s''.preg p = s'.preg p) ∧ Q s s''

lemma Step.to (h : Step env vi N W pin ra ra')
    (hQ : Inv vi N ra' → ∀ s s', Match vi W ra' s s' → Q s s') :
    StepTo env vi N W pin Q ra ra' := by
  intro hi
  obtain ⟨hi', δ, hδ, hs⟩ := h hi
  refine ⟨hi', δ, hδ, fun s s' hm => ?_⟩
  obtain ⟨s1, q1, m1, p1⟩ := hs s s' hm
  exact ⟨s1, q1, m1, p1, hQ hi' s s1 m1⟩

lemma Step.trans_to (h1 : Step env vi N W pin ra ra') (h2 : StepTo env vi N W pin Q ra' ra'') :
    StepTo env vi N W pin Q ra ra'' := by
  intro h
  obtain ⟨h', δ, hδ, hs⟩ := h1 h
  obtain ⟨h'', ε, hε, ht⟩ := h2 h'
  refine ⟨h'', δ ++ ε, by rw [hε, hδ, List.append_assoc], fun s s' hm => ?_⟩
  obtain ⟨s1, q1, m1, p1⟩ := hs s s' hm
  obtain ⟨s2, q2, m2, p2, r2⟩ := ht s s1 m1
  exact ⟨s2, q1.append q2, m2, fun p hp => by rw [p2 p hp, p1 p hp], r2⟩

lemma StepTo.trans {pin' : ℕ → Prop} {Q₁ Q₂ : QState → QState → Prop}
    (h1 : StepTo env vi N W pin Q₁ ra ra') (h2 : StepTo env vi N W pin' Q₂ ra' ra'')
    (hpin : ∀ p, pin p → pin' p)
    (hQ : ∀ s s1 s2, Q₁ s s1 → (∀ p, pin' p → s2.preg p = s1.preg p) → Q₂ s s2 → Q s s2) :
    StepTo env vi N W pin Q ra ra'' := by
  intro h
  obtain ⟨h', δ, hδ, hs⟩ := h1 h
  obtain ⟨h'', ε, hε, ht⟩ := h2 h'
  refine ⟨h'', δ ++ ε, by rw [hε, hδ, List.append_assoc], fun s s' hm => ?_⟩
  obtain ⟨s1, q1, m1, p1, r1⟩ := hs s s' hm
  obtain ⟨s2, q2, m2, p2, r2⟩ := ht s s1 m1
  exact ⟨s2, q1.append q2, m2, fun p hp => by rw [p2 p (hpin p hp), p1 p hp], hQ s s1 s2 r1 p2 r2⟩

/-- A register in `REG` can be read at its type or a narrower one. -/
lemma Match.reg_narrow {s s' : QState} {v : ℕ} {t : VType} (hm : Match vi W ra s s')
    (hl : (ra.vregs v).loc = .REG) (hv : (ra.vregs v).isGlobal = true ∨ W v)
    (ht : t.toSize ≤ (ra.vregs v).type.toSize) :
    ByteMem.lowBytes t.toSize (s'.preg (ra.vregs v).p) = readOpr vi s (.vgpr t v) := by
  rw [readOpr_vgpr_narrow vi ht, ← valueOf, ← hm.reg v hl hv, ByteMem.lowBytes_lowBytes,
    min_eq_left ht]

/-- The copy of a register into a free physical register that its operand can use. -/
lemma stepTo_copy {v p : ℕ} {t : VType} (hl : (ra.vregs v).loc = .REG) (hfree : ra.p2v p = none)
    (hpin : ¬ pin p) (ht : t.toSize ≤ (ra.vregs v).type.toSize)
    (hv : (ra.vregs v).isGlobal = true ∨ W v) :
    StepTo env vi N W pin
      (fun s s' => ByteMem.lowBytes t.toSize (s'.preg p) = readOpr vi s (.vgpr t v)) ra
      (ra.emit (.mkMov (.pgpr (ra.vregs v).type p)
        (.pgpr (ra.vregs v).type (ra.vregs v).p))) := by
  intro hi
  refine ⟨hi.emit _, _, rfl, fun s s' hm => ⟨_, Quiet.mov rfl rfl s', ?_, fun q hq => ?_, ?_⟩⟩
  · refine ⟨hm.mem, hm.cpu, fun w hw hg => ?_, hm.slot⟩
    have hne : (ra.vregs w).p ≠ p := by
      intro he
      have := hi.owns hw
      rw [he, hfree] at this
      cases this
    simpa [writeOpr, hne, valueOf] using hm.reg w hw hg
  · have hne : q ≠ p := by rintro rfl; exact hpin hq
    simp [writeOpr, hne]
  · simp only [writeOpr, Function.update_self, readOpr]
    rw [ByteMem.lowBytes_setLow ht, ByteMem.lowBytes_lowBytes, min_eq_left ht]
    exact hm.reg_narrow hl hv ht

/-! ### The loop over the inputs -/

/-- What is known of an input once the loop has handled it. -/
structure InputDone (c : InstCt) (i : ℕ) (t : VType) (v p : ℕ) (st : OpState) : Prop where
  operand : st.ins.i[i]? = some (.pgpr t p)
  avoided : st.avoid.test p = true
  /-- An unconstrained input is read from the register that its virtual register owns. -/
  inPlace : (ctOf c (st.ins.o.length + i)).cr = GPR_ALL →
    (st.ra.vregs v).loc = .REG ∧ (st.ra.vregs v).p = p

/-- What the loop over the inputs keeps. -/
structure InputFrame (st st' : OpState) : Prop where
  keeps : Keeps st.avoid st.ra st'.ra
  avoid : ∀ p, st.avoid.test p = true → st'.avoid.test p = true
  op : st'.ins.op = st.ins.op
  o : st'.ins.o = st.ins.o

lemma test_GPR_ALL {p : ℕ} (hp : p < N_PREGS) : GPR_ALL.test p = true := by
  simp only [N_PREGS, GPR_NUM] at hp
  interval_cases p <;> decide

variable (env) in
/-- The operand of an input that is a register. -/
lemma allocInput_vgpr {c : InstCt} {i v : ℕ} {t : VType} {st st' : OpState}
    (hi : Inv vi N st.ra) (ha : AvoidsFixed st.avoid) (hop : st.ins.i[i]? = some (.vgpr t v))
    (hg : GoodInput vi N W (.vgpr t v)) (h : allocInput c i st = some st') :
    ∃ p, InputDone c i t v p st' ∧ InputFrame st st' ∧ AvoidsFixed st'.avoid ∧
      (∀ j, j ≠ i → st'.ins.i[j]? = st.ins.i[j]?) ∧
      StepTo env vi N W (fun q => st.avoid.test q = true)
        (fun s s' => ByteMem.lowBytes t.toSize (s'.preg p) = readOpr vi s (.vgpr t v))
        st.ra st'.ra := by
  obtain ⟨hN, hW, t₀, ht₀, hle⟩ := hg
  simp only [allocInput, hop] at h
  obtain ⟨ra1, h1, h2⟩ := Option.bind_eq_some_iff.mp h
  obtain ⟨hstep, hkeep, hloc⟩ := step_fill env W hi ha
    (fun hgl => hN (by rwa [← hi.isGlobal])) h1
  obtain ⟨hi1, -⟩ := hstep hi
  have hlt : i < st.ins.i.length := by
    by_contra hge
    rw [List.getElem?_eq_none (by omega)] at hop
    cases hop
  have hty : t.toSize ≤ (ra1.vregs v).type.toSize := by
    have := hi1.type v (hi1.lt_of_loc (by simp [hloc]))
    rw [ht₀] at this
    rwa [← Option.some.inj this]
  have hval : (ra1.vregs v).isGlobal = true ∨ W v := by rwa [hi1.isGlobal]
  have hset : ∀ q, q < N_PREGS → AvoidsFixed (st.avoid.set q) ∧
      (∀ r, st.avoid.test r = true → (st.avoid.set q).test r = true) ∧
      (st.avoid.set q).test q = true := fun q hq => by
    have hq32 : q < 32 := by simp only [N_PREGS, GPR_NUM] at hq; omega
    refine ⟨fun r hr => ?_, fun r hr => ?_, ?_⟩
    · simp [RegMask.test_set hq32, ha r hr]
    · simp [RegMask.test_set hq32, hr]
    · simp [RegMask.test_set hq32]
  split at h2
  · -- the register is admissible where it is
    rename_i htest
    cases h2
    have hpool := hi1.pool _ _ (hi1.owns hloc)
    obtain ⟨hs1, hs2, hs3⟩ := hset _ hpool.1
    refine ⟨(ra1.vregs v).p, ⟨by simp [hlt], hs3, fun _ => ⟨hloc, rfl⟩⟩, ⟨hkeep, hs2, rfl, rfl⟩,
      hs1, fun j hj => by simp [hj.symm], hstep.to fun _ s s' hm => ?_⟩
    exact hm.reg_narrow hloc hval hty
  · -- it is copied
    rename_i htest
    obtain ⟨⟨p, ra2⟩, h3, h4⟩ := Option.bind_eq_some_iff.mp h2
    cases h4
    obtain ⟨hstep2, hspec⟩ := step_allocPReg env W (fun q => st.avoid.test q = true) hi1 h3
    have hne : (ra1.vregs v).p ≠ p := by
      rintro rfl
      exact htest hspec.desire
    have hv2 : ra2.vregs v = ra1.vregs v := hspec.other v fun hx => hne hx.2
    obtain ⟨hs1, hs2, hs3⟩ := hset _ hspec.lt
    refine ⟨p, ⟨by simp [hlt], hs3, fun hall => ?_⟩, ⟨hkeep.trans ?_, hs2, rfl, rfl⟩, hs1,
      fun j hj => by simp [hj.symm], hstep.trans_to (hstep2.trans_to ?_)⟩
    · have hpool := hi1.pool _ _ (hi1.owns hloc)
      simp only [Inst.setI_o] at hall
      rw [hall] at htest
      exact absurd (test_GPR_ALL hpool.1) htest
    · exact hspec.keeps.trans ⟨rfl, fun w hw _ => ⟨hw, rfl⟩⟩
    · exact stepTo_copy (by rw [hv2, hloc]) hspec.free (by simp [hspec.avoid]) (by rwa [hv2])
        (by rwa [hv2])

/-- The other inputs are left alone. -/
lemma allocInput_other {c : InstCt} {i : ℕ} {st st' : OpState}
    (hop : ∀ t v, st.ins.i[i]? ≠ some (.vgpr t v)) (h : allocInput c i st = some st') :
    st' = st := by
  rw [allocInput] at h
  split at h
  · rename_i t v heq
    exact absurd heq (hop t v)
  · exact (Option.some.inj h).symm

lemma InputDone.of_frame {c : InstCt} {i v p : ℕ} {t : VType} {st st' : OpState}
    (h : InputDone c i t v p st) (hf : InputFrame st st')
    (hop : st'.ins.i[i]? = st.ins.i[i]?) : InputDone c i t v p st' := by
  refine ⟨hop.trans h.operand, hf.avoid p h.avoided, fun hc => ?_⟩
  rw [hf.o] at hc
  obtain ⟨hl, hp⟩ := h.inPlace hc
  obtain ⟨hl', hp'⟩ := hf.keeps.reg v hl (by rw [hp]; exact h.avoided)
  exact ⟨hl', hp'.trans hp⟩

lemma InputFrame.trans {st st' st'' : OpState} (h1 : InputFrame st st')
    (h2 : InputFrame st' st'') : InputFrame st st'' := by
  refine ⟨⟨h2.keeps.nVregs.trans h1.keeps.nVregs, fun w hl ha => ?_⟩,
    fun p hp => h2.avoid p (h1.avoid p hp), h2.op.trans h1.op, h2.o.trans h1.o⟩
  obtain ⟨hl', hp'⟩ := h1.keeps.reg w hl ha
  obtain ⟨hl'', hp''⟩ := h2.keeps.reg w hl' (by rw [hp']; exact h1.avoid _ ha)
  exact ⟨hl'', hp''.trans hp'⟩

/-- The values of the register inputs of `ins` with an index in `l`. -/
def InputsRead (vi : VRegsInfo) (ins : Inst) (l : List ℕ) (st : OpState) (s s' : QState) : Prop :=
  ∀ i ∈ l, ∀ t v, ins.i[i]? = some (.vgpr t v) → ∀ p, st.ins.i[i]? = some (.pgpr t p) →
    ByteMem.lowBytes t.toSize (s'.preg p) = readOpr vi s (.vgpr t v)

variable (env) in
lemma allocInputs {c : InstCt} (ins : Inst) {l : List ℕ} {st st' : OpState} (hl : l.Nodup)
    (hi : Inv vi N st.ra) (ha : AvoidsFixed st.avoid) (hins : ∀ i ∈ l, st.ins.i[i]? = ins.i[i]?)
    (hg : ∀ o ∈ ins.i, GoodInput vi N W o)
    (h : l.foldlM (fun st i => allocInput c i st) st = some st') :
    (∀ i ∈ l, ∀ t v, ins.i[i]? = some (.vgpr t v) → ∃ p, InputDone c i t v p st') ∧
      InputFrame st st' ∧ AvoidsFixed st'.avoid ∧
      (∀ j, (∀ t v, st.ins.i[j]? = some (.vgpr t v) → j ∉ l) →
        st'.ins.i[j]? = st.ins.i[j]?) ∧
      StepTo env vi N W (fun q => st.avoid.test q = true) (InputsRead vi ins l st')
        st.ra st'.ra := by
  induction l generalizing st with
  | nil =>
    rw [FoldM.foldlM_nil_eq_some] at h
    subst h
    exact ⟨by simp, ⟨.refl _ _, fun _ h => h, rfl, rfl⟩, ha, fun _ _ => rfl,
      (Step.refl _).to fun _ _ _ _ => by simp [InputsRead]⟩
  | cons i l ih =>
    obtain ⟨hil, hl'⟩ := List.nodup_cons.mp hl
    obtain ⟨st1, h1, h2⟩ := FoldM.foldlM_cons_eq_some.mp h
    have hhead := hins i (by simp)
    by_cases hop : ∃ t v, st.ins.i[i]? = some (.vgpr t v)
    · obtain ⟨t, v, hop⟩ := hop
      obtain ⟨p, hdone, hframe, ha1, hother, hstep⟩ := allocInput_vgpr env hi ha hop
        (hg _ (List.mem_of_getElem? (hhead ▸ hop))) h1
      obtain ⟨hi1, -⟩ := hstep hi
      obtain ⟨hdone', hframe', ha', hother', hstep'⟩ := ih hl' hi1 ha1
        (fun j hj => by
          rw [hother j (by rintro rfl; exact hil hj)]
          exact hins j (List.mem_cons_of_mem i hj)) h2
      have hkeep : st'.ins.i[i]? = st1.ins.i[i]? :=
        hother' i fun t' v' h' => by rw [hdone.operand] at h'; cases h'
      refine ⟨fun j hj t' v' hj' => ?_, hframe.trans hframe', ha', fun j hj => ?_,
        hstep.trans hstep' hframe.avoid fun s s1 s2 hv hpin hrest => ?_⟩
      · rcases List.mem_cons.mp hj with rfl | hj
        · rw [← hhead, hop] at hj'
          cases hj'
          exact ⟨p, hdone.of_frame hframe' hkeep⟩
        · exact hdone' j hj t' v' hj'
      · have hji : j ≠ i := by
          rintro rfl
          exact hj t v hop (by simp)
        rw [hother' j fun t' v' h' => ?_, hother j hji]
        rw [hother j hji] at h'
        exact fun hjl => hj t' v' h' (List.mem_cons_of_mem i hjl)
      · intro j hj t' v' hj' q hq
        rcases List.mem_cons.mp hj with rfl | hj
        · rw [← hhead, hop] at hj'
          cases hj'
          rw [hkeep, hdone.operand] at hq
          cases hq
          rw [hpin p hdone.avoided]
          exact hv
        · exact hrest j hj t' v' hj' q hq
    · push Not at hop
      have := allocInput_other hop h1
      subst this
      obtain ⟨hdone', hframe', ha', hother', hstep'⟩ := ih hl' hi ha
        (fun j hj => hins j (List.mem_cons_of_mem i hj)) h2
      refine ⟨fun j hj t' v' hj' => ?_, hframe', ha', fun j hj => ?_, ?_⟩
      · rcases List.mem_cons.mp hj with rfl | hj
        · exact absurd (hhead.trans hj') (hop t' v')
        · exact hdone' j hj t' v' hj'
      · exact hother' j fun t' v' h' hjl => hj t' v' h' (List.mem_cons_of_mem i hjl)
      · refine (Step.refl _).trans_to ?_
        intro hinv
        obtain ⟨hi', δ, hδ, hs⟩ := hstep' hinv
        refine ⟨hi', δ, hδ, fun s s' hm => ?_⟩
        obtain ⟨s1, q1, m1, p1, r1⟩ := hs s s' hm
        refine ⟨s1, q1, m1, p1, fun j hj t' v' hj' => ?_⟩
        rcases List.mem_cons.mp hj with rfl | hj
        · exact absurd (hhead.trans hj') (hop t' v')
        · exact r1 j hj t' v' hj'

/-! ### The write-back of the globals -/

/-- No global register is newer than its home. -/
def NoDirty (ra : QRegAlloc) : Prop :=
  ∀ v, (ra.vregs v).isGlobal = true → (ra.vregs v).loc = .REG → (ra.vregs v).spillSynced = true

lemma Match.cpu_eq {s s' : QState} (hm : Match vi W ra s s') (hd : NoDirty ra) :
    s'.cpu = s.cpu := by
  funext x
  refine hm.cpu x fun v hv => ?_
  have := hd v hv.1 hv.2.1
  rw [hv.2.2.1] at this
  cases this

variable (env W pin) in
lemma syncGlobals_spec (avoid : RegMask) (hi : Inv vi N ra) (h : ra.syncGlobals = some ra') :
    Step env vi N W pin ra ra' ∧ Keeps avoid ra ra' ∧ NoDirty ra' := by
  have key := FoldM.invariant_range
    (P := fun i r => Step env vi N W pin ra r ∧ Keeps avoid ra r ∧
      ∀ v < i, (r.vregs v).isGlobal = true → (r.vregs v).loc = .REG →
        (r.vregs v).spillSynced = true) h ⟨.refl ra, .refl avoid ra, fun v hv => by omega⟩ ?_
  · obtain ⟨hstep, hkeep, hsync⟩ := key
    obtain ⟨hi', -⟩ := hstep hi
    refine ⟨hstep, hkeep, fun v hg hl => hsync v ?_ hg hl⟩
    rw [← hkeep.nVregs]
    exact hi'.lt_of_global hg
  · rintro i - r r' ⟨hstep, hkeep, hsync⟩ hr
    split at hr
    · obtain ⟨hstep', hspec⟩ := step_syncSpill env vi N W pin hr
      refine ⟨hstep.trans hstep', hkeep.trans ⟨hspec.nVregs, fun w hl _ => ?_⟩, fun v hv => ?_⟩
      · by_cases hw : w = i
        · subst hw; exact ⟨by rw [hspec.loc, hl], hspec.p⟩
        · rw [hspec.other w hw]; exact ⟨hl, rfl⟩
      · by_cases hvi : v = i
        · subst hvi
          intro _ hl
          exact hspec.synced (by rwa [← hspec.loc])
        · rw [hspec.other v hvi]
          exact hsync v (by omega)
    · rename_i hg
      cases hr
      refine ⟨hstep, hkeep, fun v hv hgv => ?_⟩
      by_cases hvi : v = i
      · subst hvi; exact absurd hgv hg
      · exact hsync v (by omega) hgv

end QRegAlloc

end Rv32jit.Qcg
