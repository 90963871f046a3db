/-
# The rewritten instruction

Once its operands are in place, the rewritten instruction does what the original one does: the
same accesses, the same transfer of control, and results in the registers that the allocator
has just recorded.
-/
import Rv32jit.Codegen.RegAllocOperands

namespace Rv32jit.Qcg

open Qir ArchTraits

namespace QRegAlloc

variable {env : HelperEnv} {vi : VRegsInfo} {N W W' : ℕ → Prop} {ra ra' ra'' : QRegAlloc}

/-! ### Writing a result -/

lemma valueOf_congr {r r' : QRegAlloc} {v : ℕ} (h : (r'.vregs v).type = (r.vregs v).type)
    (s : QState) : r'.valueOf vi s v = r.valueOf vi s v := by
  simp only [valueOf, h]

/-- A result that goes to the register `v`, which the allocator keeps in `p` from now on. -/
lemma Match.writeReg {v p : ℕ} {t : VType} {s s' : QState} (hi : Inv vi N ra)
    (hm : Match vi W ra s s') (ht : vi.vregType v = some t) (hvt : (ra.vregs v).type = t)
    (hother : ∀ w, w ≠ v → ra'.vregs w = ra.vregs w)
    (hv : ra'.vregs v = { ra.vregs v with loc := .REG, p := p, spillSynced := false })
    (hp : ∀ w, w ≠ v → (ra.vregs w).loc = .REG → (ra.vregs w).p ≠ p) (x : BitVec 32) :
    Match vi (fun w => W w ∨ w = v) ra' (writeOpr vi s (.vgpr t v) x)
      (writeOpr vi s' (.pgpr t p) x) := by
  have hglob : ∀ g, vi.getGlobalInfo v = some g → g.type = t := fun g hg => by
    rw [← hvt, (hi.home v g hg).2]
  have hval : ∀ w, w ≠ v → ra'.valueOf vi (writeOpr vi s (.vgpr t v) x) w = ra.valueOf vi s w := by
    intro w hw
    rw [valueOf_congr (r := ra) (by rw [hother w hw])]
    refine readOpr_writeOpr_of_ne vi hw (fun g hg => ?_) (fun g hg => ?_) s x
    · rw [hglob g hg]
    · rw [(hi.home w g hg).2]
  refine ⟨?_, fun y hy => ?_, fun w hl hw => ?_, fun w hg hw hl => ?_⟩
  · cases hg : vi.getGlobalInfo v <;> simp [writeOpr, hg, hm.mem]
  · have hcpu : s'.cpu y = s.cpu y := by
      refine hm.cpu y fun w hw => ?_
      by_cases hwv : w = v
      · subst hwv
        refine hy w ?_
        obtain ⟨h1, -, -, h2, h3⟩ := hw
        rw [DirtyAt, hv]
        exact ⟨h1, rfl, rfl, h2, h3⟩
      · refine hy w ?_
        rw [DirtyAt, hother w hwv]
        exact hw
    cases hg : vi.getGlobalInfo v with
    | none => simpa [writeOpr, hg] using hcpu
    | some g =>
      have hout : y < g.stateOffs ∨ g.stateOffs + t.toSize ≤ y := by
        by_contra hin
        refine hy v ?_
        obtain ⟨ho, -⟩ := hi.home v g hg
        rw [DirtyAt, hv]
        refine ⟨?_, rfl, rfl, ?_, ?_⟩
        · show (ra.vregs v).isGlobal = true
          by_contra hgl
          rw [hi.getGlobalInfo_none (by simpa using hgl)] at hg
          cases hg
        · show (ra.vregs v).spillOffs ≤ y
          omega
        · show y < (ra.vregs v).spillOffs + (ra.vregs v).type.toSize
          rw [hvt]
          omega
      simp only [writeOpr, hg]
      exact hcpu.trans (ByteMem.store_apply_of_notMem x hout).symm
  · by_cases hwv : w = v
    · subst hwv
      rw [hv]
      simp only [writeOpr, Function.update_self, valueOf, hv, hvt]
      rw [ByteMem.lowBytes_setLow le_rfl]
      cases hg : vi.getGlobalInfo w <;>
        simp [readOpr, hg, ByteMem.lowBytes_setLow]
    · rw [hval w hwv]
      rw [hother w hwv] at hl hw ⊢
      have hW : (ra.vregs w).isGlobal = true ∨ W w := by simpa [hwv] using hw
      simpa [writeOpr, hp w hwv hl] using hm.reg w hl hW
  · by_cases hwv : w = v
    · subst hwv
      rw [hv] at hl
      simp at hl
    · rw [hval w hwv]
      rw [hother w hwv] at hg hl ⊢
      have hW : W w := by simpa [hwv] using hw
      simpa [writeOpr] using hm.slot w hg hW hl

/-- A result that goes to an explicit slot of the CPU state. -/
lemma Match.writeSlot {t : VType} {o : ℕ} {s s' : QState} (hi : Inv vi N ra)
    (hm : Match vi W ra s s') (hs : SlotApart vi N true t o) (x : BitVec 32) :
    Match vi W ra (writeOpr vi s (.slot true t o) x) (writeOpr vi s' (.slot true t o) x) := by
  refine ⟨hm.mem, fun y hy => ?_, fun w hl hw => ?_, fun w hg hw hl => ?_⟩
  · simp only [writeOpr, ByteMem.store]
    split
    · rfl
    · exact hm.cpu y hy
  · have hval : ra.valueOf vi (writeOpr vi s (.slot true t o) x) w = ra.valueOf vi s w := by
      cases hg : vi.getGlobalInfo w with
      | none => simp [valueOf, readOpr, writeOpr, hg]
      | some g =>
        have hgw : (ra.vregs w).isGlobal = true := by
          by_contra h
          rw [hi.getGlobalInfo_none (by simpa using h)] at hg
          cases hg
        have hap := hs.2 w g (hi.named w hgw hl) hg
        simp only [valueOf, readOpr, writeOpr, hg, (hi.home w g hg).2]
        exact ByteMem.load_store_disjoint _ _ hap
    rw [hval]
    exact hm.reg w hl hw
  · have hval : ra.valueOf vi (writeOpr vi s (.slot true t o) x) w = ra.valueOf vi s w := by
      simp [valueOf, readOpr, writeOpr, hi.getGlobalInfo_none hg]
    rw [hval]
    exact hm.slot w hg hw hl

/-- An explicit slot reads the same in both codes. -/
lemma Match.readSlot {t : VType} {o : ℕ} {s s' : QState} (hi : Inv vi N ra)
    (hm : Match vi W ra s s') (hs : SlotApart vi N true t o) :
    readOpr vi s' (.slot true t o) = readOpr vi s (.slot true t o) := by
  simp only [readOpr]
  refine ByteMem.load_congr fun y hy hy' => hm.cpu y fun w hw => ?_
  obtain ⟨g, hg⟩ := hi.getGlobalInfo_isSome hw.1
  have hap := hs.2 w g (hi.named w hw.1 hw.2.1) hg
  obtain ⟨ho, ht⟩ := hi.home w g hg
  rw [StateReg.Apart, ← ho, ← ht] at hap
  have := hw.2.2.2
  simp only at hap
  omega

/-- The memory may change under a match. -/
lemma Match.withMem {s s' : QState} (hm : Match vi W ra s s') (m : ByteMem) :
    Match vi W ra { s with mem := m } { s' with mem := m } := by
  refine ⟨rfl, hm.cpu, fun w hl hw => ?_, fun w hg hw hl => ?_⟩
  · have := hm.reg w hl hw
    cases hgi : vi.getGlobalInfo w <;> simpa [valueOf, readOpr, hgi] using this
  · have := hm.slot w hg hw hl
    cases hgi : vi.getGlobalInfo w <;> simpa [valueOf, readOpr, hgi] using this

/-- Fewer registers are known to have been written. -/
lemma Match.weaken {s s' : QState} (hm : Match vi W ra s s')
    (h : ∀ v, W' v → W v) : Match vi W' ra s s' :=
  ⟨hm.mem, hm.cpu, fun w hl hw => hm.reg w hl (hw.imp_right (h w)),
    fun w hg hw hl => hm.slot w hg (h w hw) hl⟩

/-! ### The loop over the outputs -/

/-- The result of the loop over the outputs: `ra` holds before the instruction, `ra'` after it. -/
inductive OutDone (o o' : List VOperand) (ra ra' : QRegAlloc) : Prop
  | kept (ho : o' = o) (hv : ∀ t v, VOperand.vgpr t v ∉ o) (hra : ra' = ra)
  | reg (t : VType) (v p : ℕ) (ho : o = [VOperand.vgpr t v])
      (ho' : o' = [VOperand.pgpr t p])
      (hother : ∀ w, w ≠ v → ra'.vregs w = ra.vregs w)
      (hv : ra'.vregs v = { ra.vregs v with loc := .REG, p := p, spillSynced := false })
      (hp : ∀ w, w ≠ v → (ra.vregs w).loc = .REG → (ra.vregs w).p ≠ p)

/-- A tied output stays in the register of the input that it is tied to. -/
lemma allocOutput_tied {c : InstCt} {t : VType} {v : ℕ} {st st' : OpState} (hi : Inv vi N st.ra)
    (ho : st.ins.o = [.vgpr t v]) (hc : (ctOf c 0).hasAlias = true)
    (hl : (st.ra.vregs v).loc = .REG) (h : allocOutput c 0 st = some st') :
    Inv vi N st'.ra ∧ st'.ra.nVregs = st.ra.nVregs ∧ st'.ra.code = st.ra.code ∧
      st'.ins.op = st.ins.op ∧ st'.ins.i = st.ins.i ∧
      OutDone st.ins.o st'.ins.o st.ra st'.ra := by
  simp only [allocOutput, ho, List.getElem?_cons_zero, hc, if_true] at h
  cases h
  refine ⟨hi.setSynced (by simp [hl]) false, rfl, rfl, rfl, rfl, ?_⟩
  refine .reg t v (st.ra.vregs v).p ho (by simp [ho]) (fun w hw => by simp [hw])
    (by simp [hl]) fun w hw hlw he => ?_
  exact hw (hi.p_inj hlw hl he)

variable (env W) in
/-- Any other register output gets a new register. -/
lemma allocOutput_fresh {c : InstCt} {t : VType} {v : ℕ} {st st' : OpState}
    (hi : Inv vi N st.ra) (ha : AvoidsFixed st.avoid) (ho : st.ins.o = [.vgpr t v])
    (hc : (ctOf c 0).hasAlias = false) (hg : GoodOutput vi N (.vgpr t v))
    (h : allocOutput c 0 st = some st') :
    ∃ raM, Step env vi N W (fun q => st.avoid.test q = true) st.ra raM ∧
      Keeps st.avoid st.ra raM ∧ (NoDirty st.ra → NoDirty raM) ∧ Inv vi N st'.ra ∧
      st'.ra.nVregs = raM.nVregs ∧ st'.ra.code = raM.code ∧ st'.ins.op = st.ins.op ∧
      st'.ins.i = st.ins.i ∧ OutDone st.ins.o st'.ins.o raM st'.ra := by
  simp only [allocOutput, ho, List.getElem?_cons_zero, hc, Bool.false_eq_true, if_false] at h
  obtain ⟨⟨p, ra1⟩, h1, h2⟩ := Option.bind_eq_some_iff.mp h
  simp only [Option.bind_eq_bind, Option.bind_some, Option.some.injEq] at h2
  obtain ⟨hstep, hspec⟩ := step_allocPReg env W (fun q => st.avoid.test q = true) hi h1
  obtain ⟨hi1, -⟩ := hstep hi
  have hvlt : v < ra1.nVregs := by
    rw [hi1.nVregs]
    exact VRegsInfo.lt_numAll hg.2
  have hp2v : ∀ q, st'.ra.p2v q = if q = p then some v
      else if (ra1.vregs v).loc = .REG ∧ q = (ra1.vregs v).p then none else ra1.p2v q := by
    intro q
    subst h2
    by_cases hl : (ra1.vregs v).loc = .REG <;> simp [hl]
  have hvt : st'.ra.vregs v =
      { ra1.vregs v with loc := .REG, p := p, spillSynced := false } := by
    subst h2
    by_cases hl : (ra1.vregs v).loc = .REG <;> simp [hl]
  have hother : ∀ w, w ≠ v → st'.ra.vregs w = ra1.vregs w := by
    intro w hw
    subst h2
    by_cases hl : (ra1.vregs v).loc = .REG <;> simp [hl, hw]
  have hrest : st'.ra.nVregs = ra1.nVregs ∧ st'.ra.frameCur = ra1.frameCur ∧
      st'.ra.code = ra1.code ∧ st'.ins.op = st.ins.op ∧ st'.ins.i = st.ins.i ∧
      st'.ins.o = [.pgpr t p] := by
    subst h2
    by_cases hl : (ra1.vregs v).loc = .REG <;> simp [hl, ho]
  obtain ⟨hn, hf, hcode, hop, hin, hout⟩ := hrest
  refine ⟨ra1, hstep, hspec.keeps, fun hd w hgw hlw => ?_, ?_, hn, hcode, hop, hin,
    .reg t v p ho hout hother hvt fun w _ hlw he => ?_⟩
  · by_cases hw : (st.ra.vregs w).loc = .REG ∧ (st.ra.vregs w).p = p
    · rw [hspec.victim w hw.1 hw.2] at hlw
      cases hlw
    · rw [hspec.other w hw] at hgw hlw ⊢
      exact hd w hgw hlw
  · exact hi1.assign hvlt hspec.free hspec.lt (ha.not_fixed hspec.avoid)
      (fun hgl => hg.1 (by rwa [← hi1.isGlobal])) hn hf hother hvt hp2v
  · have := hi1.owns hlw
    rw [he, hspec.free] at this
    cases this

/-! ### The instruction in place -/

/-- The inputs of the rewritten instruction: a register of the original code has become a
physical one that holds its value, and the other inputs are as they were. -/
def Placed (vi : VRegsInfo) (ins ins' : Inst) (s s' : QState) : Prop :=
  (∀ (i : ℕ) (t : VType) (v : ℕ), ins.i[i]? = some (.vgpr t v) →
    ∃ p, ins'.i[i]? = some (.pgpr t p) ∧
      ByteMem.lowBytes t.toSize (s'.preg p) = readOpr vi s (.vgpr t v)) ∧
  ∀ i : ℕ, (∀ t v, ins.i[i]? ≠ some (.vgpr t v)) → ins'.i[i]? = ins.i[i]?

/-- Placed inputs stay in place while the physical registers do not change. -/
lemma Placed.of_preg {ins ins' : Inst} {s s' s'' : QState} (h : Placed vi ins ins' s s')
    (hp : ∀ p, s''.preg p = s'.preg p) : Placed vi ins ins' s s'' := by
  refine ⟨fun i t v hv => ?_, h.2⟩
  obtain ⟨p, h1, h2⟩ := h.1 i t v hv
  exact ⟨p, h1, by rw [hp, h2]⟩

/-- Placed inputs have the values of the original ones. -/
lemma Placed.inputs {ins ins' : Inst} {s s' : QState} (h : Placed vi ins ins' s s')
    (hi : Inv vi N ra) (hm : Match vi W ra s s') (hg : ∀ o ∈ ins.i, GoodInput vi N W' o)
    (hop : ins'.op = ins.op) :
    ins'.i.map (readOpr vi s') = ins.i.map (readOpr vi s) ∧
      ins'.i.all VOperand.isReadable = ins.i.all VOperand.isReadable := by
  have hlen : ins'.i.length = ins.i.length := by rw [ins'.hi, ins.hi, hop]
  have key : ∀ (k : ℕ) (hk : k < ins.i.length) (hk' : k < ins'.i.length),
      readOpr vi s' ins'.i[k] = readOpr vi s ins.i[k] ∧
        ins'.i[k].isReadable = ins.i[k].isReadable := by
    intro k hk hk'
    have hgk := hg _ (List.getElem_mem hk)
    cases ho : ins.i[k] with
    | vgpr t v =>
      obtain ⟨p, h1, h2⟩ := h.1 k t v (by rw [List.getElem?_eq_getElem hk, ho])
      rw [List.getElem?_eq_getElem hk'] at h1
      rw [Option.some.inj h1]
      exact ⟨h2, rfl⟩
    | const t c =>
      have h1 := h.2 k fun t v => by rw [List.getElem?_eq_getElem hk, ho]; simp
      rw [List.getElem?_eq_getElem hk, List.getElem?_eq_getElem hk', ho] at h1
      rw [Option.some.inj h1]
      exact ⟨rfl, rfl⟩
    | bad =>
      have h1 := h.2 k fun t v => by rw [List.getElem?_eq_getElem hk, ho]; simp
      rw [List.getElem?_eq_getElem hk, List.getElem?_eq_getElem hk', ho] at h1
      rw [Option.some.inj h1]
      exact ⟨rfl, rfl⟩
    | slot g t o =>
      have h1 := h.2 k fun t v => by rw [List.getElem?_eq_getElem hk, ho]; simp
      rw [List.getElem?_eq_getElem hk, List.getElem?_eq_getElem hk', ho] at h1
      rw [Option.some.inj h1]
      rw [ho] at hgk
      obtain ⟨rfl, hs⟩ := hgk
      exact ⟨hm.readSlot hi ⟨rfl, hs⟩, rfl⟩
    | pgpr t p =>
      rw [ho] at hgk
      exact hgk.elim
  constructor
  · refine List.ext_getElem (by simpa using hlen) fun k hk hk' => ?_
    simpa using (key k (by simpa using hk') (by simpa using hk)).1
  · have : ins'.i.map VOperand.isReadable = ins.i.map VOperand.isReadable := by
      refine List.ext_getElem (by simpa using hlen) fun k hk hk' => ?_
      simpa using (key k (by simpa using hk') (by simpa using hk)).2
    have hall := congrArg (fun l : List Bool => l.all id) this
    simpa [List.all_map, Function.comp_def] using hall

/-- The registers written after an instruction. -/
def Written (W : ℕ → Prop) (o : List VOperand) (v : ℕ) : Prop := W v ∨ ∃ t, VOperand.vgpr t v ∈ o

variable (env) in
/-- With its inputs in place, the rewritten instruction acts as the original one. -/
lemma exec_placed {ins ins' : Inst} {s s' : QState} (hi : Inv vi N ra) (hm : Match vi W ra s s')
    (hpl : Placed vi ins ins' s s') (hop : ins'.op = ins.op)
    (hcall : ∀ stub, ins.op ≠ .hcall stub) (hgi : ∀ o ∈ ins.i, GoodInput vi N W' o)
    (hgo : ∀ o ∈ ins.o, GoodOutput vi N o) (hd : ins.op.sideeff = true → NoDirty ra)
    (hout : OutDone ins.o ins'.o ra ra') :
    (exec env vi ins' s').1 = (exec env vi ins s).1 ∧
      (exec env vi ins' s').2.1 = (exec env vi ins s).2.1 ∧
      ((exec env vi ins s).2.1 ≠ .stuck →
        Match vi (Written W ins.o) ra' (exec env vi ins s).2.2 (exec env vi ins' s').2.2) := by
  obtain ⟨hvals, hread⟩ := hpl.inputs hi hm hgi hop
  have hwrit : ins'.o.all VOperand.isWritable = ins.o.all VOperand.isWritable := by
    cases hout with
    | kept ho _ _ => rw [ho]
    | reg t v p ho ho' _ _ _ => rw [ho, ho']; rfl
  have hleg : ins'.legal = ins.legal := by rw [Inst.legal, Inst.legal, hread, hwrit]
  by_cases hl : ins.legal = true
  · rw [exec_eq_eval hcall hl, exec_eq_eval (by rwa [hop]) (by rwa [hleg]), hop, hvals, hm.mem]
    refine ⟨?_, rfl, fun hns => ?_⟩
    · -- the events carry the CPU state, which is synced when there are any
      by_cases hse : ins.op.sideeff = true
      · rw [hm.cpu_eq (hd hse)]
      · rw [Op.eval_acc (by simpa using hse)]
        rfl
    · set r := ins.op.eval (ins.i.map (readOpr vi s)) s.mem
      have hm' := hm.withMem r.mem
      have hlen : r.outs.length = ins.o.length := by rw [Op.eval_outs hns, ins.ho]
      cases hout with
      | kept ho hnv hra =>
        rw [ho, hra]
        have hW : Match vi W ra (writeOuts vi { s with mem := r.mem } ins.o r.outs)
            (writeOuts vi { s' with mem := r.mem } ins.o r.outs) := by
          have hslots : ∀ o ∈ ins.o, ∃ t k, o = .slot true t k ∧ SlotApart vi N true t k := by
            intro o ho'
            have hg := hgo o ho'
            simp only [Inst.legal, Bool.and_eq_true, List.all_eq_true] at hl
            have hw := hl.2 o ho'
            cases o with
            | slot g t k =>
              obtain ⟨rfl, hs⟩ := hg
              exact ⟨t, k, rfl, rfl, hs⟩
            | vgpr t v => exact absurd ho' (hnv t v)
            | pgpr t p => exact hg.elim
            | const t c => simp [VOperand.isWritable] at hw
            | bad => simp [VOperand.isWritable] at hw
          clear_value r
          generalize ins.o = os at hslots
          generalize r.outs = vs
          generalize ({ s with mem := r.mem } : QState) = u at hm' ⊢
          generalize ({ s' with mem := r.mem } : QState) = u' at hm' ⊢
          induction os generalizing vs u u' with
          | nil => cases vs <;> exact hm'
          | cons o os ih =>
            cases vs with
            | nil => exact hm'
            | cons x vs =>
              obtain ⟨t, k, rfl, hs⟩ := hslots o (by simp)
              exact ih (fun o ho => hslots o (by simp [ho])) vs _ _ (hm'.writeSlot hi hs x)
        refine hW.weaken ?_
        rintro v (hv | ⟨t, ht⟩)
        · exact hv
        · exact absurd ht (hnv t v)
      | reg t v p ho ho' hother hv hp =>
        obtain ⟨x, hx⟩ : ∃ x, r.outs = [x] := by
          rw [ho] at hlen
          exact List.length_eq_one_iff.mp hlen
        rw [ho, ho', hx]
        simp only [writeOuts]
        have hg : GoodOutput vi N (.vgpr t v) := hgo _ (by simp [ho])
        have hlt : v < ra.nVregs := by
          rw [hi.nVregs]
          exact VRegsInfo.lt_numAll hg.2
        have hty : (ra.vregs v).type = t := by
          have := hi.type v hlt
          rw [hg.2] at this
          exact (Option.some.inj this).symm
        refine (hm'.writeReg hi hg.2 hty hother hv hp x).weaken ?_
        rintro w (hw | ⟨t', ht'⟩)
        · exact Or.inl hw
        · simp only [List.mem_singleton, VOperand.vgpr.injEq] at ht'
          exact Or.inr ht'.2
  · have hl' : ins.legal = false := by simpa using hl
    rw [exec_illegal hl', exec_illegal (by rw [hleg, hl'])]
    exact ⟨rfl, rfl, fun h => absurd rfl h⟩

end QRegAlloc

end Rv32jit.Qcg
