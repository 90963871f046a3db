/-
# The register allocator is correct

The code that the allocator leaves in place of an instruction, of a block and of a region does
what the original code does.  Between blocks all global registers are in their homes and no
local register is live, so the relation between the two codes is equality of the CPU state and
of the memory there.
-/
import Rv32jit.Codegen.RegAllocVisit

namespace Rv32jit.Qcg

open Qir ArchTraits

namespace QRegAlloc

variable {env : HelperEnv} {vi : VRegsInfo} {N W W' : ℕ → Prop} {ra ra' ra'' : QRegAlloc}
  {pin : ℕ → Prop}

/-- An instruction that the allocator handles; `N` and `W` are the globals that the region
names and the locals that have been written. -/
structure GoodInst (vi : VRegsInfo) (N W : ℕ → Prop) (ins : Inst) : Prop where
  sel : Selected ins
  input : ∀ o ∈ ins.i, GoodInput vi N W o
  output : ∀ o ∈ ins.o, GoodOutput vi N o
  arg : ins.op.hasCalls = true → ∀ o ∈ ins.i, o.isConst = true

/-! ### Instructions -/

/-- The code `δ` that the allocator puts in place of `ins`. -/
abbrev Replaces (env : HelperEnv) (vi : VRegsInfo) (W : ℕ → Prop) (ra ra' : QRegAlloc) (ins : Inst)
    (δ : List Inst) : Prop :=
  Simulates env vi vi (Match vi W ra) (Match vi (Written W ins.o) ra') SameState ins δ

/-- Nothing happens to an instruction without operands. -/
lemma Placed.of_nil {ins : Inst} (h : ins.i = []) (s s' : QState) : Placed vi ins ins s s' :=
  ⟨fun i t v hv => by simp [h] at hv, fun _ _ => rfl⟩

variable (env) in
/-- The code in place of an instruction that stays in its block. -/
lemma replaces_allocOp {ins ins' : Inst} (hi : Inv vi N ra) (hg : GoodInst vi N W ins)
    (hcall : ins.op.hasCalls = false) (hterm : ins.op.isTerminator = false)
    (h : ra.allocOp ins = some (ra', ins')) :
    Inv vi N (ra'.emit ins') ∧ ∃ δ, (ra'.emit ins').code = ra.code ++ δ ∧
      Replaces env vi W ra (ra'.emit ins') ins δ := by
  obtain ⟨raM, hstep, hi', hcode, hop, hd, hout⟩ :=
    allocOp_spec env hi hg.sel hg.input hg.output h
  obtain ⟨hiM, δ, hδ, hs⟩ := hstep hi
  refine ⟨hi'.emit _, δ ++ [ins'], by simp [hcode, hδ], Simulates.of_quiet fun s s' hm => ?_⟩
  obtain ⟨s1, hq, hm1, -, hpl⟩ := hs s s' hm
  have hnc : ∀ stub, ins.op ≠ .hcall stub := fun stub he => by rw [he] at hcall; cases hcall
  obtain ⟨hev, hfl, hmatch⟩ := exec_placed _ hiM hm1 hpl hop hnc hg.input hg.output hd hout
  refine ⟨s1, hq, hev, hfl, fun hn => ?_, fun hn hns => ?_⟩
  · have := hmatch (by rw [hn]; simp)
    exact ⟨this.mem, this.cpu, this.reg, this.slot⟩
  · by_cases hl : ins.legal = true
    · rw [exec_eq_eval hnc hl] at hn hns
      rcases Op.eval_flow (ins.i.map (readOpr vi s)) s.mem hterm with h | h
      · exact absurd h hn
      · exact absurd h hns
    · rw [exec_illegal (by simpa using hl)] at hns
      exact absurd rfl hns

/-- The code in place of a terminator: the operands, then the boundary, then the branch. -/
lemma replaces_terminator {ins ins' : Inst} (hg : GoodInst vi N W ins)
    (hterm : ins.op.isTerminator = true) (hop : ins'.op = ins.op) (ho : ins'.o = ins.o)
    (hi : Inv vi N ra) (hstep : StepTo env vi N W (fun _ => False) (Placed vi ins ins') ra ra')
    (hW : ∀ v, W' v → W v) (hbound : Step env vi N W' (fun _ => True) ra' ra'')
    (hhome : AllHome ra'') :
    Inv vi N (ra''.emit ins') ∧ ∃ δ, (ra''.emit ins').code = ra.code ++ δ ∧
      Replaces env vi W ra (ra''.emit ins') ins δ := by
  obtain ⟨hi1, δ, hδ, hs⟩ := hstep hi
  obtain ⟨hi2, ε, hε, ht⟩ := hbound hi1
  refine ⟨hi2.emit _, (δ ++ ε) ++ [ins'], by simp [hδ, hε], Simulates.of_quiet fun s s' hm => ?_⟩
  obtain ⟨s1, q1, m1, -, hpl⟩ := hs s s' hm
  obtain ⟨s2, q2, m2, p2⟩ := ht s s1 (m1.weaken hW)
  have hnc : ∀ stub, ins.op ≠ .hcall stub := fun stub he => by rw [he] at hterm; cases hterm
  have hnil : ins.o = [] :=
    List.length_eq_zero_iff.mp (by rw [ins.ho, Op.nOut_terminator hterm])
  obtain ⟨hev, hfl, hmatch⟩ := exec_placed env hi2 m2
    (hpl.of_preg fun p => p2 p trivial) hop hnc hg.input hg.output (fun _ => hhome.noDirty)
    (.kept ho (by simp [hnil]) rfl)
  refine ⟨s2, q1.append q2, hev, hfl, fun hn => ?_, fun _ hns => ?_⟩
  · by_cases hl : ins.legal = true
    · rw [exec_eq_eval hnc hl] at hn
      exact absurd hn (Op.eval_flow_terminator hterm)
    · rw [exec_illegal (by simpa using hl)] at hn
      cases hn
  · have := hmatch hns
    exact ⟨this.cpu_eq hhome.noDirty, this.mem⟩

/-- The code in place of a call. -/
lemma replaces_hcall {ins : Inst} (hi : Inv vi N ra) (hg : GoodInst vi N W ins)
    (hcall : ins.op.hasCalls = true) (h : ra.callOp = some ra') :
    Inv vi N (ra'.emit ins) ∧ ∃ δ, (ra'.emit ins).code = ra.code ++ δ ∧
      Replaces env vi W ra (ra'.emit ins) ins δ := by
  obtain ⟨hstep, hhome, hfree⟩ :=
    callOp_spec env W (fun _ => False) hi h
  obtain ⟨hi', δ, hδ, hs⟩ := hstep hi
  refine ⟨hi'.emit _, δ ++ [ins], by simp [hδ], Simulates.of_quiet fun s s' hm => ?_⟩
  obtain ⟨s1, hq, hm1, -⟩ := hs s s' hm
  obtain ⟨stub, hop⟩ : ∃ stub, ins.op = .hcall stub := by
    revert hcall
    cases ins.op <;> intro h <;> first | exact ⟨_, rfl⟩ | cases h
  have hvals : ins.i.map (readOpr vi s1) = ins.i.map (readOpr vi s) :=
    List.map_congr_left fun o ho => by
      have := hg.arg hcall o ho
      cases o <;> first | rfl | simp [VOperand.isConst] at this
  refine ⟨s1, hq, ?_⟩
  by_cases hl : ins.legal = true
  · simp only [exec, hl, if_true, hop, hvals, hm1.cpu_eq hhome.noDirty, hm1.mem, true_and]
    refine ⟨fun _ => ⟨rfl, fun _ _ => rfl, fun v hv hw => ?_, fun v hgl hw hv => ?_⟩,
      fun _ _ => ⟨rfl, rfl⟩⟩
    · have hloc : (ra'.vregs v).isGlobal = false := by
        by_contra hgl
        have hmem := hhome v (by simpa using hgl)
        simp only [vregs_emit] at hv
        rw [hmem] at hv
        cases hv
      have hWv : W v := by
        rcases hw with hgl | hw | ⟨t, ht⟩
        · rw [vregs_emit, hloc] at hgl
          cases hgl
        · exact hw
        · have : ins.o = [] := List.length_eq_zero_iff.mp (by rw [ins.ho, hop]; rfl)
          rw [this] at ht
          cases ht
      have hnc : GPR_CALL_CLOBBER.test (ra'.vregs v).p = false := by
        by_contra hc
        have := hi'.owns hv
        rw [hfree _ (by simpa using hc)] at this
        cases this
      have := hm1.reg v hv (Or.inr hWv)
      simpa [hnc, valueOf, readOpr, hi'.getGlobalInfo_none hloc] using this
    · have hWv : W v := by
        rcases hw with hw | ⟨t, ht⟩
        · exact hw
        · have : ins.o = [] := List.length_eq_zero_iff.mp (by rw [ins.ho, hop]; rfl)
          rw [this] at ht
          cases ht
      have := hm1.slot v hgl hWv hv
      simpa [valueOf, readOpr, hi'.getGlobalInfo_none hgl] using this
  · rw [exec_illegal (by simpa using hl), exec_illegal (by simpa using hl)]
    exact ⟨rfl, rfl, Qir.Flow.noConfusion, fun _ h => absurd rfl h⟩

lemma OutDone.eq_of_nil {o o' : List VOperand} (h : OutDone o o' ra ra') (ho : o = []) :
    o' = o ∧ ra' = ra := by
  cases h with
  | kept h1 _ h2 => exact ⟨h1, h2⟩
  | reg t v p h1 => rw [ho] at h1; cases h1

/-- What is shown of every instruction. -/
def InstDone (env : HelperEnv) (vi : VRegsInfo) (N W : ℕ → Prop) (ra ra' : QRegAlloc)
    (ins : Inst) : Prop :=
  Inv vi N ra' ∧ ((ins.op.isTerminator || ins.op.hasCalls) = true → AllHome ra') ∧
    ∃ δ, ra'.code = ra.code ++ δ ∧ Replaces env vi W ra ra' ins δ

/-- A terminator whose operands are brought into registers. -/
lemma instDone_operands {ins ins' : Inst} {raA raB : QRegAlloc} (hi : Inv vi N ra)
    (hg : GoodInst vi N W ins) (hterm : ins.op.isTerminator = true)
    (h : ra.allocOp ins = some (raA, ins')) (hW : ∀ v, W' v → W v)
    (hbound : Inv vi N raA → Step env vi N W' (fun _ => True) raA raB ∧ AllHome raB) :
    InstDone env vi N W ra (raB.emit ins') ins := by
  obtain ⟨raM, hstep, hiA, -, hop, -, hout⟩ :=
    allocOp_spec env hi hg.sel hg.input hg.output h
  have hnil : ins.o = [] :=
    List.length_eq_zero_iff.mp (by rw [ins.ho, Op.nOut_terminator hterm])
  obtain ⟨ho, rfl⟩ := hout.eq_of_nil hnil
  obtain ⟨hstep', hhome⟩ := hbound hiA
  obtain ⟨h1, h2⟩ := replaces_terminator hg hterm hop ho hi hstep hW hstep' hhome
  exact ⟨h1, fun _ => hhome, h2⟩

/-- A terminator without operands. -/
lemma instDone_bare {ins : Inst} {raB : QRegAlloc} (hi : Inv vi N ra)
    (hg : GoodInst vi N W ins) (hterm : ins.op.isTerminator = true) (hnil : ins.i = [])
    (hW : ∀ v, W' v → W v) (hbound : Step env vi N W' (fun _ => True) ra raB ∧ AllHome raB) :
    InstDone env vi N W ra (raB.emit ins) ins := by
  obtain ⟨h1, h2⟩ := replaces_terminator hg hterm rfl rfl hi
    ((Step.refl ra).to fun _ s s' _ => .of_nil hnil s s') hW hbound.1 hbound.2
  exact ⟨h1, fun _ => hbound.2, h2⟩

variable (env) in
/-- Every instruction is replaced by code that does the same. -/
lemma runInst_spec {ins : Inst} (hi : Inv vi N ra) (hg : GoodInst vi N W ins)
    (h : ra.runInst ins = some ra') : InstDone env vi N W ra ra' ins := by
  obtain ⟨⟨raV, ins'⟩, hv, h⟩ := Option.bind_eq_some_iff.mp h
  cases h
  obtain ⟨op, o, i, ho, hlen⟩ := ins
  cases op
  case br =>
    obtain ⟨raB, h1, h2⟩ := Option.bind_eq_some_iff.mp hv
    cases h2
    obtain ⟨h3, h4, -⟩ := blockBoundary_spec env W _ hi h1
    exact instDone_bare hi hg rfl (List.length_eq_zero_iff.mp hlen) (fun _ => id) ⟨h3, h4⟩
  case brcc cc =>
    obtain ⟨⟨raA, insA⟩, h1, h2⟩ := Option.bind_eq_some_iff.mp hv
    obtain ⟨raB, h3, h4⟩ := Option.bind_eq_some_iff.mp h2
    cases h4
    refine instDone_operands hi hg rfl h1 (fun _ => id) fun hA => ?_
    obtain ⟨h5, h6, -⟩ := blockBoundary_spec env W _ hA h3
    exact ⟨h5, h6⟩
  case gbr tpc =>
    obtain ⟨raB, h1, h2⟩ := Option.bind_eq_some_iff.mp hv
    cases h2
    exact instDone_bare hi hg rfl (List.length_eq_zero_iff.mp hlen) (fun _ => False.elim)
      (regionBoundary_spec hi h1)
  case gbrind =>
    obtain ⟨⟨raA, insA⟩, h1, h2⟩ := Option.bind_eq_some_iff.mp hv
    obtain ⟨raB, h3, h4⟩ := Option.bind_eq_some_iff.mp h2
    cases h4
    exact instDone_operands hi hg rfl h1 (fun _ => False.elim)
      fun hA => regionBoundary_spec hA h3
  case hcall stub =>
    obtain ⟨raC, h1, h2⟩ := Option.bind_eq_some_iff.mp hv
    cases h2
    obtain ⟨-, hhome, -⟩ := callOp_spec env W (fun _ => False) hi h1
    obtain ⟨h3, h4⟩ := replaces_hcall hi hg rfl h1
    exact ⟨h3, fun _ => hhome, h4⟩
  all_goals
    -- the operations that stay in their block
    obtain ⟨h1, h2⟩ := replaces_allocOp env hi hg rfl rfl hv
    exact ⟨h1, Bool.noConfusion, h2⟩

end QRegAlloc

end Rv32jit.Qcg
