/-
# The folder on whole regions

A region that is built through the folder against one that is built without it: from every block
and every state both do the same, and in the first one no addition is left whose first operand is
a constant or whose second one is the constant zero.
-/
import Rv32jit.Ir.Builder

namespace Rv32jit.Qir

/-- The constants of an addition have the type of the sum. -/
def WideConsts (ins : Inst) : Prop := ins.op = .add → ∀ t c, .const t c ∈ ins.i → t = .I32

/-- There is nothing to fold. -/
def Folded (ins : Inst) : Prop :=
  ins.op = .add → ∀ vd vs0 vs1, ins.o = [vd] → ins.i = [vs0, vs1] →
    (∀ t c, vs0 ≠ .const t c) ∧ ∀ t c, vs1 = .const t c → c ≠ 0

/-! ### One instruction -/

variable {env : HelperEnv} {vi : VRegsInfo} {ins : Inst} {vd vs0 vs1 : VOperand} {s : QState}

/-- The folder sees additions of two operands, and no others. -/
lemma applyFolder_cases (ins : Inst) :
    applyFolder ins = ins ∧ (∀ vd vs0 vs1, ins ≠ .mkAdd vd vs0 vs1) ∨
      ∃ vd vs0 vs1, ins = .mkAdd vd vs0 vs1 ∧ applyFolder ins = foldAdd vd vs0 vs1 := by
  obtain ⟨op, o, i⟩ := ins
  rw [applyFolder]
  split
  · rename_i vd vs0 vs1 hop ho hi
    obtain rfl : op = .add := hop
    obtain rfl : o = [vd] := ho
    obtain rfl : i = [vs0, vs1] := hi
    exact Or.inr ⟨vd, vs0, vs1, rfl, rfl⟩
  · rename_i hne
    refine Or.inl ⟨rfl, fun vd vs0 vs1 h => ?_⟩
    cases h
    exact hne vd vs0 vs1 rfl rfl rfl

lemma legal_foldAdd_eq (vd vs0 vs1 : VOperand) :
    (foldAdd vd vs0 vs1).legal = (Inst.mkAdd vd vs0 vs1).legal := by
  unfold foldAdd
  split
  · rfl
  · split <;> simp [Inst.legal, Inst.mkAdd, Inst.mkMov, VOperand.isReadable]
  · split <;> simp [Inst.legal, Inst.mkAdd, Inst.mkMov, VOperand.isReadable]
  · rfl

/-- A folded instruction does what the instruction does, also where that is illegal. -/
lemma exec_applyFolder (h : WideConsts ins) (s : QState) :
    exec env vi (applyFolder ins) s = exec env vi ins s := by
  rcases applyFolder_cases ins with ⟨heq, -⟩ | ⟨vd, vs0, vs1, rfl, heq⟩
  · rw [heq]
  · rw [heq]
    have hconst : ∀ o ∈ [vs0, vs1], ∀ t c, o = .const t c → t = .I32 := by
      rintro o ho t c rfl
      exact h rfl t c ho
    cases hl : (Inst.mkAdd vd vs0 vs1).legal with
    | false => rw [exec_illegal hl, exec_illegal (by rw [legal_foldAdd_eq, hl])]
    | true =>
      obtain ⟨⟨h0, h1⟩, hd⟩ : (vs0.isReadable = true ∧ vs1.isReadable = true) ∧
          vd.isWritable = true := by
        simpa [Inst.legal, Inst.mkAdd] using hl
      rw [exec_foldAdd hd h0 h1 (hconst vs0 (by simp)) (hconst vs1 (by simp)),
        exec_mkAdd hd h0 h1]

lemma folded_foldAdd (vd vs0 vs1 : VOperand) : Folded (foldAdd vd vs0 vs1) := by
  intro hop d a b ho hi
  unfold foldAdd at hop ho hi
  split at hop
  · cases hop
  · rename_i t0 c0 hne
    split at hop
    · cases hop
    · rename_i hc
      simp only [if_neg hc, Inst.mkAdd, List.cons.injEq, and_true] at hi
      obtain ⟨rfl, rfl⟩ := hi
      refine ⟨fun t c h => hne t c h, fun t c h => ?_⟩
      cases h
      exact hc
  · rename_i t1 c1 hne
    split at hop
    · cases hop
    · rename_i hc
      simp only [if_neg hc, Inst.mkAdd, List.cons.injEq, and_true] at hi
      obtain ⟨rfl, rfl⟩ := hi
      refine ⟨fun t c h => hne t c h, fun t c h => ?_⟩
      cases h
      exact hc
  · rename_i h0 h1 _
    simp only [Inst.mkAdd, List.cons.injEq, and_true] at hi
    obtain ⟨rfl, rfl⟩ := hi
    exact ⟨fun t c h => h0 t c h, fun t c h => absurd h (h1 t c)⟩

lemma folded_applyFolder (ins : Inst) : Folded (applyFolder ins) := by
  rcases applyFolder_cases ins with ⟨heq, hne⟩ | ⟨vd, vs0, vs1, -, heq⟩
  · rw [heq]
    intro hop vd vs0 vs1 ho hi
    obtain ⟨op, o, i⟩ := ins
    obtain rfl : op = .add := hop
    obtain rfl : o = [vd] := ho
    obtain rfl : i = [vs0, vs1] := hi
    exact absurd rfl (hne vd vs0 vs1)
  · rw [heq]
    exact folded_foldAdd vd vs0 vs1

/-! ### Regions -/

/-- `Create` without the folder. -/
def Region.append (r : Region) (bb : ℕ) (ins : Inst) : Region :=
  r.modifyBlock bb fun blk => { blk with ilist := blk.ilist ++ [ins] }

/-- The instructions are created, each at the end of its block. -/
def Region.createAll (r : Region) (cs : List (ℕ × Inst)) : Region :=
  cs.foldl (fun r c => r.create c.1 c.2) r

/-- Appends the instructions to the blocks that they name. -/
def Region.appendAll (r : Region) (cs : List (ℕ × Inst)) : Region :=
  cs.foldl (fun r c => r.append c.1 c.2) r

/-- Instructions that do the same in the environment. -/
def SameExec (env : HelperEnv) (vi : VRegsInfo) (ins ins' : Inst) : Prop :=
  ∀ s, exec env vi ins s = exec env vi ins' s

lemma execList_sameExec {l l' : List Inst} (h : List.Forall₂ (SameExec env vi) l l') (s : QState) :
    execList env vi l s = execList env vi l' s := by
  induction h generalizing s with
  | nil => rfl
  | cons hins _ ih => simp only [execList, hins s, ih]

/-- Blocks that do the same. -/
structure SameBlock (env : HelperEnv) (vi : VRegsInfo) (blk blk' : Block) : Prop where
  succs : blk.succs = blk'.succs
  ilist : List.Forall₂ (SameExec env vi) blk.ilist blk'.ilist

/-- Regions that do the same. -/
structure SameRegion (env : HelperEnv) (r r' : Region) : Prop where
  vregsInfo : r.vregsInfo = r'.vregsInfo
  blist : List.Forall₂ (SameBlock env r.vregsInfo) r.blist r'.blist

/-- The same place changed in two lists. -/
lemma forall₂_modify {α β : Type*} {R : α → β → Prop} {f : α → α} {g : β → β} {l : List α}
    {l' : List β} (h : List.Forall₂ R l l') (hfg : ∀ a b, R a b → R (f a) (g b)) (n : ℕ) :
    List.Forall₂ R (l.modify n f) (l'.modify n g) := by
  induction h generalizing n with
  | nil => cases n <;> exact .nil
  | cons hab hl ih =>
    cases n with
    | zero => exact .cons (hfg _ _ hab) hl
    | succ n => exact .cons hab (ih n)

namespace SameRegion

variable {r r' : Region}

lemma refl (env : HelperEnv) (r : Region) : SameRegion env r r :=
  ⟨rfl, List.forall₂_same.mpr fun _ _ => ⟨rfl, List.forall₂_same.mpr fun _ _ _ => rfl⟩⟩

lemma execBlock (h : SameRegion env r r') (b : ℕ) (s : QState) :
    Qir.execBlock env r b s = Qir.execBlock env r' b s := by
  have hlen := h.blist.length_eq
  simp only [Qir.execBlock]
  by_cases hb : b < r.blist.length
  · have hblk := h.blist.get hb (hlen ▸ hb)
    simp only [List.get_eq_getElem] at hblk
    rw [List.getElem?_eq_getElem hb, List.getElem?_eq_getElem (hlen ▸ hb)]
    dsimp only
    rw [hblk.succs, ← h.vregsInfo, execList_sameExec hblk.ilist]
  · rw [List.getElem?_eq_none (by omega), List.getElem?_eq_none (by omega)]

lemma run (h : SameRegion env r r') (n b : ℕ) (s : QState) :
    Qir.run env r n b s = Qir.run env r' n b s := by
  induction n generalizing b s with
  | zero => rfl
  | succ n ih => simp only [Qir.run, h.execBlock, ih]

/-- The same instruction more, folded in one of them. -/
lemma create (h : SameRegion env r r') (bb : ℕ) {ins : Inst} (hins : WideConsts ins) :
    SameRegion env (r.create bb ins) (r'.append bb ins) := by
  refine ⟨h.vregsInfo, forall₂_modify h.blist ?_ bb⟩
  intro blk blk' hblk
  exact ⟨hblk.succs, List.rel_append hblk.ilist (.cons (exec_applyFolder hins) .nil)⟩

lemma createAll {cs : List (ℕ × Inst)} (h : SameRegion env r r')
    (hcs : ∀ c ∈ cs, WideConsts c.2) : SameRegion env (r.createAll cs) (r'.appendAll cs) := by
  induction cs generalizing r r' with
  | nil => exact h
  | cons c cs ih =>
    exact ih (h.create c.1 (hcs c List.mem_cons_self)) fun c' hc' =>
      hcs c' (List.mem_cons_of_mem _ hc')

end SameRegion

lemma folded_createAll {r : Region} {cs : List (ℕ × Inst)}
    (h : ∀ blk ∈ r.blist, ∀ ins ∈ blk.ilist, Folded ins) :
    ∀ blk ∈ (r.createAll cs).blist, ∀ ins ∈ blk.ilist, Folded ins := by
  induction cs generalizing r with
  | nil => exact h
  | cons c cs ih =>
    refine ih (r := r.create c.1 c.2) fun blk hblk ins hins => ?_
    obtain ⟨i, hi⟩ := List.mem_iff_getElem?.mp hblk
    rw [Region.create, Region.modifyBlock, List.getElem?_modify] at hi
    obtain ⟨blk₀, hblk₀, rfl⟩ := Option.map_eq_some_iff.mp hi
    have hmem := List.mem_of_getElem? hblk₀
    split at hins
    · rcases List.mem_append.mp hins with hins | hins
      · exact h _ hmem _ hins
      · rw [List.mem_singleton.mp hins]
        exact folded_applyFolder c.2
    · exact h _ hmem _ hins

/-- A region that is built further through the folder does, from every block and in every state,
what it does if it is built without it; and nothing is left to fold in what is added. -/
theorem run_folded (env : HelperEnv) (r : Region) (cs : List (ℕ × Inst))
    (hcs : ∀ c ∈ cs, WideConsts c.2) :
    (∀ n b s, run env (r.createAll cs) n b s = run env (r.appendAll cs) n b s) ∧
      ((∀ blk ∈ r.blist, ∀ ins ∈ blk.ilist, Folded ins) →
        ∀ blk ∈ (r.createAll cs).blist, ∀ ins ∈ blk.ilist, Folded ins) :=
  ⟨((SameRegion.refl env r).createAll hcs).run, folded_createAll⟩

/-- A region of one empty block. -/
def blankRegion : Region := ⟨[{}], ⟨⟨[], .nil⟩, [.I32, .I32]⟩⟩

/-- An address with offset zero, and a branch. -/
def addressInsts : List (ℕ × Inst) :=
  [(0, .mkAdd (.vgpr .I32 1) (.const .I32 0) (.vgpr .I32 0)), (0, .mkBr)]

theorem run_folded_address :
    (∀ n b s, run idleEnv (blankRegion.createAll addressInsts) n b s =
        run idleEnv (blankRegion.appendAll addressInsts) n b s) ∧
      ((∀ blk ∈ blankRegion.blist, ∀ ins ∈ blk.ilist, Folded ins) →
        ∀ blk ∈ (blankRegion.createAll addressInsts).blist, ∀ ins ∈ blk.ilist, Folded ins) := by
  refine run_folded _ _ _ fun c hc hop t k hk => ?_
  simp only [addressInsts, List.mem_cons, List.not_mem_nil, or_false] at hc
  rcases hc with rfl | rfl
  · simp only [Inst.mkAdd, List.mem_cons, List.not_mem_nil, or_false] at hk
    rcases hk with hk | hk <;> cases hk
    rfl
  · cases hop

end Rv32jit.Qir
