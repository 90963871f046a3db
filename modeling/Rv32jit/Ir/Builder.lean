/-
# The builder and its constant folder

`qir_builder.h` and `qir_opt.cpp`.  Every instruction that the builder creates goes through the
folder at once; the folder may swap the inputs of an addition or put a move in its place.
-/
import Rv32jit.Ir.Semantics

namespace Rv32jit.Qir

/-- `FolderVisitor::visit_add` on the operands of an addition: the instruction that is left. -/
def foldAdd (vd vs0 vs1 : VOperand) : Inst :=
  match vs0, vs1 with
  | .const _ c0, .const _ c1 => .mkMov vd (.const .I32 (c0 + c1))
  | .const t0 c0, vs1 =>
      -- swapped
      if c0 = 0 then .mkMov vd vs1 else .mkAdd vd vs1 (.const t0 c0)
  | vs0, .const t1 c1 => if c1 = 0 then .mkMov vd vs0 else .mkAdd vd vs0 (.const t1 c1)
  | vs0, vs1 => .mkAdd vd vs0 vs1

/-- `ApplyFolder`. -/
def applyFolder (ins : Inst) : Inst :=
  match ins.op, ins.o, ins.i with
  | .add, [vd], [vs0, vs1] => foldAdd vd vs0 vs1
  | _, _, _ => ins

/-- `Builder::Create` at the end of block `bb`. -/
def Region.create (r : Region) (bb : ℕ) (ins : Inst) : Region :=
  r.modifyBlock bb fun blk => { blk with ilist := blk.ilist ++ [applyFolder ins] }

/-! ### The folder preserves meaning -/

@[simp] lemma applyFolder_mkAdd (vd vs0 vs1 : VOperand) :
    applyFolder (.mkAdd vd vs0 vs1) = foldAdd vd vs0 vs1 := rfl

/-- Only additions are folded. -/
lemma applyFolder_of_ne {ins : Inst} (h : ins.op ≠ .add) : applyFolder ins = ins := by
  rw [applyFolder]
  split
  · rename_i hop _ _
    exact absurd hop h
  · rfl

section
variable {env : HelperEnv} {vi : VRegsInfo}

lemma exec_mkAdd {d a b : VOperand} (hd : d.isWritable = true) (ha : a.isReadable = true)
    (hb : b.isReadable = true) (s : QState) :
    exec env vi (.mkAdd d a b) s =
      ([], .next, writeOpr vi s d (readOpr vi s a + readOpr vi s b)) := by
  simp [exec, Inst.legal, Inst.mkAdd, hd, ha, hb, Op.eval, writeOuts]

/-- The operands of a folded addition. -/
lemma legal_foldAdd {d a b : VOperand} (hd : d.isWritable = true) (ha : a.isReadable = true)
    (hb : b.isReadable = true) : (foldAdd d a b).legal = true := by
  unfold foldAdd
  split <;> (try split) <;> simp_all [Inst.legal, Inst.mkAdd, Inst.mkMov, VOperand.isReadable]

lemma readOpr_const_I32 (s : QState) (c : BitVec 32) : readOpr vi s (.const .I32 c) = c :=
  ByteMem.lowBytes_of_le (by decide) c

/-- A folded addition on 32-bit operands does what the addition does. -/
lemma exec_foldAdd {d a b : VOperand} (hd : d.isWritable = true) (ha : a.isReadable = true)
    (hb : b.isReadable = true) (hca : ∀ t c, a = .const t c → t = .I32)
    (hcb : ∀ t c, b = .const t c → t = .I32) (s : QState) :
    exec env vi (foldAdd d a b) s =
      ([], .next, writeOpr vi s d (readOpr vi s a + readOpr vi s b)) := by
  unfold foldAdd
  split
  · obtain rfl := hca _ _ rfl
    obtain rfl := hcb _ _ rfl
    rw [exec_mkMov hd rfl]
    simp only [readOpr_const_I32]
  · obtain rfl := hca _ _ rfl
    split
    · rename_i h
      simp [exec_mkMov hd hb, h, readOpr_const_I32]
    · rw [exec_mkAdd hd hb rfl, BitVec.add_comm]
  · obtain rfl := hcb _ _ rfl
    split
    · rename_i h
      simp [exec_mkMov hd ha, h, readOpr_const_I32]
    · exact exec_mkAdd hd ha rfl s
  · exact exec_mkAdd hd ha hb s

end

end Rv32jit.Qir
