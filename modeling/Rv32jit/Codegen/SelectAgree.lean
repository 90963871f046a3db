/-
# States that agree but for temporaries

The selection of operands adds local registers to a region.  The states of the two codes agree
on everything but the registers from a number `n` on, and an instruction that names none of
these does the same in both.
-/
import Rv32jit.Ir.Semantics
import Rv32jit.Codegen.Select

namespace Rv32jit.Qcg

open Qir

/-- Two states that agree on everything but the virtual registers from `n` on. -/
structure Agree (n : ℕ) (s s' : QState) : Prop where
  vreg : ∀ v < n, s'.vreg v = s.vreg v
  preg : s'.preg = s.preg
  frame : s'.frame = s.frame
  cpu : s'.cpu = s.cpu
  mem : s'.mem = s.mem

/-- The operand names no virtual register from `n` on. -/
def Below (n : ℕ) : VOperand → Prop
  | .vgpr _ v => v < n
  | _ => True

lemma Below.mono {n m : ℕ} (h : n ≤ m) {o : VOperand} (ho : Below n o) : Below m o := by
  cases o <;> first | trivial | exact Nat.lt_of_lt_of_le ho h

variable {env : HelperEnv} {vi vi' : VRegsInfo} {n : ℕ} {s s' s'' : QState}

namespace Agree

lemma refl (n : ℕ) (s : QState) : Agree n s s := ⟨fun _ _ => rfl, rfl, rfl, rfl, rfl⟩

lemma trans (h : Agree n s s') (h' : Agree n s' s'') : Agree n s s'' :=
  ⟨fun v hv => (h'.vreg v hv).trans (h.vreg v hv), h'.preg.trans h.preg, h'.frame.trans h.frame,
    h'.cpu.trans h.cpu, h'.mem.trans h.mem⟩

lemma withMem (h : Agree n s s') (m : ByteMem) :
    Agree n { s with mem := m } { s' with mem := m } :=
  ⟨h.vreg, h.preg, h.frame, h.cpu, rfl⟩

lemma readOpr (h : Agree n s s') {o : VOperand} (ho : Below n o) :
    readOpr vi s' o = readOpr vi s o := by
  cases o with
  | vgpr t v => cases hg : vi.getGlobalInfo v <;> simp [Qir.readOpr, hg, h.cpu, h.vreg v ho]
  | slot g t k => cases g <;> simp [Qir.readOpr, h.cpu, h.frame]
  | pgpr t p => simp [Qir.readOpr, h.preg]
  | _ => rfl

lemma writeOpr (h : Agree n s s') (o : VOperand) (x : BitVec 32) :
    Agree n (writeOpr vi s o x) (writeOpr vi s' o x) := by
  cases o with
  | vgpr t v =>
    cases hg : vi.getGlobalInfo v with
    | some g => exact ⟨by simpa [Qir.writeOpr, hg] using h.vreg, by simp [Qir.writeOpr, hg, h.preg],
        by simp [Qir.writeOpr, hg, h.frame], by simp [Qir.writeOpr, hg, h.cpu],
        by simp [Qir.writeOpr, hg, h.mem]⟩
    | none =>
      refine ⟨fun w hw => ?_, by simp [Qir.writeOpr, hg, h.preg],
        by simp [Qir.writeOpr, hg, h.frame],
        by simp [Qir.writeOpr, hg, h.cpu], by simp [Qir.writeOpr, hg, h.mem]⟩
      by_cases hwv : w = v
      · subst hwv; simp [Qir.writeOpr, hg, h.vreg w hw]
      · simp [Qir.writeOpr, hg, hwv, h.vreg w hw]
  | slot g t k =>
    cases g
    · exact ⟨h.vreg, h.preg, by simp [Qir.writeOpr, h.frame], h.cpu, h.mem⟩
    · exact ⟨h.vreg, h.preg, h.frame, by simp [Qir.writeOpr, h.cpu], h.mem⟩
  | pgpr t p => exact ⟨h.vreg, by simp [Qir.writeOpr, h.preg], h.frame, h.cpu, h.mem⟩
  | _ => exact h

lemma writeOuts (h : Agree n s s') (os : List VOperand) (xs : List (BitVec 32)) :
    Agree n (writeOuts vi s os xs) (writeOuts vi s' os xs) := by
  induction os generalizing xs s s' with
  | nil => cases xs <;> exact h
  | cons o os ih =>
    cases xs with
    | nil => exact h
    | cons x xs => exact ih (h.writeOpr o x) xs

/-- Writing a temporary. -/
lemma writeTemp (h : Agree n s s') {v : ℕ} (hv : n ≤ v) (hg : vi.getGlobalInfo v = none)
    (t : VType) (x : BitVec 32) : Agree n s (Qir.writeOpr vi s' (.vgpr t v) x) := by
  refine ⟨fun w hw => ?_, by simp [Qir.writeOpr, hg, h.preg], by simp [Qir.writeOpr, hg, h.frame],
    by simp [Qir.writeOpr, hg, h.cpu], by simp [Qir.writeOpr, hg, h.mem]⟩
  have hne : w ≠ v := by omega
  simp [Qir.writeOpr, hg, hne, h.vreg w hw]

end Agree

/-- Writing a register that is about to be written at the same type. -/
lemma writeOpr_writeOpr (s : QState) (t : VType) (d : ℕ) (x y : BitVec 32) :
    writeOpr vi (writeOpr vi s (.vgpr t d) y) (.vgpr t d) x = writeOpr vi s (.vgpr t d) x := by
  cases hg : vi.getGlobalInfo d with
  | some g => simp [writeOpr, hg, ByteMem.store_store]
  | none => simp [writeOpr, hg, ByteMem.setLow_setLow]

lemma readOpr_writeOpr_same (s : QState) (t : VType) (d : ℕ) (x : BitVec 32) :
    readOpr vi (writeOpr vi s (.vgpr t d) x) (.vgpr t d) = ByteMem.lowBytes t.toSize x := by
  cases hg : vi.getGlobalInfo d with
  | some g => simp [readOpr, writeOpr, hg]
  | none => simp [readOpr, writeOpr, hg, ByteMem.lowBytes_setLow]

/-- What was read at a type fits in that type. -/
lemma lowBytes_readOpr (s : QState) {o : VOperand} {k : ℕ} (h : o.getType.toSize ≤ k) :
    ByteMem.lowBytes k (readOpr vi s o) = readOpr vi s o := by
  cases o with
  | vgpr t v =>
    simp only [VOperand.getType] at h
    cases hg : vi.getGlobalInfo v <;> simp [readOpr, hg, ByteMem.lowBytes_load, h]
  | slot g t o =>
    simp only [VOperand.getType] at h
    cases g <;> simp [readOpr, ByteMem.lowBytes_load, h]
  | const t c | pgpr t c =>
    simp only [VOperand.getType] at h
    simp [readOpr, h]
  | bad => simp [readOpr, ByteMem.lowBytes]

/-! ### The meaning of code does not depend on the local registers of the region -/

lemma readOpr_congr (h : vi'.globInfo = vi.globInfo) (s : QState) (o : VOperand) :
    readOpr vi' s o = readOpr vi s o := by
  cases o <;> simp [readOpr, VRegsInfo.getGlobalInfo, h]

lemma writeOpr_congr (h : vi'.globInfo = vi.globInfo) (s : QState) (o : VOperand)
    (x : BitVec 32) : writeOpr vi' s o x = writeOpr vi s o x := by
  cases o <;> simp [writeOpr, VRegsInfo.getGlobalInfo, h]

lemma exec_congr (h : vi'.globInfo = vi.globInfo) (ins : Inst) (s : QState) :
    exec env vi' ins s = exec env vi ins s := by
  have hr : readOpr vi' = readOpr vi := by
    funext s o
    exact readOpr_congr h s o
  have hw : writeOuts vi' = writeOuts vi := by
    funext s os xs
    induction os generalizing xs s with
    | nil => cases xs <;> rfl
    | cons o os ih =>
      cases xs with
      | nil => rfl
      | cons x xs => simp only [writeOuts, writeOpr_congr h, ih]
  simp only [exec, hr, hw]

lemma execList_congr (h : vi'.globInfo = vi.globInfo) (l : List Inst) (s : QState) :
    execList env vi' l s = execList env vi l s := by
  induction l generalizing s with
  | nil => rfl
  | cons ins l ih => simp only [execList, exec_congr h, ih]

variable (env vi) in
/-- An instruction on registers below `n`. -/
lemma exec_agree {ins : Inst} (hb : ∀ o ∈ ins.i, Below n o) (h : Agree n s s') :
    (exec env vi ins s').1 = (exec env vi ins s).1 ∧
      (exec env vi ins s').2.1 = (exec env vi ins s).2.1 ∧
      Agree n (exec env vi ins s).2.2 (exec env vi ins s').2.2 := by
  have hvals : ins.i.map (readOpr vi s') = ins.i.map (readOpr vi s) :=
    List.map_congr_left fun o ho => h.readOpr (hb o ho)
  by_cases hl : ins.legal = true
  · cases hop : ins.op with
    | hcall stub =>
      simp only [exec, hl, if_true, hop, hvals, h.cpu, h.mem, h.preg, true_and]
      exact ⟨h.vreg, rfl, h.frame, rfl, rfl⟩
    | _ =>
      rw [exec_eq_eval (by simp [hop]) hl, exec_eq_eval (by simp [hop]) hl, hvals, h.mem]
      exact ⟨by rw [h.cpu], rfl, (h.withMem _).writeOuts _ _⟩
  · rw [exec_illegal (by simpa using hl), exec_illegal (by simpa using hl)]
    exact ⟨rfl, rfl, h⟩

end Rv32jit.Qcg
