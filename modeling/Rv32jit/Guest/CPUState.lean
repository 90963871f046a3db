/-
# The CPU state of the guest

`rv32_cpu.h`: the layout of `CPUState` that the two engines share.  The general-purpose
registers come first, then the instruction pointer and the trap code.  The translator's table
of global registers has `x1` to `x31` and, last, the instruction pointer; `x0` has no entry.
-/
import Rv32jit.Lib.ByteMem
import Rv32jit.Ir.Qir

namespace Rv32jit

/-- `TrapCode`. -/
inductive TrapCode
  | NONE | UNALIGNED_IP | ILLEGAL_INSN | EBREAK | ECALL | TERMINATED
deriving DecidableEq, Repr

/-- The number of a trap. -/
def TrapCode.toBits : TrapCode → BitVec 32
  | NONE => 0
  | UNALIGNED_IP => 1
  | ILLEGAL_INSN => 2
  | EBREAK => 3
  | ECALL => 4
  | TERMINATED => 5

namespace CPUState

/-- `offsetof(CPUState, gpr) + 4 * i`. -/
def gprOffs (i : ℕ) : ℕ := 4 * i

/-- `offsetof(CPUState, ip)`. -/
def ipOffs : ℕ := 128

/-- `offsetof(CPUState, trapno)`. -/
def trapnoOffs : ℕ := 132

/-- Reads a guest register. -/
def gpr (cpu : ByteMem) (i : ℕ) : BitVec 32 := cpu.load (gprOffs i) 4

/-- Writes a guest register. -/
def setGpr (cpu : ByteMem) (i : ℕ) (v : BitVec 32) : ByteMem := cpu.store (gprOffs i) 4 v

/-- Reads the instruction pointer. -/
def ip (cpu : ByteMem) : BitVec 32 := cpu.load ipOffs 4

/-- Writes the instruction pointer. -/
def setIp (cpu : ByteMem) (v : BitVec 32) : ByteMem := cpu.store ipOffs 4 v

/-- Reads the pending trap. -/
def trapno (cpu : ByteMem) : BitVec 32 := cpu.load trapnoOffs 4

/-- Writes the pending trap. -/
def setTrapno (cpu : ByteMem) (t : TrapCode) : ByteMem := cpu.store trapnoOffs 4 t.toBits

lemma load_store_word (cpu : ByteMem) (a : ℕ) (v : BitVec 32) :
    (cpu.store a 4 v).load a 4 = v := by
  rw [ByteMem.load_store, ByteMem.lowBytes_of_le (by norm_num)]

@[simp] lemma gpr_setGpr_same (cpu : ByteMem) (i : ℕ) (v : BitVec 32) :
    gpr (setGpr cpu i v) i = v := load_store_word cpu _ v

lemma gpr_setGpr_of_ne (cpu : ByteMem) {i j : ℕ} (h : j ≠ i) (v : BitVec 32) :
    gpr (setGpr cpu i v) j = gpr cpu j :=
  ByteMem.load_store_disjoint _ _ (by simp only [gprOffs]; omega)

lemma gpr_setGpr (cpu : ByteMem) (i j : ℕ) (v : BitVec 32) :
    gpr (setGpr cpu i v) j = if j = i then v else gpr cpu j := by
  split
  · rename_i h
    rw [h, gpr_setGpr_same]
  · rename_i h
    exact gpr_setGpr_of_ne cpu h v

lemma gpr_setIp (cpu : ByteMem) {i : ℕ} (h : i < 32) (v : BitVec 32) :
    gpr (setIp cpu v) i = gpr cpu i :=
  ByteMem.load_store_disjoint _ _ (by simp only [gprOffs, ipOffs]; omega)

lemma gpr_setTrapno (cpu : ByteMem) {i : ℕ} (h : i < 32) (t : TrapCode) :
    gpr (setTrapno cpu t) i = gpr cpu i :=
  ByteMem.load_store_disjoint _ _ (by simp only [gprOffs, trapnoOffs]; omega)

@[simp] lemma ip_setIp (cpu : ByteMem) (v : BitVec 32) : ip (setIp cpu v) = v :=
  load_store_word cpu _ v

lemma setIp_setIp (cpu : ByteMem) (u v : BitVec 32) : setIp (setIp cpu u) v = setIp cpu v :=
  ByteMem.store_store _ _ _ _ _

lemma ip_setGpr (cpu : ByteMem) {i : ℕ} (h : i < 32) (v : BitVec 32) :
    ip (setGpr cpu i v) = ip cpu :=
  ByteMem.load_store_disjoint _ _ (by simp only [gprOffs, ipOffs]; omega)

/-- Assigning a register and then zero to `x0`. -/
lemma setGpr_setGpr_zero {cpu : ByteMem} (h0 : gpr cpu 0 = 0) (i : ℕ) (v : BitVec 32) :
    setGpr (setGpr cpu i v) 0 0 = if i = 0 then cpu else setGpr cpu i v := by
  have hsame : ∀ m : ByteMem, gpr m 0 = 0 → setGpr m 0 0 = m := by
    intro m hm
    rw [← hm]
    exact ByteMem.store_load_same (by norm_num) m _
  split
  · rename_i hi
    subst hi
    rw [setGpr, setGpr, ByteMem.store_store]
    exact hsame cpu h0
  · rename_i hi
    refine hsame _ ?_
    rw [gpr_setGpr_of_ne cpu (Ne.symm hi), h0]

/-! ### CPU states that differ in the instruction pointer only -/

/-- The two CPU states agree on every byte outside the instruction pointer. -/
def EqOffIp (cpu cpu' : ByteMem) : Prop := ∀ x, x < ipOffs ∨ ipOffs + 4 ≤ x → cpu' x = cpu x

namespace EqOffIp

variable {cpu cpu' cpu'' : ByteMem}

lemma refl (cpu : ByteMem) : EqOffIp cpu cpu := fun _ _ => rfl

lemma trans (h : EqOffIp cpu cpu') (h' : EqOffIp cpu' cpu'') : EqOffIp cpu cpu'' :=
  fun x hx => (h' x hx).trans (h x hx)

lemma symm (h : EqOffIp cpu cpu') : EqOffIp cpu' cpu := fun x hx => (h x hx).symm

lemma gpr (h : EqOffIp cpu cpu') {i : ℕ} (hi : i < 32) : gpr cpu' i = gpr cpu i :=
  ByteMem.load_congr fun x _ hx => h x (Or.inl (by simp only [gprOffs, ipOffs] at *; omega))

lemma trapno (h : EqOffIp cpu cpu') : trapno cpu' = trapno cpu :=
  ByteMem.load_congr fun x hx _ => h x (Or.inr (by simp only [trapnoOffs, ipOffs] at *; omega))

lemma setIp_right (h : EqOffIp cpu cpu') (v : BitVec 32) : EqOffIp cpu (setIp cpu' v) := by
  intro x hx
  rw [← h x hx]
  exact ByteMem.store_apply_of_notMem v hx

lemma setIp_left (h : EqOffIp cpu cpu') (v : BitVec 32) : EqOffIp (setIp cpu v) cpu' :=
  (h.symm.setIp_right v).symm

lemma setGpr (h : EqOffIp cpu cpu') (i : ℕ) (v : BitVec 32) :
    EqOffIp (setGpr cpu i v) (setGpr cpu' i v) := by
  intro x hx
  simp only [CPUState.setGpr, ByteMem.store]
  split
  · rfl
  · exact h x hx

/-- Once the instruction pointer is set, nothing is left to differ. -/
lemma setIp_eq (h : EqOffIp cpu cpu') (v : BitVec 32) : setIp cpu' v = setIp cpu v := by
  funext x
  simp only [setIp, ByteMem.store]
  split
  · rfl
  · exact h x (by omega)

end EqOffIp

/-! ### The table of global registers -/

open Qir

/-- `RV32Translator::GetStateInfo`. -/
def stateInfo : StateInfo where
  regs := (List.range 31).map (fun k => ⟨gprOffs (k + 1), .I32⟩) ++ [⟨ipOffs, .I32⟩]
  apart := by decide

lemma length_stateInfo : stateInfo.regs.length = 32 := rfl

/-- The home of `x1` to `x31`. -/
lemma stateInfo_gpr {i : ℕ} (h0 : i ≠ 0) (h : i < 32) :
    stateInfo.regs[i - 1]? = some ⟨gprOffs i, .I32⟩ := by
  rw [stateInfo, List.getElem?_append_left (by simp; omega), List.getElem?_map,
    List.getElem?_range (by omega)]
  simp only [Option.map_some, show i - 1 + 1 = i by omega]

end CPUState

end Rv32jit
