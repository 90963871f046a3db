/-
# The target machine's registers and operand constraints

`arch_traits.h` and `arch_traits.cpp`: the register masks, the table of operand constraints of
each opcode, and the order in which the allocator visits the operands.
-/
import Rv32jit.Ir.Qir

namespace Rv32jit.Qcg

open Qir

/-! ### Register masks -/

/-- A set of physical registers. -/
structure RegMask where
  data : BitVec 32
deriving DecidableEq, Repr

namespace RegMask

/-- `Test`: the register is in the set. -/
def test (m : RegMask) (r : ℕ) : Bool := m.data.getLsbD r

/-- `Set`: adds a register. -/
def set (m : RegMask) (r : ℕ) : RegMask := ⟨m.data ||| (1#32 <<< r)⟩

/-- `Count`: the number of registers in the set. -/
def count (m : RegMask) : ℕ := (List.range 32).countP m.test

/-- `operator&`. -/
def inter (m n : RegMask) : RegMask := ⟨m.data &&& n.data⟩

/-- `operator~`. -/
def compl (m : RegMask) : RegMask := ⟨~~~m.data⟩

lemma test_set {m : RegMask} {r p : ℕ} (hr : r < 32) :
    (m.set r).test p = (decide (p = r) || m.test p) := by
  simp only [test, set, BitVec.getLsbD_or, BitVec.getLsbD_shiftLeft, BitVec.getLsbD_one]
  by_cases hp : p < 32
  · by_cases h : p = r
    · subst h; simp [hp]
    · have : ¬ (¬ p < r ∧ p - r = 0) := by omega
      simp only [hp, h]
      by_cases h1 : p < r
      · simp [h1]
      · simp [h1, show p - r ≠ 0 by omega]
  · simp [hp, BitVec.getLsbD_of_ge m.data p (by omega), show p ≠ r by omega]

lemma test_inter_compl (m n : RegMask) {p : ℕ} (hp : p < 32) :
    (m.inter n.compl).test p = (m.test p && !n.test p) := by
  simp [test, inter, compl, hp]

end RegMask

namespace ArchTraits

/-- The number of general purpose registers of the host. -/
def GPR_NUM : ℕ := 16

/-- `Core::RAX`, and the other host registers by their numbers. -/
def RAX : ℕ := 0

/-- The register `rcx`, which holds the count of a shift. -/
def RCX : ℕ := 1

/-- The register `rdx`. -/
def RDX : ℕ := 2

/-- The register `rbx`. -/
def RBX : ℕ := 3

/-- The stack pointer `rsp`. -/
def RSP : ℕ := 4

/-- The register `rbp`. -/
def RBP : ℕ := 5

/-- The register `rsi`, which passes the second argument of a call. -/
def RSI : ℕ := 6

/-- The register `rdi`, which passes the first argument of a call. -/
def RDI : ℕ := 7

/-- The register `r8`. -/
def R8 : ℕ := 8

/-- The register `r9`. -/
def R9 : ℕ := 9

/-- The register `r10`. -/
def R10 : ℕ := 10

/-- The register `r11`. -/
def R11 : ℕ := 11

/-- The register `r12`. -/
def R12 : ℕ := 12

/-- The register `r13`. -/
def R13 : ℕ := 13

/-- The register `r14`. -/
def R14 : ℕ := 14

/-- The register `r15`. -/
def R15 : ℕ := 15

/-- The register that points to the CPU state. -/
def STATE : ℕ := R13

/-- The register that holds the base of the guest memory. -/
def MEMBASE : ℕ := RBP

/-- The register that points to the spill frame. -/
def SP : ℕ := RSP

/-- The registers with a fixed use, which the allocator never hands out. -/
def GPR_FIXED : RegMask := (((RegMask.mk 0).set STATE).set MEMBASE).set SP

/-- The registers that a call does not preserve. -/
def GPR_CALL_CLOBBER : RegMask :=
  (((((((((RegMask.mk 0).set RAX).set RDI).set RSI).set RDX).set RCX).set R8).set R9).set R10).set
    R11

/-- All general purpose registers. -/
def GPR_ALL : RegMask := ⟨(1#32 <<< GPR_NUM) - 1⟩

/-- The size of the spill frame that the trampoline reserves. -/
def spillframe_size : ℕ := 1024

end ArchTraits

open ArchTraits

/-! ### Operand constraints -/

/-- `RACtImm`, the flags of the constants that an operand admits. -/
structure RACtImm where
  any : Bool := false
  s32 : Bool := false
  u32 : Bool := false
deriving DecidableEq, Repr

namespace RACtImm
/-- No constant. -/
def NO : RACtImm := {}

/-- Any constant. -/
def ANY : RACtImm := { any := true }

/-- The constants that survive a sign extension from 32 bits. -/
def S32 : RACtImm := { s32 := true }

/-- The constants that survive a zero extension from 32 bits. -/
def U32 : RACtImm := { u32 := true }
end RACtImm

/-- `RAOpCt`: the registers and the constants that an operand admits, and the operand that it is
tied to. -/
structure RAOpCt where
  cr : RegMask := ⟨0⟩
  ci : RACtImm := .NO
  hasAlias : Bool := false
  aliasIdx : ℕ := 0
deriving DecidableEq, Repr

/-- `SetAlias`: ties the operand to operand `a`. -/
def RAOpCt.setAlias (ct : RAOpCt) (a : ℕ) : RAOpCt := { ct with hasAlias := true, aliasIdx := a }

/-- `RACtDefOrAlias`. -/
inductive RACtDef
  | gpr (cr : RegMask) (ci : RACtImm)
  | tied (a : ℕ)
deriving DecidableEq, Repr

/-- `InstCt`: the constraints of all operands, outputs first, and the orders in which outputs
and inputs are visited. -/
structure InstCt where
  ct : List RAOpCt
  orderOut : List ℕ
  orderIn : List ℕ
deriving DecidableEq, Repr

namespace InstCt

/-- The step of `Make` for input `iidx`: an alias takes over the constraint of its output, and
the two are tied to each other. -/
def addInput (ct : List RAOpCt) (idef : RACtDef) : List RAOpCt :=
  match idef with
  | .gpr cr ci => ct ++ [{ cr := cr, ci := ci }]
  | .tied a => (ct ++ [(ct.getD a {}).setAlias a]).modify a (·.setAlias ct.length)

/-- `order_ct`: indices by increasing number of admissible registers. -/
def orderCt (ct : List RAOpCt) : List ℕ :=
  (List.range ct.length).insertionSort fun i j => (ct.getD i {}).cr.count ≤ (ct.getD j {}).cr.count

/-- `InstCt::Make`. -/
def make (odefs : List RegMask) (idefs : List RACtDef) : InstCt :=
  let ct := idefs.foldl addInput (odefs.map fun cr => { cr := cr })
  { ct := ct
    orderOut := orderCt (ct.take odefs.length)
    orderIn := orderCt (ct.drop odefs.length) }

end InstCt

namespace RACtGPR
/-- Any register. -/
def R : RegMask := GPR_ALL

/-- Any register with a byte part, which is every one of them. -/
def R8 : RegMask := GPR_ALL

/-- The register of shift counts. -/
def CX : RegMask := (RegMask.mk 0).set RCX

/-- The second argument register. -/
def SI : RegMask := (RegMask.mk 0).set RSI
end RACtGPR

section
open RACtGPR RACtImm

/-- Two inputs, the second a signed constant or a register. -/
def CT_INFO_r_rs32 : InstCt := .make [] [.gpr R NO, .gpr R S32]

/-- One input in `rsi`. -/
def CT_INFO_si : InstCt := .make [] [.gpr SI NO]

/-- One output, and an input that is an unsigned constant or a register. -/
def CT_INFO_r_ru32 : InstCt := .make [R] [.gpr R U32]

/-- One output, and an input that is any constant or a register. -/
def CT_INFO_r_ri : InstCt := .make [R] [.gpr R ANY]

/-- Two inputs, the first any constant or a register. -/
def CT_INFO_ri_r : InstCt := .make [] [.gpr R ANY, .gpr R NO]

/-- A byte output, and two inputs of which the second may be a signed constant. -/
def CT_INFO_r8_r_rs32 : InstCt := .make [RACtGPR.R8] [.gpr R NO, .gpr R S32]

/-- The output is the first input; the second may be a signed constant. -/
def CT_INFO_r_0_rs32 : InstCt := .make [R] [.tied 0, .gpr R S32]

/-- The output is the first input; the second may be an unsigned constant. -/
def CT_INFO_r_0_ru32 : InstCt := .make [R] [.tied 0, .gpr R U32]

/-- The output is the first input; the second is any constant or in `rcx`. -/
def CT_INFO_r_0_cxi : InstCt := .make [R] [.tied 0, .gpr CX ANY]

end

/-- `ARCH_OP_CT_LIST`: the opcodes without an entry have no `ra_ct`. -/
def opCt : Op → Option InstCt
  | .brcc _ => some CT_INFO_r_rs32
  | .gbrind => some CT_INFO_si
  | .vmload _ _ => some CT_INFO_r_ru32
  | .vmstore _ _ => some CT_INFO_ri_r
  | .setcc _ => some CT_INFO_r8_r_rs32
  | .mov => some CT_INFO_r_ri
  | .add => some CT_INFO_r_0_rs32
  | .sub => some CT_INFO_r_0_rs32
  | .and => some CT_INFO_r_0_ru32
  | .or => some CT_INFO_r_0_rs32
  | .xor => some CT_INFO_r_0_rs32
  | .sra => some CT_INFO_r_0_cxi
  | .srl => some CT_INFO_r_0_cxi
  | .sll => some CT_INFO_r_0_cxi
  | .hcall _ | .br | .gbr _ => none

/-- `match_gp_const` on the `i64` that a `u32` constant becomes. -/
def matchGpConst (val : ℤ) (ct : RACtImm) : Bool :=
  ct.any || (ct.u32 && ((BitVec.ofInt 32 val).toNat : ℤ) == val) ||
    (ct.s32 && (BitVec.ofInt 32 val).toInt == val)

/-! ### Facts about the table -/

/-- The loops of the allocator visit every operand exactly once. -/
lemma order_perm {op : Op} {c : InstCt} (h : opCt op = some c) :
    c.orderOut.Perm (List.range op.nOut) ∧ c.orderIn.Perm (List.range op.nIn) := by
  cases op <;> simp only [opCt, Option.some.injEq, reduceCtorEq] at h <;> subst h <;>
    simp only [Op.nOut, Op.nIn] <;> decide

example : CT_INFO_r_0_cxi.orderIn = [1, 0] := by decide

/-- The constraint of operand `k`, outputs first. -/
def ctOf (c : InstCt) (k : ℕ) : RAOpCt := c.ct.getD k {}

/-- The operand constraints that the selection of operands establishes. -/
def Selected (ins : Inst) : Prop :=
  ∀ c, opCt ins.op = some c → ∀ k < ins.op.nIn,
    ((ctOf c (ins.op.nOut + k)).hasAlias = true → ∃ t t' v, ins.i[k]? = some (.vgpr t' v) ∧
      ins.o[(ctOf c (ins.op.nOut + k)).aliasIdx]? = some (.vgpr t v)) ∧
    ∀ t (val : BitVec 32), ins.i[k]? = some (.const t val) →
      matchGpConst val.toNat (ctOf c (ins.op.nOut + k)).ci = true

lemma selected_of_opCt_none {ins : Inst} (h : opCt ins.op = none) : Selected ins := by
  intro c hc
  rw [h] at hc
  cases hc

lemma selected_mkMov (d o : VOperand) : Selected (.mkMov d o) := by
  intro c hc k hk
  obtain rfl : k = 0 := by simpa [Inst.mkMov, Op.nIn] using hk
  cases hc
  have hfree : (ctOf CT_INFO_r_ri 1).hasAlias = false := by decide
  exact ⟨fun h => absurd (hfree.symm.trans h) (by decide), fun t val _ => rfl⟩

/-- A tied output is tied to the first input, which may be in any register. -/
lemma tied_output {op : Op} {c : InstCt} (h : opCt op = some c) (ho : 0 < op.nOut)
    (ha : (ctOf c 0).hasAlias = true) :
    op.nOut = 1 ∧ 0 < op.nIn ∧ (ctOf c 1).hasAlias = true ∧ (ctOf c 1).aliasIdx = 0 ∧
      (ctOf c 1).cr = GPR_ALL := by
  cases op <;> simp only [opCt, Option.some.injEq, reduceCtorEq] at h <;> subst h <;>
    simp only [Op.nOut, Op.nIn] at ho ⊢ <;> revert ho ha <;> decide

end Rv32jit.Qcg
