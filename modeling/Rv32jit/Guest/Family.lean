/-
# Families of opcodes

Most handlers are instances of a few macros, in the interpreter as in the translator.  A family
is such a macro with its arguments.  What is shown of an instruction is shown by family; the
two facts that depend on the single opcode are that both engines use the macros with the same
arguments and that they hand out the same flags.
-/
import Rv32jit.Guest.Interp
import Rv32jit.Guest.Translate

namespace Rv32jit

open Qir Insn CPUState

/-- An operation of the intermediate representation with two inputs and one output. -/
structure Binop where
  op : Qir.Op
  nOut : op.nOut = 1
  nIn : op.nIn = 2

namespace Binop

/-- The QIR instruction of a binary operation. -/
def inst (q : Binop) (d a b : VOperand) : Inst :=
  ⟨q.op, [d], [a, b], by simp [q.nOut], by simp [q.nIn]⟩

/-- The value that the operation computes. -/
def value (q : Binop) (a b : BitVec 32) : BitVec 32 :=
  (q.op.eval [a, b] fun _ => 0).outs.headD 0

lemma eval (q : Binop) (a b : BitVec 32) (m : ByteMem) :
    q.op.eval [a, b] m = { mem := m, outs := [q.value a b] } := by
  obtain ⟨op, ho, hi⟩ := q
  cases op <;> first | rfl | (simp [Qir.Op.nOut] at ho; done) | simp [Qir.Op.nIn] at hi

end Binop

/-- Where an arithmetic instruction has its second source. -/
inductive Src
  | imm | shamt | reg

namespace Src

/-- The operand that a source becomes. -/
def opr (src : Src) (raw : BitVec 32) : VOperand :=
  match src with
  | imm => Translate.vconst (immI raw)
  | shamt => Translate.vconst (immIS raw)
  | reg => Translate.gprop (rs2 raw)

/-- The value of a source in a CPU state. -/
def val (src : Src) (raw : BitVec 32) (cpu : ByteMem) : BitVec 32 :=
  match src with
  | imm => immI raw
  | shamt => immIS raw
  | reg => gpr cpu (rs2 raw)

end Src

/-- The opcodes by the shape of their translation. -/
inductive Family
  | illegal
  | lui
  | auipc
  | jal
  | jalr
  | brcc (cc : CondCode)
  | load (sz : VType) (sgn : VSign)
  | store (sz : VType)
  | arith (q : Binop) (src : Src)
  | fence (stub : RuntimeStubId)
  | call (stub : RuntimeStubId) (trap : TrapCode)

/-- The family of an opcode. -/
def family : Insn.Op → Family
  | .illegal => .illegal
  | .lui => .lui
  | .auipc => .auipc
  | .jal => .jal
  | .jalr => .jalr
  | .beq => .brcc .EQ
  | .bne => .brcc .NE
  | .blt => .brcc .LT
  | .bge => .brcc .GE
  | .bltu => .brcc .LTU
  | .bgeu => .brcc .GEU
  | .lb => .load .I8 .S
  | .lh => .load .I16 .S
  | .lw => .load .I32 .S
  | .lbu => .load .I8 .U
  | .lhu => .load .I16 .U
  | .sb => .store .I8
  | .sh => .store .I16
  | .sw => .store .I32
  | .addi => .arith ⟨.add, rfl, rfl⟩ .imm
  | .slti => .arith ⟨.setcc .LT, rfl, rfl⟩ .imm
  | .sltiu => .arith ⟨.setcc .LTU, rfl, rfl⟩ .imm
  | .xori => .arith ⟨.xor, rfl, rfl⟩ .imm
  | .ori => .arith ⟨.or, rfl, rfl⟩ .imm
  | .andi => .arith ⟨.and, rfl, rfl⟩ .imm
  | .slli => .arith ⟨.sll, rfl, rfl⟩ .shamt
  | .srai => .arith ⟨.sra, rfl, rfl⟩ .shamt
  | .srli => .arith ⟨.srl, rfl, rfl⟩ .shamt
  | .sub => .arith ⟨.sub, rfl, rfl⟩ .reg
  | .add => .arith ⟨.add, rfl, rfl⟩ .reg
  | .sll => .arith ⟨.sll, rfl, rfl⟩ .reg
  | .slt => .arith ⟨.setcc .LT, rfl, rfl⟩ .reg
  | .sltu => .arith ⟨.setcc .LTU, rfl, rfl⟩ .reg
  | .xor => .arith ⟨.xor, rfl, rfl⟩ .reg
  | .sra => .arith ⟨.sra, rfl, rfl⟩ .reg
  | .srl => .arith ⟨.srl, rfl, rfl⟩ .reg
  | .or => .arith ⟨.or, rfl, rfl⟩ .reg
  | .and => .arith ⟨.and, rfl, rfl⟩ .reg
  | .fence => .fence .rv32_fence
  | .fencei => .fence .rv32_fencei
  | .ecall => .call .rv32_ecall .ECALL
  | .ebreak => .call .rv32_ebreak .EBREAK

namespace Family

/-! ### Flags -/

/-- The instruction pointer is stored first. -/
def saves : Family → Bool
  | illegal | load _ _ | store _ | call _ _ => true
  | _ => false

/-- The translation of the range ends here. -/
def ends : Family → Bool
  | illegal | jal | jalr | brcc _ | call _ _ => true
  | _ => false

/-- The interpreter's handler stores the instruction pointer after it. -/
def branches : Family → Bool
  | jal | jalr | brcc _ => true
  | _ => false

/-- The translation writes `rd`. -/
def hasRd : Family → Bool
  | lui | auipc | jal | jalr | load _ _ | arith _ _ => true
  | _ => false

end Family

lemma saves_family (op : Insn.Op) :
    (op.flags.Trap || op.flags.MayTrap) = (family op).saves := by cases op <;> rfl

lemma ends_family (op : Insn.Op) :
    (op.flags.Branch || op.flags.Trap) = (family op).ends := by cases op <;> rfl

lemma branches_family (op : Insn.Op) : op.flags.Branch = (family op).branches := by
  cases op <;> rfl

lemma hasRd_family (op : Insn.Op) : op.flags.HasRd = (family op).hasRd := by cases op <;> rfl

/-! ### The interpreter -/

namespace Interp

/-- The body of a handler, by family. -/
def implFamily (f : Family) (raw : BitVec 32) (h : Hart) : Res :=
  match f with
  | .illegal => raiseTrap .ILLEGAL_INSN h
  | .lui => implLui raw h
  | .auipc => implAuipc raw h
  | .jal => implJal raw h
  | .jalr => implJalr raw h
  | .brcc cc => implBranch raw h cc.holds
  | .load sz sgn => implLoad raw h sz sgn
  | .store sz => implStore raw h sz
  | .arith q src =>
      { hart := h.setGpr (rd raw) (q.value (gpr h.cpu (rs1 raw)) (src.val raw h.cpu)) }
  | .fence _ => { hart := h }
  | .call _ trap => raiseTrap trap h

lemma toNat_and_31 (b : BitVec 32) : (b &&& 31).toNat = b.toNat % 32 := by
  rw [BitVec.toNat_and]
  exact Nat.and_two_pow_sub_one_eq_mod b.toNat 5

lemma impl_family (op : Insn.Op) (raw : BitVec 32) (h : Hart) :
    impl op raw h = implFamily (family op) raw h := by
  have hsh : (immIS raw).toNat % 32 = (immIS raw).toNat := Nat.mod_eq_of_lt (immIS_lt raw)
  cases op
  case slli | srai | srli =>
    simp only [impl, implArithmRI, family, implFamily, Binop.value, Qir.Op.eval, Src.val, hsh]
    rfl
  case sll | sra | srl =>
    simp only [impl, implArithmRR, family, implFamily, Binop.value, Qir.Op.eval, Src.val,
      toNat_and_31]
    rfl
  all_goals rfl

/-- A handler, by family. -/
def handlerFamily (f : Family) (raw : BitVec 32) (h : Hart) : Res :=
  let r := implFamily f raw (if f.saves then { h with cpu := setIp h.cpu h.gip } else h)
  if r.trapped then r
  else
    let h := if f.hasRd then r.hart.setGpr 0 0 else r.hart
    { r with hart := if f.branches then { h with cpu := setIp h.cpu h.gip }
      else { h with gip := h.gip + 4 } }

lemma handler_family (op : Insn.Op) (raw : BitVec 32) (h : Hart) :
    handler op raw h = handlerFamily (family op) raw h := by
  simp only [handler, handlerFamily, saves_family, hasRd_family, branches_family, impl_family]

end Interp

/-! ### The translator -/

namespace Translate.Translator

/-- `V_name`, by family. -/
def bodyFamily (f : Family) (raw : BitVec 32) (t : Translator) : Option Translator :=
  match f with
  | .illegal => none
  | .lui => some (t.translateLui raw)
  | .auipc => some (t.translateAuipc raw)
  | .jal => some (t.translateJal raw)
  | .jalr => some (t.translateJalr raw)
  | .brcc cc => some (t.translateBrcc raw cc)
  | .load sz sgn => some (t.translateLoad raw sz sgn)
  | .store sz => some (t.translateStore raw sz .U)
  | .arith q src => some (t.translateArithm raw q.inst (src.opr raw))
  | .fence stub => some (t.translateHelper raw stub)
  | .call stub _ => some (t.translateHelper raw stub)

lemma body_family (op : Insn.Op) (raw : BitVec 32) (t : Translator) :
    body op raw t = bodyFamily (family op) raw t := by
  cases op <;> rfl

end Translate.Translator

end Rv32jit
