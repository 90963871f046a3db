/-
# The interpreter

`rv32_interp.cpp`.  A handler gets the raw word and the hart and either completes or raises a
trap, in which case it does not return.  It also reports the guest memory that it accessed.  A
runtime stub is a handler called from translated code, with the instruction pointer taken from
the CPU state and put back there.
-/
import Rv32jit.Guest.Insn
import Rv32jit.Guest.CPUState
import Rv32jit.Ir.Semantics

namespace Rv32jit.Interp

open Qir CPUState Insn

/-- The CPU state, `gip` and the guest memory. -/
structure Hart where
  cpu : ByteMem
  gip : BitVec 32
  mem : ByteMem

/-- The state in which a handler returns or raises a trap. -/
structure Res where
  acc : List Access := []
  hart : Hart
  trapped : Bool := false

/-- `RAISE_TRAP`. -/
def raiseTrap (t : TrapCode) (h : Hart) : Res :=
  { hart := { h with cpu := setTrapno (setIp h.cpu h.gip) t }, trapped := true }

/-- Assigns to `gpr[i]`. -/
def Hart.setGpr (h : Hart) (i : ℕ) (v : BitVec 32) : Hart :=
  { h with cpu := CPUState.setGpr h.cpu i v }

/-- A guest register of the hart. -/
def Hart.gpr (h : Hart) (i : ℕ) : BitVec 32 := CPUState.gpr h.cpu i

/-- A comparison as an integer. -/
def ofBool (b : Bool) : BitVec 32 := if b then 1 else 0

/-! ### The bodies of the handlers -/

section
variable (raw : BitVec 32) (h : Hart)

/-- `HANDLER_Branch`. -/
def implBranch (cond : BitVec 32 → BitVec 32 → Bool) : Res :=
  if !cond (h.gpr (rs1 raw)) (h.gpr (rs2 raw)) then { hart := { h with gip := h.gip + 4 } }
  else if (immB raw).srem 4 ≠ 0 then raiseTrap .UNALIGNED_IP h
  else { hart := { h with gip := h.gip + immB raw } }

/-- `HANDLER_Load`: a value of type `sz`, extended as the type of the source is. -/
def implLoad (sz : VType) (sgn : VSign) : Res :=
  let addr := h.gpr (rs1 raw) + immI raw
  let v : BitVec 32 := h.mem.load addr.toNat sz.toSize
  { acc := [.load addr sz v], hart := h.setGpr (rd raw) (sgn.extend sz v) }

/-- `HANDLER_Store`. -/
def implStore (sz : VType) : Res :=
  let addr := h.gpr (rs1 raw) + immS raw
  let v := h.gpr (rs2 raw)
  { acc := [.store addr sz (ByteMem.lowBytes sz.toSize v)]
    hart := { h with mem := h.mem.store addr.toNat sz.toSize v } }

/-- `HANDLER_ArithmRR`. -/
def implArithmRR (f : BitVec 32 → BitVec 32 → BitVec 32) : Res :=
  { hart := h.setGpr (rd raw) (f (h.gpr (rs1 raw)) (h.gpr (rs2 raw))) }

/-- `HANDLER_ArithmRI`, and the shifts by an immediate with `imm` for their format. -/
def implArithmRI (f : BitVec 32 → BitVec 32 → BitVec 32) (imm : BitVec 32 → BitVec 32) : Res :=
  { hart := h.setGpr (rd raw) (f (h.gpr (rs1 raw)) (imm raw)) }

/-- `IMPL_lui`. -/
def implLui : Res := { hart := h.setGpr (rd raw) (immU raw) }

/-- `IMPL_auipc`. -/
def implAuipc : Res := { hart := h.setGpr (rd raw) (immU raw + h.gip) }

/-- `IMPL_jal`. -/
def implJal : Res :=
  if (immJ raw).srem 4 ≠ 0 then raiseTrap .UNALIGNED_IP h
  else { hart := { h.setGpr (rd raw) (h.gip + 4) with gip := h.gip + immJ raw } }

/-- `IMPL_jalr`. -/
def implJalr : Res :=
  let target := (h.gpr (rs1 raw) + immI raw) &&& ~~~1#32
  if target.umod 4 ≠ 0 then raiseTrap .UNALIGNED_IP h
  else { hart := { h.setGpr (rd raw) (h.gip + 4) with gip := target } }

end

/-- `Impl_name`. -/
def impl (op : Insn.Op) (raw : BitVec 32) (h : Hart) : Res :=
  match op with
  | .illegal => raiseTrap .ILLEGAL_INSN h
  | .lui => implLui raw h
  | .auipc => implAuipc raw h
  | .jal => implJal raw h
  | .jalr => implJalr raw h
  | .beq => implBranch raw h fun a b => a == b
  | .bne => implBranch raw h fun a b => a != b
  | .blt => implBranch raw h fun a b => a.slt b
  | .bge => implBranch raw h fun a b => b.sle a
  | .bltu => implBranch raw h fun a b => a.ult b
  | .bgeu => implBranch raw h fun a b => b.ule a
  | .lb => implLoad raw h .I8 .S
  | .lh => implLoad raw h .I16 .S
  | .lw => implLoad raw h .I32 .S
  | .lbu => implLoad raw h .I8 .U
  | .lhu => implLoad raw h .I16 .U
  | .sw => implStore raw h .I32
  | .sb => implStore raw h .I8
  | .sh => implStore raw h .I16
  | .addi => implArithmRI raw h (fun a b => a + b) immI
  | .slti => implArithmRI raw h (fun a b => ofBool (a.slt b)) immI
  | .sltiu => implArithmRI raw h (fun a b => ofBool (a.ult b)) immI
  | .xori => implArithmRI raw h (fun a b => a ^^^ b) immI
  | .ori => implArithmRI raw h (fun a b => a ||| b) immI
  | .andi => implArithmRI raw h (fun a b => a &&& b) immI
  | .slli => implArithmRI raw h (fun a b => a <<< b.toNat) immIS
  | .srai => implArithmRI raw h (fun a b => a.sshiftRight b.toNat) immIS
  | .srli => implArithmRI raw h (fun a b => a >>> b.toNat) immIS
  | .sub => implArithmRR raw h fun a b => a - b
  | .add => implArithmRR raw h fun a b => a + b
  | .sll => implArithmRR raw h fun a b => a <<< (b &&& 31).toNat
  | .slt => implArithmRR raw h fun a b => ofBool (a.slt b)
  | .sltu => implArithmRR raw h fun a b => ofBool (a.ult b)
  | .xor => implArithmRR raw h fun a b => a ^^^ b
  | .sra => implArithmRR raw h fun a b => a.sshiftRight (b &&& 31).toNat
  | .srl => implArithmRR raw h fun a b => a >>> (b &&& 31).toNat
  | .or => implArithmRR raw h fun a b => a ||| b
  | .and => implArithmRR raw h fun a b => a &&& b
  | .fence => { hart := h }
  | .fencei => { hart := h }
  | .ecall => raiseTrap .ECALL h
  | .ebreak => raiseTrap .EBREAK h

/-- `H_name`. -/
def handler (op : Insn.Op) (raw : BitVec 32) (h : Hart) : Res :=
  let h := if op.flags.Trap || op.flags.MayTrap then { h with cpu := setIp h.cpu h.gip } else h
  let r := impl op raw h
  if r.trapped then r
  else
    let h := if op.flags.HasRd then r.hart.setGpr 0 0 else r.hart
    let h := if op.flags.Branch then { h with cpu := setIp h.cpu h.gip }
      else { h with gip := h.gip + 4 }
    { r with hart := h }

/-- One instruction: the handler of the decoded word. -/
def step (raw : BitVec 32) (h : Hart) : Res := handler (decode raw) raw h

/-- Handlers in turn, up to the first trap. -/
def steps : List (BitVec 32) → Hart → Res
  | [], h => { hart := h }
  | raw :: rest, h =>
      let r := step raw h
      if r.trapped then r
      else
        let r' := steps rest r.hart
        { r' with acc := r.acc ++ r'.acc }

/-- `n` instructions up to the first trap, each with the word that `fetch` finds. -/
def runBy (fetch : Hart → BitVec 32) : ℕ → Hart → Res
  | 0, h => { hart := h }
  | n + 1, h =>
      let r := step (fetch h) h
      if r.trapped then r
      else
        let r' := runBy fetch n r.hart
        { r' with acc := r.acc ++ r'.acc }

/-- `n` instructions of the program, fetched at `gip`, up to the first trap. -/
def run (prog : BitVec 32 → BitVec 32) (n : ℕ) (h : Hart) : Res := runBy (fun h => prog h.gip) n h

/-! ### Runtime stubs -/

/-- `qcgstub_rv32_name`. -/
def qcgstub (op : Insn.Op) (raw : BitVec 32) (cpu mem : ByteMem) : HelperRes :=
  let r := handler op raw ⟨cpu, ip cpu, mem⟩
  if r.trapped then ⟨r.hart.cpu, r.hart.mem, true⟩
  else ⟨setIp r.hart.cpu r.hart.gip, r.hart.mem, false⟩

/-- The helpers of the guest.  The other stubs are no helpers: what a call of one of them would
do (`other`) and what a helper leaves in the registers that it destroys is left open. -/
def helperEnv (other : RuntimeStubId → BitVec 32 → ByteMem → ByteMem → HelperRes)
    (clobber : RuntimeStubId → (ℕ → BitVec 32) → ByteMem → ByteMem → ℕ → BitVec 32) :
    HelperEnv where
  helper stub raw cpu mem :=
    match stub with
    | .rv32_fence => qcgstub .fence raw cpu mem
    | .rv32_fencei => qcgstub .fencei raw cpu mem
    | .rv32_ecall => qcgstub .ecall raw cpu mem
    | .rv32_ebreak => qcgstub .ebreak raw cpu mem
    | _ => other stub raw cpu mem
  clobber := clobber

end Rv32jit.Interp
