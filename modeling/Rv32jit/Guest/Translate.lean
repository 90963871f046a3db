/-
# The translator

`rv32_qir.cpp`: from RV32I words to the intermediate representation.  The words are those of
the program `prog`, a function from addresses.  Operations return `none` where the source
panics or fails an assertion.
-/
import Rv32jit.Guest.Insn
import Rv32jit.Guest.CPUState
import Rv32jit.Ir.Builder

namespace Rv32jit.Translate

open Qir Insn CPUState

/-- `TB_MAX_INSNS`. -/
def TB_MAX_INSNS : ℕ := 64

/-- `GlobalRegId::IP`. -/
def IP : ℕ := 31

/-- `RV32Translator::Control`. -/
inductive Control
  | NEXT | BRANCH | TB_OVF
deriving DecidableEq, Repr

/-- `RV32Translator`; the builder stands at the end of block `bb`. -/
structure Translator where
  region : Region
  bb : ℕ
  ip2bb : List (BitVec 32 × ℕ)
  control : Control
  insn_ip : BitVec 32

/-! ### Operands -/

/-- `vgpr`; the source asserts `id != 0`, which every caller has tested. -/
def vgpr (id : ℕ) (type : VType := .I32) : VOperand := .vgpr type (id - 1)

/-- A constant operand. -/
def vconst (val : BitVec 32) (type : VType := .I32) : VOperand := .const type val

/-- The global virtual register of a guest register. -/
def gprop (id : ℕ) (type : VType := .I32) : VOperand :=
  if id = 0 then vconst 0 type else vgpr id type

namespace Translator

/-- `vtemp`. -/
def vtemp (t : Translator) : VOperand × Translator :=
  (.vgpr .I32 (t.region.vregsInfo.addLocal .I32).1,
    { t with region := { t.region with vregsInfo := (t.region.vregsInfo.addLocal .I32).2 } })

/-- `qb.Create_...`. -/
def create (t : Translator) (ins : Inst) : Translator :=
  { t with region := t.region.create t.bb ins }

/-- `ip2bb.find`. -/
def find (t : Translator) (ip : BitVec 32) : Option ℕ := t.ip2bb.lookup ip

/-- `qb.GetBlock()->AddSucc`. -/
def addSucc (t : Translator) (succ : ℕ) : Translator :=
  { t with region := t.region.addSucc t.bb succ }

/-! ### Parts of the handlers -/

/-- `PreSideeff`: the address of the instruction goes to the state before anything can trap. -/
def preSideeff (t : Translator) : Translator :=
  t.create (.mkMov (.slot true .I32 ipOffs) (vconst t.insn_ip))

/-- `MakeGBr`: leaves the region for a known address. -/
def makeGBr (t : Translator) (ip : BitVec 32) : Translator :=
  match t.find ip with
  | some b => (t.create .mkBr).addSucc b
  | none => t.create (.mkGBr ip)

/-- `make_target` of `TranslateBrcc`: a block for the address, and the builder where it was
left. -/
def makeTarget (t : Translator) (ip : BitVec 32) : ℕ × Translator :=
  match t.find ip with
  | some b => (b, t)
  | none =>
      let (b, region) := t.region.createBlock
      (b, { t with region := region, bb := b }.create (.mkGBr ip))

/-- `TranslateBrcc`: each side of the branch leaves the region. -/
def translateBrcc (t : Translator) (raw : BitVec 32) (cc : CondCode) : Translator :=
  let bb_src := t.bb
  let (bb_f, t) := t.makeTarget (t.insn_ip + 4)
  let (bb_t, t) := t.makeTarget (t.insn_ip + immB raw)
  let t := { t with bb := bb_src }
  ((t.create (.mkBrcc cc (gprop (rs1 raw)) (gprop (rs2 raw)))).addSucc bb_t).addSucc bb_f

/-- `TranslateSetcc`, with the second source of the format. -/
def translateSetcc (t : Translator) (raw : BitVec 32) (cc : CondCode) (s : VOperand) :
    Translator :=
  if rd raw ≠ 0 then t.create (.mkSetcc cc (vgpr (rd raw)) (gprop (rs1 raw)) s) else t

/-- The address of a load or a store. -/
def address (t : Translator) (raw imm : BitVec 32) : VOperand × Translator :=
  let addr := gprop (rs1 raw)
  if imm ≠ 0 then
    let (tmp, t) := t.vtemp
    (tmp, t.create (.mkAdd tmp addr (vconst imm)))
  else (addr, t)

/-- `TranslateLoad`. -/
def translateLoad (t : Translator) (raw : BitVec 32) (type : VType) (sgn : VSign) : Translator :=
  let (addr, t) := t.address raw (immI raw)
  if rd raw ≠ 0 then t.create (.mkVMLoad type sgn (vgpr (rd raw)) addr)
  else t.create (.mkVMLoad type sgn addr addr)

/-- `TranslateStore`. -/
def translateStore (t : Translator) (raw : BitVec 32) (type : VType) (sgn : VSign) : Translator :=
  let (addr, t) := t.address raw (immS raw)
  t.create (.mkVMStore type sgn addr (gprop (rs2 raw) type))

/-- `TranslateHelper`: the stub gets the word of the instruction. -/
def translateHelper (t : Translator) (raw : BitVec 32) (stub : RuntimeStubId) : Translator :=
  t.create (.mkHcall stub (vconst raw))

/-- `TRANSLATOR_ArithmRI` and `TRANSLATOR_ArithmRR`, with the second source of the format. -/
def translateArithm (t : Translator) (raw : BitVec 32)
    (mk : VOperand → VOperand → VOperand → Inst) (s : VOperand) : Translator :=
  if rd raw ≠ 0 then t.create (mk (vgpr (rd raw)) (gprop (rs1 raw)) s) else t

/-- `V_lui`. -/
def translateLui (t : Translator) (raw : BitVec 32) : Translator :=
  if rd raw ≠ 0 then t.create (.mkMov (vgpr (rd raw)) (vconst (immU raw))) else t

/-- `V_auipc`. -/
def translateAuipc (t : Translator) (raw : BitVec 32) : Translator :=
  if rd raw ≠ 0 then t.create (.mkMov (vgpr (rd raw)) (vconst (immU raw + t.insn_ip))) else t

/-- The assignment of the link register. -/
def translateLink (t : Translator) (raw : BitVec 32) : Translator :=
  if rd raw ≠ 0 then t.create (.mkMov (vgpr (rd raw)) (vconst (t.insn_ip + 4))) else t

/-- `V_jal`. -/
def translateJal (t : Translator) (raw : BitVec 32) : Translator :=
  (t.translateLink raw).makeGBr (t.insn_ip + immJ raw)

/-- `V_jalr`. -/
def translateJalr (t : Translator) (raw : BitVec 32) : Translator :=
  let (tgt, t) := t.vtemp
  let t := t.create (.mkAdd tgt (gprop (rs1 raw)) (vconst (immI raw)))
  let t := t.create (.mkAnd tgt tgt (vconst (~~~1#32)))
  let t := t.translateLink raw
  t.create (.mkGBrind tgt)

/-! ### Instructions -/

/-- `V_name`. -/
def body (op : Insn.Op) (raw : BitVec 32) (t : Translator) : Option Translator :=
  match op with
  | .illegal => none
  | .lui => some (t.translateLui raw)
  | .auipc => some (t.translateAuipc raw)
  | .jal => some (t.translateJal raw)
  | .jalr => some (t.translateJalr raw)
  | .beq => some (t.translateBrcc raw .EQ)
  | .bne => some (t.translateBrcc raw .NE)
  | .blt => some (t.translateBrcc raw .LT)
  | .bge => some (t.translateBrcc raw .GE)
  | .bltu => some (t.translateBrcc raw .LTU)
  | .bgeu => some (t.translateBrcc raw .GEU)
  | .lb => some (t.translateLoad raw .I8 .S)
  | .lh => some (t.translateLoad raw .I16 .S)
  | .lw => some (t.translateLoad raw .I32 .S)
  | .lbu => some (t.translateLoad raw .I8 .U)
  | .lhu => some (t.translateLoad raw .I16 .U)
  | .sb => some (t.translateStore raw .I8 .U)
  | .sh => some (t.translateStore raw .I16 .U)
  | .sw => some (t.translateStore raw .I32 .U)
  | .addi => some (t.translateArithm raw .mkAdd (vconst (immI raw)))
  | .slti => some (t.translateSetcc raw .LT (vconst (immI raw)))
  | .sltiu => some (t.translateSetcc raw .LTU (vconst (immI raw)))
  | .xori => some (t.translateArithm raw .mkXor (vconst (immI raw)))
  | .ori => some (t.translateArithm raw .mkOr (vconst (immI raw)))
  | .andi => some (t.translateArithm raw .mkAnd (vconst (immI raw)))
  | .slli => some (t.translateArithm raw .mkSll (vconst (immIS raw)))
  | .srai => some (t.translateArithm raw .mkSra (vconst (immIS raw)))
  | .srli => some (t.translateArithm raw .mkSrl (vconst (immIS raw)))
  | .sub => some (t.translateArithm raw .mkSub (gprop (rs2 raw)))
  | .add => some (t.translateArithm raw .mkAdd (gprop (rs2 raw)))
  | .sll => some (t.translateArithm raw .mkSll (gprop (rs2 raw)))
  | .slt => some (t.translateSetcc raw .LT (gprop (rs2 raw)))
  | .sltu => some (t.translateSetcc raw .LTU (gprop (rs2 raw)))
  | .xor => some (t.translateArithm raw .mkXor (gprop (rs2 raw)))
  | .sra => some (t.translateArithm raw .mkSra (gprop (rs2 raw)))
  | .srl => some (t.translateArithm raw .mkSrl (gprop (rs2 raw)))
  | .or => some (t.translateArithm raw .mkOr (gprop (rs2 raw)))
  | .and => some (t.translateArithm raw .mkAnd (gprop (rs2 raw)))
  | .fence => some (t.translateHelper raw .rv32_fence)
  | .fencei => some (t.translateHelper raw .rv32_fencei)
  | .ecall => some (t.translateHelper raw .rv32_ecall)
  | .ebreak => some (t.translateHelper raw .rv32_ebreak)

/-- `H_name`. -/
def handler (op : Insn.Op) (raw : BitVec 32) (t : Translator) : Option Translator := do
  let t := if op.flags.Trap || op.flags.MayTrap then t.preSideeff else t
  let t ← body op raw t
  let t := if op.flags.Branch || op.flags.Trap then { t with control := .BRANCH } else t
  some { t with insn_ip := t.insn_ip + 4 }

/-- `TranslateInsn`. -/
def translateInsn (prog : BitVec 32 → BitVec 32) (t : Translator) : Option Translator :=
  handler (decode (prog t.insn_ip)) (prog t.insn_ip) t

/-! ### Ranges and regions -/

/-- The loop of `TranslateIPRange`; `n + 1` instructions are left until the limit. -/
def loop (prog : BitVec 32 → BitVec 32) (boundary_ip : BitVec 32) :
    ℕ → Translator → Option Translator
  | 0, t => some t
  | n + 1, t => do
      let t ← t.translateInsn prog
      if t.control ≠ .NEXT then some t
      else if n = 0 ∨ boundary_ip ≤ t.insn_ip then
        some ({ t with control := .TB_OVF }.makeGBr t.insn_ip)
      else loop prog boundary_ip n t

/-- `TranslateIPRange`: the instructions of one block, up to the boundary or the bound on their
number. -/
def translateIPRange (prog : BitVec 32 → BitVec 32) (ip boundary_ip : BitVec 32)
    (t : Translator) : Option Translator :=
  if boundary_ip = 0 then none
  else
    match t.find ip with
    | some b => loop prog boundary_ip TB_MAX_INSNS
        { t with insn_ip := ip, bb := b, control := .NEXT }
    | none => none

/-- `ip2bb.insert({ip, region->CreateBlock()})`. -/
def insertRange (t : Translator) (ip : BitVec 32) : Translator :=
  let (b, region) := t.region.createBlock
  let ip2bb := if (t.find ip).isSome then t.ip2bb else t.ip2bb ++ [(ip, b)]
  { t with region := region, ip2bb := ip2bb }

/-- The constructor; the builder has no block yet. -/
def init : Translator where
  region := { blist := [], vregsInfo := { globInfo := stateInfo, locInfo := [] } }
  bb := 0
  ip2bb := []
  control := .NEXT
  insn_ip := 0

/-- `RV32Translator::Translate`: the translator at its end, with the region and `ip2bb`. -/
def translate (prog : BitVec 32 → BitVec 32) (ipranges : List (BitVec 32 × BitVec 32)) :
    Option Translator :=
  ipranges.foldlM (fun t range => translateIPRange prog range.1 range.2 t)
    (ipranges.foldl (fun t range => insertRange t range.1) init)

end Translator

end Rv32jit.Translate
