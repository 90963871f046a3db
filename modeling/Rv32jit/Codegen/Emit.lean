/-
# The emitter

`emit.cpp`, and the loop over the blocks of `qcg.cpp`.  Every operation becomes a few instructions,
which the assembler is asked for one after the other; a request that it cannot encode is a panic,
as is a failed assertion.  Guest addresses are addresses of the host (`CONFIG_ZERO_MMU_BASE`).
-/
import Rv32jit.Codegen.ArchTraits
import Rv32jit.Lib.X86Asm

namespace Rv32jit

namespace Qir.CondCode

/-- `SwapCC`. -/
def swap : CondCode → CondCode
  | EQ => EQ
  | NE => NE
  | LE => GE
  | LT => GT
  | GE => LE
  | GT => LT
  | LEU => GEU
  | LTU => GTU
  | GEU => LEU
  | GTU => LTU

end Qir.CondCode

namespace Qcg

open Qir ArchTraits
open X86.Asm hiding SP CX

/-- What the code of a region points to. -/
inductive Obj
  | state | stack | l1_brind_cache
deriving DecidableEq, Repr

/-- `BranchSlot`; its code is that of `LinkLazyJIT`. -/
structure BranchSlot where
  gip : BitVec 32
  cross_segment : Bool
deriving DecidableEq, Repr

/-- The instructions of the assembler, with the stubs and the labels of the generated code. -/
abbrev Asm : Type := X86.Asm.Insn Obj RuntimeStubId ℕ

/-- Generated code: instructions, labels and branch slots. -/
abbrev Code : Type := List (Item Obj RuntimeStubId ℕ BranchSlot)

/-- `CodeSegment`: the base and the size of the memory for generated code. -/
structure CodeSegment where
  gip_base : BitVec 32
  size : BitVec 32
deriving DecidableEq, Repr

/-- `InSegment`. -/
def CodeSegment.inSegment (sg : CodeSegment) (gip : BitVec 32) : Bool :=
  (gip - sg.gip_base).ult sg.size

/-- A register at a size, `asmjit::x86::Gp`. -/
structure Gp where
  size : Size
  id : ℕ
deriving DecidableEq, Repr

namespace Gp
/-- A register as an operand of its own size. -/
def opnd (g : Gp) : Opnd Obj := .reg g.size g.id

/-- The low byte of a register. -/
def r8 (g : Gp) : Opnd Obj := .reg .b g.id

/-- The low half of a register. -/
def r32 (g : Gp) : Opnd Obj := .reg .d g.id
end Gp

/-- `VTypeToSize`. -/
def vtypeSize : VType → Option Size
  | .UNDEF => none
  | .I8 => some .b
  | .I16 => some .w
  | .I32 => some .d

/-- `GetPGPR`. -/
def getPGPR : VOperand → Option ℕ
  | .pgpr _ p => some p
  | _ => none

/-- `make_gpr`. -/
def makeGpr (opr : VOperand) : Option Gp := do
  let size ← vtypeSize opr.getType
  let id ← getPGPR opr
  return ⟨size, id⟩

/-- `make_cc`. -/
def makeCc : CondCode → Cc
  | .EQ => .e
  | .NE => .ne
  | .LE => .le
  | .LT => .l
  | .GE => .ge
  | .GT => .g
  | .LEU => .be
  | .LTU => .b
  | .GEU => .ae
  | .GTU => .a

/-- `make_vmem`; an address is in a 32-bit register. -/
def makeVmem : VOperand → Option Mem
  | .pgpr .I32 p => some (.base32 p)
  | .const _ c => some (.abs (c.setWidth 64))
  | _ => none

/-- The instructions that the assembler is asked for. -/
def asm (is : List Asm) : Option Code :=
  if is.all Insn.encodes then some (is.map .insn) else none

/-- What the emitter knows of the region. -/
structure QEmit where
  segment : CodeSegment
  is_leaf : Bool

/-- The block in work: its successors, and the block behind it in the list. -/
structure CurBlock where
  succs : List ℕ
  next : Option ℕ

namespace QEmit

section
variable (ce : QEmit)

/-- The distance of the spill frame from the stack pointer: the return address and, unless the
region is a leaf, the word that `FrameSetup` has pushed. -/
def spillframe_sp_offs : ℕ := 8 * if ce.is_leaf then 1 else 2

/-- `make_slot`, with 16-bit arithmetic. -/
def makeSlot (isGlob : Bool) (type : VType) (offs : ℕ) : Option (Opnd Obj) := do
  let size ← vtypeSize type
  return .mem size (if isGlob then .base STATE offs
    else .base SP ((offs + ce.spillframe_sp_offs) % 2 ^ 16))

/-- `make_operand`. -/
def makeOperand (opr : VOperand) : Option (Opnd Obj) :=
  match opr with
  | .const _ c => some (.imm (c.setWidth 64))
  | .slot isGlob t offs => ce.makeSlot isGlob t offs
  | _ => (makeGpr opr).map Gp.opnd

/-- Something is pushed to keep the frame aligned. -/
def frameSetup : List Asm := if ce.is_leaf then [] else [.push RCX]

/-- `FrameDestroy`: drops the word that `FrameSetup` has pushed. -/
def frameDestroy : List Asm := if ce.is_leaf then [] else [.pop RCX]

/-- `Emit_hcall`: the state pointer and the argument go to the argument registers. -/
def emitHcall (stub : RuntimeStubId) (arg : VOperand) : Option Code := do
  guard !ce.is_leaf
  let arg ← ce.makeOperand arg
  asm [.mov (.reg .q RDI) (.reg .q STATE), .mov (.reg .q RSI) arg, .call stub]

/-- A jump, unless the target is the block behind. -/
def jmpUnlessNext (bb : CurBlock) (b : ℕ) : List Asm := if bb.next = some b then [] else [.jmp b]

/-- `Emit_br`, to the first successor. -/
def emitBr (bb : CurBlock) : Option Code := do
  let bb_s ← bb.succs[0]?
  asm (jmpUnlessNext bb bb_s)

/-- A constant goes second. -/
def orderCmp (cc : CondCode) (vs0 vs1 : VOperand) : CondCode × VOperand × VOperand :=
  if vs0.isConst then (cc.swap, vs1, vs0) else (cc, vs0, vs1)

/-- `Emit_brcc`: a conditional jump, and a jump where the other successor does not follow. -/
def emitBrcc (bb : CurBlock) (cc : CondCode) (vs0 vs1 : VOperand) : Option Code := do
  let bb_t ← bb.succs[0]?
  let bb_f ← bb.succs[1]?
  let (cc, vs0, vs1) := orderCmp cc vs0 vs1
  let a ← ce.makeOperand vs0
  let b ← ce.makeOperand vs1
  asm ([.cmp a b, .jcc (makeCc cc) bb_t] ++ jmpUnlessNext bb bb_f)

/-- `Emit_gbr`: leaves the region through a branch slot. -/
def emitGbr (tpc : BitVec 32) : Option Code := do
  let code ← asm ce.frameDestroy
  return code ++ [.data ⟨tpc, !ce.segment.inSegment tpc⟩]

/-- The inlined look-up in the cache, up to the branch to the slow path. -/
def lookupBrind (ptgt : Gp) (slowpath : ℕ) : List Asm :=
  [.mov (.reg .q RDX) (.obj .l1_brind_cache),
    .lea (.reg .d RDI) (.scaled ptgt.id 2),
    .alu .and (.reg .d RDI) (.imm 0xFFF0),
    .cmp (.mem .d (.sum RDX RDI 0)) ptgt.r32,
    .jcc .ne slowpath]

/-- The frame is set up for the call of the slow path also where there is none. -/
def slowBrind : List Asm :=
  [.mov (.reg .q RDI) (.reg .q STATE)] ++ (if ce.is_leaf then [.push RCX] else []) ++
    [.call .brind] ++ (if ce.is_leaf then [.pop RCX] else ce.frameDestroy) ++
    [.jmpInd (.reg .q RAX)]

/-- `Emit_gbrind`; its constraint has put the target into `rsi`. -/
def emitGbrind (slowpath : ℕ) (tgt : VOperand) : Option Code := do
  let ptgt ← makeGpr tgt
  guard (ptgt.id = RSI)
  let fast ← asm (lookupBrind ptgt slowpath ++ ce.frameDestroy ++
    [.jmpInd (.mem .q (.sum RDX RDI 8))])
  let slow ← asm ce.slowBrind
  return fast ++ .label slowpath :: slow

/-- `Emit_vmload`, with the extension that the type and the sign ask for. -/
def emitVmload (sz : VType) (sgn : VSign) (vrd vbase : VOperand) : Option Code := do
  let prd ← makeGpr vrd
  let mem ← makeVmem vbase
  guard (vrd.getType = .I32)
  match sz with
  | .I8 => asm [if sgn = .U then .movzx prd.opnd (.mem .b mem) else .movsx prd.opnd (.mem .b mem)]
  | .I16 => asm [if sgn = .U then .movzx prd.opnd (.mem .w mem) else .movsx prd.opnd (.mem .w mem)]
  | .I32 => asm [.mov prd.opnd (.mem .d mem)]
  | .UNDEF => none

/-- `Emit_vmstore`. -/
def emitVmstore (sz : VType) (sgn : VSign) (vbase vdata : VOperand) : Option Code := do
  let pdata ← ce.makeOperand vdata
  let mem ← makeVmem vbase
  guard (sgn = .U)
  let size ← vtypeSize sz
  asm [.mov (.mem size mem) pdata]

/-- `Emit_setcc`: the output is cleared first, or extended afterwards if it is an input too. -/
def emitSetcc (cc : CondCode) (vrd vs0 vs1 : VOperand) : Option Code := do
  let prd ← makeGpr vrd
  let ps0 ← getPGPR vs0
  let dst_aliased := ps0 = prd.id ∨ getPGPR vs1 = some prd.id
  let a ← ce.makeOperand vs0
  let b ← ce.makeOperand vs1
  asm ((if dst_aliased then [] else [.alu .xor prd.opnd prd.opnd]) ++
    [.cmp a b, .setcc (makeCc cc) prd.r8] ++
    if dst_aliased then [.movzx prd.opnd prd.r8] else [])

/-- `Emit_mov`. -/
def emitMov (vrd vs0 : VOperand) : Option Code := do
  let d ← ce.makeOperand vrd
  let s ← ce.makeOperand vs0
  asm [.mov d s]

/-- `EmitInstBinop`. -/
def emitInstBinop (op : Opnd Obj → Opnd Obj → Asm) (vrd vs0 vs1 : VOperand) : Option Code := do
  let prd ← makeGpr vrd
  let ps0 ← getPGPR vs0
  guard (prd.id = ps0)
  let b ← ce.makeOperand vs1
  asm [op prd.opnd b]

/-- `Emit_add`. -/
def emitAdd (vrd vs0 vs1 : VOperand) : Option Code := ce.emitInstBinop (.alu .add) vrd vs0 vs1

/-- `Emit_sub`. -/
def emitSub (vrd vs0 vs1 : VOperand) : Option Code := ce.emitInstBinop (.alu .sub) vrd vs0 vs1

/-- `Emit_and`. -/
def emitAnd (vrd vs0 vs1 : VOperand) : Option Code := ce.emitInstBinop (.alu .and) vrd vs0 vs1

/-- `Emit_or`. -/
def emitOr (vrd vs0 vs1 : VOperand) : Option Code := ce.emitInstBinop (.alu .or) vrd vs0 vs1

/-- `Emit_xor`. -/
def emitXor (vrd vs0 vs1 : VOperand) : Option Code := ce.emitInstBinop (.alu .xor) vrd vs0 vs1

/-- The operations whose second operand is constant or in `cx`. -/
def emitShift (op : Shift) (vrd vs0 vs1 : VOperand) : Option Code := do
  guard (vs1.isConst ∨ getPGPR vs1 = some RCX)
  ce.emitInstBinop (.shift op) vrd vs0 vs1

/-- `Emit_sra`. -/
def emitSra (vrd vs0 vs1 : VOperand) : Option Code := ce.emitShift .sar vrd vs0 vs1

/-- `Emit_srl`. -/
def emitSrl (vrd vs0 vs1 : VOperand) : Option Code := ce.emitShift .shr vrd vs0 vs1

/-- `Emit_sll`. -/
def emitSll (vrd vs0 vs1 : VOperand) : Option Code := ce.emitShift .shl vrd vs0 vs1

/-! ### The loop over the region -/

/-- `QCodegenVisitor`: the code of an instruction, and the next label that is free. -/
def visit (bb : CurBlock) (label : ℕ) (ins : Inst) : Option (Code × ℕ) :=
  match ins.op, ins.o, ins.i with
  | .gbrind, [], [t] => (ce.emitGbrind label t).map (·, label + 1)
  | op, o, i => (·, label) <$> match op, o, i with
    | .hcall stub, [], [a] => ce.emitHcall stub a
    | .br, [], [] => emitBr bb
    | .brcc cc, [], [a, b] => ce.emitBrcc bb cc a b
    | .gbr tpc, [], [] => ce.emitGbr tpc
    | .vmload sz sgn, [d], [p] => emitVmload sz sgn d p
    | .vmstore sz sgn, [], [p, v] => ce.emitVmstore sz sgn p v
    | .setcc cc, [d], [a, b] => ce.emitSetcc cc d a b
    | .mov, [d], [a] => ce.emitMov d a
    | .add, [d], [a, b] => ce.emitAdd d a b
    | .sub, [d], [a, b] => ce.emitSub d a b
    | .and, [d], [a, b] => ce.emitAnd d a b
    | .or, [d], [a, b] => ce.emitOr d a b
    | .xor, [d], [a, b] => ce.emitXor d a b
    | .sra, [d], [a, b] => ce.emitSra d a b
    | .srl, [d], [a, b] => ce.emitSrl d a b
    | .sll, [d], [a, b] => ce.emitSll d a b
    | _, _, _ => none

/-- The instructions of a block one after another; the number counts the labels in use. -/
def visitAll (bb : CurBlock) : ℕ → List Inst → Option (Code × ℕ)
  | label, [] => some ([], label)
  | label, ins :: rest => do
    let (c, label) ← ce.visit bb label ins
    let (c', label) ← visitAll bb label rest
    return (c ++ c', label)

/-- The blocks with their identifiers, in the order of the list. -/
def runBlocks : ℕ → List (ℕ × Block) → Option Code
  | _, [] => some []
  | label, (b, blk) :: rest => do
    let (c, label) ← ce.visitAll ⟨blk.succs, rest.head?.map Prod.fst⟩ label blk.ilist
    let c' ← runBlocks label rest
    return .label b :: c ++ c'

/-- `QCodegen::Run`.  The labels of the blocks are their identifiers, the first ones that the
assembler gives out. -/
def run (blocks : List (ℕ × Block)) : Option Code := do
  let prologue ← asm ce.frameSetup
  let code ← ce.runBlocks blocks.length blocks
  return prologue ++ code

end

end QEmit

end Qcg

end Rv32jit
