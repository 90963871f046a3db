/-
# Selection of operands

`select.cpp`.  The pass makes every tied input the register of its output, and moves the
constants that an operation does not admit into temporaries.  The moves go in front of the
operation.  Operations return `none` where an assertion of the source fails.
-/
import Rv32jit.Codegen.ArchTraits

namespace Rv32jit.Qcg

open Qir

/-- The part of `MachineRegionInfo` that the pass fills in. -/
structure MachineRegionInfo where
  has_calls : Bool := false
deriving DecidableEq, Repr

namespace QSel

/-- The pass at one instruction: the registers of the region, the moves inserted so far in
front of the instruction, and the instruction as rewritten so far. -/
structure SelState where
  vi : VRegsInfo
  code : List Inst
  ins : Inst

namespace SelState

/-- `CreateVGPR`, as an operand of the type. -/
def createVGPR (st : SelState) (type : VType) : VOperand × SelState :=
  (.vgpr type (st.vi.addLocal type).1, { st with vi := (st.vi.addLocal type).2 })

/-- `Create_mov` in front of the instruction. -/
def emitMov (st : SelState) (d s : VOperand) : SelState :=
  { st with code := st.code ++ [.mkMov d s] }

/-- Replaces an input of the instruction under selection. -/
def setI (st : SelState) (k : ℕ) (v : VOperand) : SelState :=
  { st with ins := st.ins.setI k v }

@[simp] lemma emitMov_vi (st : SelState) (d s : VOperand) : (st.emitMov d s).vi = st.vi := rfl
@[simp] lemma setI_vi (st : SelState) (k : ℕ) (v : VOperand) : (st.setI k v).vi = st.vi := rfl

end SelState

/-- The operand is a virtual register with this number. -/
def isReg (d : ℕ) : VOperand → Bool
  | .vgpr _ v => v == d
  | _ => false

/-- The other inputs that read register `d`. -/
def liveInputs (ins : Inst) (i d : ℕ) : List ℕ :=
  (List.range ins.op.nIn).filter fun k => k != i && isReg d (ins.i.getD k .bad)

/-- The body of the loop that satisfies the aliases. -/
def satisfyAlias (c : InstCt) (i : ℕ) (st : SelState) : Option SelState :=
  let ct := ctOf c (st.ins.op.nOut + i)
  if !ct.hasAlias then some st
  else
    let src := st.ins.i.getD i .bad
    match st.ins.o.getD ct.aliasIdx .bad with
    | .vgpr t d =>
        let dst := VOperand.vgpr t d
        if isReg d src then some st
        else
          -- the output is overwritten below, so the inputs that still read it get a copy
          let live := liveInputs st.ins i d
          let st :=
            if live.isEmpty then st
            else
              let (tmp, st) := st.createVGPR t
              live.foldl (fun st k => st.setI k tmp) (st.emitMov tmp dst)
          some ((st.emitMov dst src).setI i dst)
    | _ => none

/-- The body of the loop that lowers the constants. -/
def lowerConst (c : InstCt) (i : ℕ) (st : SelState) : SelState :=
  let ct := ctOf c (st.ins.op.nOut + i)
  match st.ins.i.getD i .bad with
  | .const type val =>
      if ct.ci ≠ .NO ∧ matchGpConst val.toNat ct.ci then st
      else
        let (tmp, st) := st.createVGPR type
        (st.emitMov tmp (.const type val)).setI i tmp
  | _ => st

/-- `SelectOperands`. -/
def selectOperands (vi : VRegsInfo) (ins : Inst) : Option SelState := do
  let c ← opCt ins.op
  let st ← (List.range ins.op.nIn).foldlM (fun st i => satisfyAlias c i st) ⟨vi, [], ins⟩
  some ((List.range ins.op.nIn).foldl (fun st i => lowerConst c i st) st)

/-- `QSelVisitor`. -/
def visit (vi : VRegsInfo) (ins : Inst) : Option SelState :=
  match ins.op with
  | .br | .gbr _ | .hcall _ => some ⟨vi, [], ins⟩
  | _ => selectOperands vi ins

/-- The instructions of a block in turn. -/
def runInsts : VRegsInfo → List Inst → Option (VRegsInfo × List Inst)
  | vi, [] => some (vi, [])
  | vi, ins :: rest => do
      let st ← visit vi ins
      let (vi, code) ← runInsts st.vi rest
      some (vi, st.code ++ [st.ins] ++ code)

/-- The blocks of a region in turn. -/
def runBlocks : VRegsInfo → List Block → Option (VRegsInfo × List Block)
  | vi, [] => some (vi, [])
  | vi, blk :: rest => do
      let (vi, code) ← runInsts vi blk.ilist
      let (vi, blist) ← runBlocks vi rest
      some (vi, { blk with ilist := code } :: blist)

/-- `QSel::Run`. -/
def run (r : Region) : Option (Region × MachineRegionInfo) := do
  let (vi, blist) ← runBlocks r.vregsInfo r.blist
  some ({ blist := blist, vregsInfo := vi },
    { has_calls := r.blist.any fun blk => blk.ilist.any fun ins => ins.op.hasCalls })

end QSel

end Rv32jit.Qcg
