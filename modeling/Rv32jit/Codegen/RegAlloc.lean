/-
# The register allocator

`regalloc.cpp`.  The allocator walks over the blocks once.  Before each instruction it inserts
the moves that bring the operands into physical registers, and it rewrites the operands.  All
operations return `none` where the source panics, fails an assertion, or does not end: the
loop of `CallOp` over the virtual registers counts in a `u8`.
-/
import Rv32jit.Codegen.ArchTraits

namespace Rv32jit.Qcg

open Qir ArchTraits

/-- `N_PREGS`. -/
def N_PREGS : ℕ := GPR_NUM

/-- `MAX_VREGS`, the number of entries of the table of tracks. -/
def MAX_VREGS : ℕ := 512

/-- `RTrack::Location`: where the value of a virtual register is. -/
inductive Location
  | DEAD | MEM | REG
deriving DecidableEq, Repr

/-- `RTrack`: where a virtual register lives. -/
structure RTrack where
  type : VType := .UNDEF
  isGlobal : Bool := false
  spillOffs : ℕ := 0xFFFF
  p : ℕ := 0
  loc : Location := .DEAD
  /-- Valid if `loc` is `REG`. -/
  spillSynced : Bool := false
deriving DecidableEq, Repr

/-- `RTrack::NO_SPILL`. -/
def NO_SPILL : ℕ := 0xFFFF

/-- `QRegAlloc`.  The pointers of the source are numbers of virtual registers, and `code` holds
the instructions of the current block up to the one being rewritten. -/
structure QRegAlloc where
  nVregs : ℕ := 0
  vregs : ℕ → RTrack := fun _ => {}
  p2v : ℕ → Option ℕ := fun _ => none
  frameCur : ℕ := 0
  code : List Inst := []

namespace QRegAlloc

/-- Overwrites the track of a virtual register. -/
def setTrack (ra : QRegAlloc) (v : ℕ) (t : RTrack) : QRegAlloc :=
  { ra with vregs := Function.update ra.vregs v t }

/-- Overwrites what a physical register holds. -/
def setP2v (ra : QRegAlloc) (p : ℕ) (v : Option ℕ) : QRegAlloc :=
  { ra with p2v := Function.update ra.p2v p v }

/-- `Builder::Create` in front of the current instruction. -/
def emit (ra : QRegAlloc) (ins : Inst) : QRegAlloc := { ra with code := ra.code ++ [ins] }

/-! ### Tracks -/

/-- `AddTrack`; the table has `MAX_VREGS` entries. -/
def addTrack (t : RTrack) (ra : QRegAlloc) : Option QRegAlloc :=
  if ra.nVregs = MAX_VREGS then none
  else some { ra.setTrack ra.nVregs t with nVregs := ra.nVregs + 1 }

/-- `AddTrackGlobal`: the value is in its home. -/
def addTrackGlobal (g : StateReg) : QRegAlloc → Option QRegAlloc :=
  addTrack { isGlobal := true, type := g.type, spillOffs := g.stateOffs }

/-- `AddTrackLocal`: there is no value yet. -/
def addTrackLocal (type : VType) : QRegAlloc → Option QRegAlloc :=
  addTrack { isGlobal := false, type := type, spillOffs := NO_SPILL }

/-- The constructor: one track for each virtual register of the region. -/
def init (vi : VRegsInfo) : Option QRegAlloc := do
  let ra ← vi.globInfo.regs.foldlM (fun ra g => addTrackGlobal g ra) {}
  vi.locInfo.foldlM (fun ra t => addTrackLocal t ra) ra

/-! ### Spilling and filling -/

/-- `roundup`. -/
def roundup (x y : ℕ) : ℕ := (x + (y - 1)) / y * y

/-- `AllocFrameSlot`, which panics when the frame is full. -/
def allocFrameSlot (v : ℕ) (ra : QRegAlloc) : Option QRegAlloc :=
  let t := ra.vregs v
  -- `VTypeToSize` has no size for `UNDEF`
  if t.spillOffs ≠ NO_SPILL ∨ t.isGlobal ∨ t.type = .UNDEF then none
  else
    let slotSz := t.type.toSize
    let slotOffs := roundup ra.frameCur slotSz
    if slotOffs + slotSz > spillframe_size then none
    else some { ra.setTrack v { t with spillOffs := slotOffs } with frameCur := slotOffs + slotSz }

/-- The slot of a register in the CPU state or in the frame. -/
def slotOf (t : RTrack) : VOperand := .slot t.isGlobal t.type t.spillOffs

/-- `EmitSpill`: the value goes from the register to its slot. -/
def emitSpill (v : ℕ) (ra : QRegAlloc) : Option QRegAlloc := do
  let ra ← if !(ra.vregs v).isGlobal && (ra.vregs v).spillOffs == NO_SPILL then
      ra.allocFrameSlot v
    else some ra
  let t := ra.vregs v
  some (ra.emit (.mkMov (slotOf t) (.pgpr t.type t.p)))

/-- `EmitFill`: the value goes from its slot to the register. -/
def emitFill (v : ℕ) (ra : QRegAlloc) : Option QRegAlloc :=
  let t := ra.vregs v
  if t.spillOffs = NO_SPILL then none
  else some (ra.emit (.mkMov (.pgpr t.type t.p) (slotOf t)))

/-- `SyncSpill`: spills a value that is in a register only. -/
def syncSpill (v : ℕ) (ra : QRegAlloc) : Option QRegAlloc :=
  if (ra.vregs v).spillSynced then some ra
  else
    match (ra.vregs v).loc with
    | .MEM => some ra
    | .REG => do
        let ra ← ra.emitSpill v
        some (ra.setTrack v { ra.vregs v with spillSynced := true })
    | .DEAD => none

/-- `Release<kill>`. -/
def release (kill : Bool) (v : ℕ) (ra : QRegAlloc) : QRegAlloc :=
  let t := ra.vregs v
  let ra' := ra.setTrack v
    { t with loc := if t.isGlobal then .MEM else if kill then .DEAD else .MEM }
  if t.loc = .REG then ra'.setP2v t.p none else ra'

/-- `Spill(RTrack *)`. -/
def spill (v : ℕ) (ra : QRegAlloc) : Option QRegAlloc := do
  let ra ← ra.syncSpill v
  some (ra.release false v)

/-- `Spill(RegN)`. -/
def spillPreg (p : ℕ) (ra : QRegAlloc) : Option QRegAlloc :=
  match ra.p2v p with
  | none => some ra
  | some v => ra.spill v

/-- The first free admissible register, else the first admissible one after spilling it. -/
def allocPReg (desire avoid : RegMask) (ra : QRegAlloc) : Option (ℕ × QRegAlloc) :=
  let target := desire.inter avoid.compl
  match (List.range N_PREGS).find? fun p => (ra.p2v p).isNone && target.test p with
  | some p => some (p, ra)
  | none =>
      match (List.range N_PREGS).find? fun p => target.test p with
      | some p => do
          let ra ← ra.spillPreg p
          some (p, ra)
      | none => none

/-- `Fill`: brings the value into a register that is desired. -/
def fill (v : ℕ) (desire avoid : RegMask) (ra : QRegAlloc) : Option QRegAlloc :=
  match (ra.vregs v).loc with
  | .MEM => do
      let (p, ra) ← ra.allocPReg desire avoid
      let ra := ra.setTrack v { ra.vregs v with p := p, loc := .REG, spillSynced := true }
      (ra.setP2v p (some v)).emitFill v
  | .REG => some ra
  | .DEAD => none

/-! ### Boundaries -/

/-- `Prologue`. -/
def prologue (ra : QRegAlloc) : QRegAlloc :=
  (List.range ra.nVregs).foldl (fun ra v =>
    ra.setTrack v
      { ra.vregs v with loc := if (ra.vregs v).isGlobal then .MEM else .DEAD }) ra

/-- `BlockBoundary`: spills the global registers. -/
def blockBoundary (ra : QRegAlloc) : Option QRegAlloc :=
  (List.range ra.nVregs).foldlM (fun ra v =>
    if (ra.vregs v).isGlobal then ra.spill v else some ra) ra

/-- `RegionBoundary`: spills the global registers and gives up the local ones. -/
def regionBoundary (ra : QRegAlloc) : Option QRegAlloc :=
  (List.range ra.nVregs).foldlM (fun ra v =>
    if (ra.vregs v).isGlobal then ra.spill v else some (ra.release false v)) ra

/-! ### Instructions -/

/-- The allocator's view of the instruction in hand: the registers that the operands handled
so far occupy, and the instruction as rewritten so far. -/
structure OpState where
  ra : QRegAlloc
  avoid : RegMask
  ins : Inst

/-- The body of the loop over the inputs in `AllocOp`. -/
def allocInput (c : InstCt) (i : ℕ) (st : OpState) : Option OpState :=
  let ct := ctOf c (st.ins.o.length + i)
  match st.ins.i[i]? with
  | some (.vgpr type v) => do
      let ra ← st.ra.fill v ct.cr st.avoid
      let src := ra.vregs v
      let (p, ra) ←
        if ct.cr.test src.p then some (src.p, ra)
        else do
          let (p, ra) ← ra.allocPReg ct.cr st.avoid
          -- the copy is not recorded: `src` keeps its register
          let src := ra.vregs v
          some (p, ra.emit (.mkMov (.pgpr src.type p) (.pgpr src.type src.p)))
      some ⟨ra, st.avoid.set p, st.ins.setI i (.pgpr type p)⟩
  | _ => some st

/-- The write-back of the globals in front of an instruction with side effects. -/
def syncGlobals (ra : QRegAlloc) : Option QRegAlloc :=
  (List.range ra.nVregs).foldlM (fun ra v =>
    if (ra.vregs v).isGlobal then ra.syncSpill v else some ra) ra

/-- The body of the loop over the outputs in `AllocOp`. -/
def allocOutput (c : InstCt) (i : ℕ) (st : OpState) : Option OpState :=
  let ct := ctOf c i
  match st.ins.o[i]? with
  | some (.vgpr type v) => do
      let ra ←
        if ct.hasAlias then some st.ra
        else do
          let (p, ra) ← st.ra.allocPReg ct.cr st.avoid
          let dst := ra.vregs v
          let ra := if dst.loc = .REG then ra.setP2v dst.p none else ra
          some ((ra.setP2v p (some v)).setTrack v { dst with loc := .REG, p := p })
      let dst := ra.vregs v
      some ⟨ra.setTrack v { dst with spillSynced := false }, st.avoid.set dst.p,
        st.ins.setO i (.pgpr type dst.p)⟩
  | _ => some st

/-- `AllocOp`: the state of the allocator and the rewritten instruction. -/
def allocOp (ins : Inst) (ra : QRegAlloc) : Option (QRegAlloc × Inst) := do
  let c ← opCt ins.op
  let st ← c.orderIn.foldlM (fun st i => allocInput c i st) ⟨ra, GPR_FIXED, ins⟩
  let ra ← if ins.op.sideeff then st.ra.syncGlobals else some st.ra
  let st ← c.orderOut.foldlM (fun st i => allocOutput c i st) { st with ra := ra }
  some (st.ra, st.ins)

/-- `CallOp`.  The second loop counts in a `u8` and does not end once there are 256 virtual
registers or more. -/
def callOp (ra : QRegAlloc) : Option QRegAlloc := do
  let ra ← (List.range N_PREGS).foldlM (fun ra p =>
    if GPR_CALL_CLOBBER.test p then ra.spillPreg p else some ra) ra
  if ra.nVregs ≤ 255 then
    (List.range ra.nVregs).foldlM (fun ra v =>
      if (ra.vregs v).isGlobal then ra.spill v else some ra) ra
  else none

/-- `QRegAllocVisitor`: brings the registers into place for an instruction and rewrites it. -/
def visit (ins : Inst) (ra : QRegAlloc) : Option (QRegAlloc × Inst) :=
  match ins.op with
  | .br => do
      let ra ← ra.blockBoundary
      some (ra, ins)
  | .brcc _ => do
      let (ra, ins) ← ra.allocOp ins
      let ra ← ra.blockBoundary
      some (ra, ins)
  | .gbr _ => do
      let ra ← ra.regionBoundary
      some (ra, ins)
  | .gbrind => do
      let (ra, ins) ← ra.allocOp ins
      let ra ← ra.regionBoundary
      some (ra, ins)
  | .hcall _ => do
      let ra ← ra.callOp
      some (ra, ins)
  | _ => ra.allocOp ins

/-- One instruction of a block. -/
def runInst (ra : QRegAlloc) (ins : Inst) : Option QRegAlloc := do
  let (ra, ins) ← ra.visit ins
  some (ra.emit ins)

/-- One block: the state of the allocator at its end and the rewritten block. -/
def runBlock (ra : QRegAlloc) (blk : Block) : Option (QRegAlloc × Block) := do
  let ra ← blk.ilist.foldlM runInst { ra with code := [] }
  some (ra, { blk with ilist := ra.code })

/-- The blocks of a region in turn. -/
def runBlocks : QRegAlloc → List Block → Option (List Block)
  | _, [] => some []
  | ra, blk :: rest => do
      let (ra, blk) ← ra.runBlock blk
      let rest ← runBlocks ra rest
      some (blk :: rest)

/-- `QRegAllocPass::run`. -/
def run (r : Region) : Option Region := do
  let ra ← init r.vregsInfo
  let blist ← runBlocks ra.prologue r.blist
  some { r with blist := blist }

end QRegAlloc

end Rv32jit.Qcg
