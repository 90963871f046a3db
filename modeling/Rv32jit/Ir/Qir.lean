/-
# The intermediate representation

A region is a list of blocks of instructions over constants, virtual registers, physical
registers and slots.  Virtual registers come in two kinds: the first ones are *global*, each
with a home in the CPU state, the others are local temporaries of the region.  Blocks are
referred to by their identifier, which is their position in the region: `Region::CreateBlock`
numbers them in the order in which it appends them.
-/
import Mathlib.Tactic

namespace Rv32jit

/-- The runtime stubs, in the order of `RUNTIME_STUBS`. -/
inductive RuntimeStubId
  | escape_link | escape_brind | link_branch_jit | brind | raise
  | rv32_fence | rv32_fencei | rv32_ecall | rv32_ebreak
deriving DecidableEq, Repr

namespace Qir

/-- `VType`, the types of values. -/
inductive VType
  | UNDEF | I8 | I16 | I32
deriving DecidableEq, Repr

/-- `VTypeToSize`; the source has no size for `UNDEF`. -/
def VType.toSize : VType → ℕ
  | .UNDEF => 0
  | .I8 => 1
  | .I16 => 2
  | .I32 => 4

lemma VType.toSize_le (t : VType) : 8 * t.toSize ≤ 32 := by cases t <;> decide

/-- `VSign`: whether a load extends its value by zeros or by the sign. -/
inductive VSign
  | U | S
deriving DecidableEq, Repr

/-- `CondCode`, the comparisons; a final `U` marks the unsigned ones. -/
inductive CondCode
  | EQ | NE | LE | LT | GE | GT | LEU | LTU | GEU | GTU
deriving DecidableEq, Repr

/-- Register numbers and slot offsets are 16 bits wide in the source. -/
inductive VOperand
  | const (type : VType) (cval : BitVec 32)
  | vgpr (type : VType) (reg : ℕ)
  | pgpr (type : VType) (reg : ℕ)
  | slot (isGlob : Bool) (type : VType) (offs : ℕ)
  | bad
deriving DecidableEq, Repr

namespace VOperand

/-- `GetType`. -/
def getType : VOperand → VType
  | const t _ | vgpr t _ | pgpr t _ | slot _ t _ => t
  | bad => .UNDEF

/-- `IsConst`. -/
def isConst : VOperand → Bool
  | const _ _ => true
  | _ => false

/-- `IsVGPR`. -/
def isVGPR : VOperand → Bool
  | vgpr _ _ => true
  | _ => false

/-- `IsSlot`. -/
def isSlot : VOperand → Bool
  | slot _ _ _ => true
  | _ => false

end VOperand

/-- Opcodes, with the fields that the instruction classes add to the operands.  `InstGBr`
asserts that its target is a constant. -/
inductive Op
  | hcall (stub : RuntimeStubId)
  | br
  | brcc (cc : CondCode)
  | gbr (tpc : BitVec 32)
  | gbrind
  | vmload (sz : VType) (sgn : VSign)
  | vmstore (sz : VType) (sgn : VSign)
  | setcc (cc : CondCode)
  | mov
  | add | sub | and | or | xor | sra | srl | sll
deriving DecidableEq, Repr

namespace Op

/-- `OpInfo::n_out`. -/
def nOut : Op → ℕ
  | hcall _ | br | brcc _ | gbr _ | gbrind | vmstore _ _ => 0
  | vmload _ _ | setcc _ | mov | add | sub | and | or | xor | sra | srl | sll => 1

lemma nOut_cases (op : Op) : op.nOut = 0 ∨ op.nOut = 1 := by cases op <;> simp [nOut]

/-- `OpInfo::n_in`. -/
def nIn : Op → ℕ
  | br | gbr _ => 0
  | hcall _ | gbrind | vmload _ _ | mov => 1
  | brcc _ | vmstore _ _ | setcc _ | add | sub | and | or | xor | sra | srl | sll => 2

/-- `Inst::Flags::SIDEEFF` in `QIR_OPS_LIST`. -/
def sideeff : Op → Bool
  | hcall _ | vmload _ _ | vmstore _ _ => true
  | _ => false

/-- `Inst::Flags::HAS_CALLS` in `QIR_OPS_LIST`. -/
def hasCalls : Op → Bool
  | hcall _ => true
  | _ => false

/-- The operations that leave their block. -/
def isTerminator : Op → Bool
  | br | brcc _ | gbr _ | gbrind => true
  | _ => false

lemma nOut_terminator {op : Op} (h : op.isTerminator = true) : op.nOut = 0 := by
  cases op <;> first | rfl | cases h

end Op

/-- An instruction; its operand lists have the lengths that its opcode asks for. -/
structure Inst where
  op : Op
  /-- The outputs. -/
  o : List VOperand
  /-- The inputs. -/
  i : List VOperand
  ho : o.length = op.nOut
  hi : i.length = op.nIn
deriving DecidableEq

namespace Inst

/-- Replaces input `k`. -/
def setI (ins : Inst) (k : ℕ) (v : VOperand) : Inst :=
  { ins with i := ins.i.set k v, hi := by simp [ins.hi] }

/-- Replaces output `k`. -/
def setO (ins : Inst) (k : ℕ) (v : VOperand) : Inst :=
  { ins with o := ins.o.set k v, ho := by simp [ins.ho] }

@[simp] lemma setI_op (ins : Inst) (k : ℕ) (v : VOperand) : (ins.setI k v).op = ins.op := rfl
@[simp] lemma setI_o (ins : Inst) (k : ℕ) (v : VOperand) : (ins.setI k v).o = ins.o := rfl
@[simp] lemma setI_i (ins : Inst) (k : ℕ) (v : VOperand) : (ins.setI k v).i = ins.i.set k v := rfl
@[simp] lemma setO_op (ins : Inst) (k : ℕ) (v : VOperand) : (ins.setO k v).op = ins.op := rfl
@[simp] lemma setO_o (ins : Inst) (k : ℕ) (v : VOperand) : (ins.setO k v).o = ins.o.set k v := rfl
@[simp] lemma setO_i (ins : Inst) (k : ℕ) (v : VOperand) : (ins.setO k v).i = ins.i := rfl

@[ext] lemma ext' {a b : Inst} (h1 : a.op = b.op) (h2 : a.o = b.o) (h3 : a.i = b.i) : a = b := by
  cases a; cases b; simp_all

/-- The operands of an instruction, outputs first. -/
def operands (ins : Inst) : List VOperand := ins.o ++ ins.i

/-! ### The instruction classes -/

/-- Calls a stub of the runtime. -/
def mkHcall (stub : RuntimeStubId) (arg : VOperand) : Inst := ⟨.hcall stub, [], [arg], rfl, rfl⟩

/-- Goes to the successor. -/
def mkBr : Inst := ⟨.br, [], [], rfl, rfl⟩

/-- Goes to the first successor if the comparison holds, to the second otherwise. -/
def mkBrcc (cc : CondCode) (s1 s2 : VOperand) : Inst := ⟨.brcc cc, [], [s1, s2], rfl, rfl⟩

/-- Leaves the region for a known guest address. -/
def mkGBr (tpc : BitVec 32) : Inst := ⟨.gbr tpc, [], [], rfl, rfl⟩

/-- Leaves the region for a guest address from an operand. -/
def mkGBrind (tpc : VOperand) : Inst := ⟨.gbrind, [], [tpc], rfl, rfl⟩

/-- Loads from guest memory. -/
def mkVMLoad (sz : VType) (sgn : VSign) (d ptr : VOperand) : Inst :=
  ⟨.vmload sz sgn, [d], [ptr], rfl, rfl⟩

/-- Stores to guest memory. -/
def mkVMStore (sz : VType) (sgn : VSign) (ptr val : VOperand) : Inst :=
  ⟨.vmstore sz sgn, [], [ptr, val], rfl, rfl⟩

/-- The truth value of a comparison. -/
def mkSetcc (cc : CondCode) (d sl sr : VOperand) : Inst := ⟨.setcc cc, [d], [sl, sr], rfl, rfl⟩

/-- Copies an operand. -/
def mkMov (d s : VOperand) : Inst := ⟨.mov, [d], [s], rfl, rfl⟩

/-- The sum. -/
def mkAdd (d sl sr : VOperand) : Inst := ⟨.add, [d], [sl, sr], rfl, rfl⟩

/-- The difference. -/
def mkSub (d sl sr : VOperand) : Inst := ⟨.sub, [d], [sl, sr], rfl, rfl⟩

/-- The bitwise conjunction. -/
def mkAnd (d sl sr : VOperand) : Inst := ⟨.and, [d], [sl, sr], rfl, rfl⟩

/-- The bitwise disjunction. -/
def mkOr (d sl sr : VOperand) : Inst := ⟨.or, [d], [sl, sr], rfl, rfl⟩

/-- The bitwise exclusive disjunction. -/
def mkXor (d sl sr : VOperand) : Inst := ⟨.xor, [d], [sl, sr], rfl, rfl⟩

/-- The arithmetic shift to the right. -/
def mkSra (d sl sr : VOperand) : Inst := ⟨.sra, [d], [sl, sr], rfl, rfl⟩

/-- The logical shift to the right. -/
def mkSrl (d sl sr : VOperand) : Inst := ⟨.srl, [d], [sl, sr], rfl, rfl⟩

/-- The shift to the left. -/
def mkSll (d sl sr : VOperand) : Inst := ⟨.sll, [d], [sl, sr], rfl, rfl⟩

end Inst

/-- The home of a global virtual register in the CPU state. -/
structure StateReg where
  stateOffs : ℕ
  type : VType
deriving DecidableEq, Repr

/-- Two homes share no byte. -/
def StateReg.Apart (a b : StateReg) : Prop :=
  a.stateOffs + a.type.toSize ≤ b.stateOffs ∨ b.stateOffs + b.type.toSize ≤ a.stateOffs

instance (a b : StateReg) : Decidable (a.Apart b) := by
  unfold StateReg.Apart; infer_instance

/-- The table of the global virtual registers; distinct ones have disjoint homes. -/
structure StateInfo where
  regs : List StateReg
  apart : regs.Pairwise StateReg.Apart

/-- `VRegsInfo`: the global registers and the types of the local ones. -/
structure VRegsInfo where
  globInfo : StateInfo
  locInfo : List VType

namespace VRegsInfo

/-- `NumAll`: the registers of both kinds. -/
def numAll (vi : VRegsInfo) : ℕ := vi.globInfo.regs.length + vi.locInfo.length

/-- `IsGlobal`: the global registers have the first numbers. -/
def isGlobal (vi : VRegsInfo) (idx : ℕ) : Bool := idx < vi.globInfo.regs.length

/-- `GetGlobalInfo`, `none` for a local register. -/
def getGlobalInfo (vi : VRegsInfo) (idx : ℕ) : Option StateReg := vi.globInfo.regs[idx]?

/-- Distinct globals have disjoint homes. -/
lemma homes_apart {vi : VRegsInfo} {v w : ℕ} {g k : StateReg} (hv : vi.getGlobalInfo v = some g)
    (hw : vi.getGlobalInfo w = some k) (hne : v ≠ w) : g.Apart k := by
  obtain ⟨hvl, rfl⟩ := List.getElem?_eq_some_iff.mp hv
  obtain ⟨hwl, rfl⟩ := List.getElem?_eq_some_iff.mp hw
  have hpw := List.pairwise_iff_getElem.mp vi.globInfo.apart
  rcases Nat.lt_or_gt_of_ne hne with hlt | hgt
  · exact hpw v w hvl hwl hlt
  · exact (hpw w v hwl hvl hgt).symm

/-- `GetLocalType`, `none` for a global register or one that was never added. -/
def getLocalType (vi : VRegsInfo) (idx : ℕ) : Option VType :=
  if vi.isGlobal idx then none else vi.locInfo[idx - vi.globInfo.regs.length]?

/-- The type of a virtual register of either kind. -/
def vregType (vi : VRegsInfo) (idx : ℕ) : Option VType :=
  match vi.getGlobalInfo idx with
  | some g => some g.type
  | none => vi.getLocalType idx

/-- `AddLocal`; the number of the new register is cut to the 16 bits of `RegN`. -/
def addLocal (vi : VRegsInfo) (type : VType) : ℕ × VRegsInfo :=
  ((vi.locInfo.length + vi.globInfo.regs.length) % 2 ^ 16,
    { vi with locInfo := vi.locInfo ++ [type] })

lemma lt_numAll {vi : VRegsInfo} {idx : ℕ} {t : VType} (h : vi.vregType idx = some t) :
    idx < vi.numAll := by
  simp only [vregType, getGlobalInfo, getLocalType, isGlobal] at h
  simp only [numAll]
  by_contra hge
  rw [List.getElem?_eq_none (by omega)] at h
  simp only [decide_eq_true_eq, show ¬ idx < vi.globInfo.regs.length by omega, if_false] at h
  rw [List.getElem?_eq_none (by omega)] at h
  cases h

@[simp] lemma numAll_addLocal (vi : VRegsInfo) (t : VType) :
    (vi.addLocal t).2.numAll = vi.numAll + 1 := by
  simp [addLocal, numAll, Nat.add_assoc]

@[simp] lemma globInfo_addLocal (vi : VRegsInfo) (t : VType) :
    (vi.addLocal t).2.globInfo = vi.globInfo := rfl

/-- Access to a global register at most at its type. -/
lemma le_of_vregType {vi : VRegsInfo} {v : ℕ} {t t₀ : VType} (h : vi.vregType v = some t₀)
    (hle : t.toSize ≤ t₀.toSize) {g : StateReg} (hg : vi.getGlobalInfo v = some g) :
    t.toSize ≤ g.type.toSize := by
  simp only [vregType, hg, Option.some.injEq] at h
  rwa [h]

/-- As long as the numbers fit, a new register gets the next one. -/
lemma addLocal_fst {vi : VRegsInfo} (h : vi.numAll < 2 ^ 16) (t : VType) :
    (vi.addLocal t).1 = vi.numAll := by
  simp only [numAll] at h
  rw [addLocal, numAll, Nat.add_comm]
  exact Nat.mod_eq_of_lt h

/-- The registers of `vi'` are those of `vi` and perhaps further local ones. -/
def Extends (vi vi' : VRegsInfo) : Prop :=
  vi'.globInfo = vi.globInfo ∧ ∃ l, vi'.locInfo = vi.locInfo ++ l

namespace Extends

variable {vi vi' vi'' : VRegsInfo}

lemma refl (vi : VRegsInfo) : vi.Extends vi := ⟨rfl, [], by simp⟩

lemma trans (h : vi.Extends vi') (h' : vi'.Extends vi'') : vi.Extends vi'' := by
  obtain ⟨hg, l, hl⟩ := h
  obtain ⟨hg', l', hl'⟩ := h'
  exact ⟨hg'.trans hg, l ++ l', by rw [hl', hl, List.append_assoc]⟩

lemma addLocal (vi : VRegsInfo) (t : VType) : vi.Extends (vi.addLocal t).2 := ⟨rfl, [t], rfl⟩

lemma numAll_le (h : vi.Extends vi') : vi.numAll ≤ vi'.numAll := by
  obtain ⟨hg, l, hl⟩ := h
  simp [numAll, hg, hl]

/-- A register that was there before has kept its type. -/
lemma vregType (h : vi.Extends vi') {v : ℕ} (hv : v < vi.numAll) :
    vi'.vregType v = vi.vregType v := by
  obtain ⟨hg, l, hl⟩ := h
  simp only [numAll] at hv
  simp only [VRegsInfo.vregType, getGlobalInfo, getLocalType, isGlobal, hg, hl]
  by_cases hg : v < vi.globInfo.regs.length
  · simp [hg]
  · have hlt : v - vi.globInfo.regs.length < vi.locInfo.length := by omega
    simp [hg, List.getElem?_append_left hlt]

end Extends

/-- The type of the new register. -/
lemma vregType_addLocal_self (vi : VRegsInfo) (t : VType) :
    (vi.addLocal t).2.vregType vi.numAll = some t := by
  simp [addLocal, vregType, getGlobalInfo, getLocalType, isGlobal, numAll]

lemma getGlobalInfo_of_ge {vi : VRegsInfo} {v : ℕ} (h : vi.numAll ≤ v) :
    vi.getGlobalInfo v = none := by
  simp only [numAll] at h
  exact List.getElem?_eq_none (by omega)

end VRegsInfo

/-- A register that exists is accessed at its type or a narrower one. -/
def VOperand.Sized (vi : VRegsInfo) : VOperand → Prop
  | .vgpr t v => ∃ t₀, vi.vregType v = some t₀ ∧ t.toSize ≤ t₀.toSize
  | _ => True

/-- A basic block: its instructions and the identifiers of its successors. -/
structure Block where
  ilist : List Inst := []
  succs : List ℕ := []
deriving DecidableEq

/-- A region: its blocks in the order of their identifiers, and its virtual registers. -/
structure Region where
  blist : List Block
  vregsInfo : VRegsInfo

namespace Region

/-- `CreateBlock`: the new block gets the next identifier. -/
def createBlock (r : Region) : ℕ × Region :=
  (r.blist.length, { r with blist := r.blist ++ [{}] })

/-- Changes one block. -/
def modifyBlock (r : Region) (b : ℕ) (f : Block → Block) : Region :=
  { r with blist := r.blist.modify b f }

/-- `Block::AddSucc`. -/
def addSucc (r : Region) (b succ : ℕ) : Region :=
  r.modifyBlock b fun blk => { blk with succs := blk.succs ++ [succ] }

end Region

end Qir

end Rv32jit
