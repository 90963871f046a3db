/-
# The emitter is correct

A state of the region and one of the machine are related if the registers of the pool hold the
values of the physical registers in their lower halves, and the CPU state, the spill frame and the
guest memory are the same.  The code of every operation keeps the relation.
-/
import Rv32jit.Codegen.Emit
import Rv32jit.Ir.Semantics

namespace Rv32jit

/-! ### Conditions -/

namespace Qir.CondCode

variable (cc : CondCode) (a b : BitVec 32)

lemma holds_swap : cc.swap.holds b a = cc.holds a b := by
  cases cc with
  | EQ => exact Bool.beq_comm
  | NE => exact congrArg not Bool.beq_comm
  | _ => rfl

/-- After the comparison of two operands the flags decide the condition. -/
lemma holds_makeCc : (Qcg.makeCc cc).holds (.sub a b) = cc.holds a b := by
  rw [X86.Asm.Cc.holds_sub]
  cases cc <;> rfl

end Qir.CondCode

namespace Qcg

open Qir ArchTraits
open X86.Asm hiding SP CX

/-! ### The operands of the emitter -/

/-- The registers that the allocator hands out. -/
def Pool (p : ℕ) : Prop := p < GPR_NUM ∧ GPR_FIXED.test p = false

instance (p : ℕ) : Decidable (Pool p) := inferInstanceAs (Decidable (_ ∧ _))

lemma pool_rcx : Pool RCX := by decide

lemma Pool.ne {p : ℕ} (hp : Pool p) : p ≠ STATE ∧ p ≠ MEMBASE ∧ p ≠ SP := by
  refine ⟨?_, ?_, ?_⟩ <;>
  · rintro rfl
    exact absurd hp.2 (by decide)

/-- An operand of a given size: a constant, a register of the pool, a home in the CPU state, or a
slot inside the spill frame. -/
def Operand (sz : Size) (o : VOperand) : Prop :=
  vtypeSize o.getType = some sz ∧ match o with
    | .const _ _ | .slot true _ _ => True
    | .pgpr _ p => Pool p
    | .slot false _ offs => offs + sz.bytes ≤ spillframe_size
    | .vgpr _ _ | .bad => False

lemma Operand.isReadable {sz : Size} {o : VOperand} (h : Operand sz o) : o.isReadable = true := by
  cases o <;> first | rfl | exact h.2.elim

lemma toSize_of_vtypeSize {t : VType} {sz : Size} (h : vtypeSize t = some sz) :
    t.toSize = sz.bytes ∧ 8 * sz.bytes = sz.bits ∧ sz ≠ .q ∧ sz.bits ≤ 32 := by
  cases t <;> cases h <;> decide

lemma Operand.cases {sz : Size} {o : VOperand} (h : Operand sz o) :
    (∃ t c, o = .const t c ∧ vtypeSize t = some sz) ∨
      (∃ t p, o = .pgpr t p ∧ vtypeSize t = some sz ∧ Pool p) ∨
      (∃ t offs, o = .slot true t offs ∧ vtypeSize t = some sz) ∨
      ∃ t offs, o = .slot false t offs ∧ vtypeSize t = some sz ∧
        offs + sz.bytes ≤ spillframe_size := by
  obtain ⟨ht, hplace⟩ := h
  cases o with
  | const t c => exact Or.inl ⟨t, c, rfl, ht⟩
  | pgpr t p => exact Or.inr (Or.inl ⟨t, p, rfl, ht, hplace⟩)
  | slot isGlob t offs =>
    cases isGlob
    · exact Or.inr (Or.inr (Or.inr ⟨t, offs, rfl, ht, hplace⟩))
    · exact Or.inr (Or.inr (Or.inl ⟨t, offs, rfl, ht⟩))
  | vgpr _ _ => exact hplace.elim
  | bad => exact hplace.elim

section
variable (ce : QEmit)

/-- The operand that the assembler gets. -/
def asmOpnd (sz : Size) : VOperand → Opnd Obj
  | .const _ c => .imm (c.setWidth 64)
  | .slot true _ offs => .mem sz (.base STATE offs)
  | .slot false _ offs => .mem sz (.base SP (offs + ce.spillframe_sp_offs))
  | .pgpr _ p | .vgpr _ p => .reg sz p
  | .bad => .imm 0

variable {ce} {sz : Size} {o : VOperand}

lemma spillframe_sp_offs_le (ce : QEmit) :
    8 ≤ ce.spillframe_sp_offs ∧ ce.spillframe_sp_offs ≤ 16 := by
  rw [QEmit.spillframe_sp_offs]
  split <;> decide

lemma size_asmOpnd (ho : Operand sz o) (hc : o.isConst = false) :
    (asmOpnd ce sz o).size = some sz := by
  obtain ⟨t, c, rfl, -⟩ | ⟨t, p, rfl, -⟩ | ⟨t, offs, rfl, -⟩ | ⟨t, offs, rfl, -⟩ := ho.cases
  · cases hc
  · rfl
  · rfl
  · rfl

/-- An operand behind a register. -/
lemma fits_reg {p : ℕ} {b : VOperand} (hb : Operand sz b) :
    (Opnd.reg sz p).fits (asmOpnd ce sz b) = true := by
  obtain ⟨t, c, rfl, -⟩ | ⟨t, q, rfl, -⟩ | ⟨t, offs, rfl, -⟩ | ⟨t, offs, rfl, -⟩ := hb.cases
  · rfl
  · exact beq_self_eq_true sz
  · exact beq_self_eq_true sz
  · exact beq_self_eq_true sz

/-- An operand behind an address. -/
lemma fits_mem {m : Mem} {b : VOperand} (hb : Operand sz b) (hs : b.isSlot = false) :
    (Opnd.mem sz m).fits (asmOpnd ce sz b) = true := by
  obtain ⟨t, c, rfl, -⟩ | ⟨t, q, rfl, -⟩ | ⟨t, offs, rfl, -⟩ | ⟨t, offs, rfl, -⟩ := hb.cases
  · rfl
  · exact beq_self_eq_true sz
  · cases hs
  · cases hs

/-- Of two operands at most one is in memory, and the first is no constant. -/
lemma fits_asmOpnd {a b : VOperand} (ha : Operand sz a) (hb : Operand sz b)
    (hc : a.isConst = false) (hs : a.isSlot = false ∨ b.isSlot = false) :
    (asmOpnd ce sz a).fits (asmOpnd ce sz b) = true := by
  obtain ⟨t, c, rfl, -⟩ | ⟨t, p, rfl, -⟩ | ⟨t, offs, rfl, -⟩ | ⟨t, offs, rfl, -⟩ := ha.cases
  · cases hc
  · exact fits_reg hb
  · exact fits_mem hb (hs.resolve_left Bool.noConfusion)
  · exact fits_mem hb (hs.resolve_left Bool.noConfusion)

lemma makeOperand_eq (ho : Operand sz o) : ce.makeOperand o = some (asmOpnd ce sz o) := by
  obtain ⟨t, c, rfl, ht⟩ | ⟨t, p, rfl, ht, -⟩ | ⟨t, offs, rfl, ht⟩ | ⟨t, offs, rfl, ht, hoffs⟩ :=
    ho.cases
  · rfl
  · simp [QEmit.makeOperand, makeGpr, VOperand.getType, ht, getPGPR, asmOpnd, Gp.opnd]
  · simp [QEmit.makeOperand, QEmit.makeSlot, ht, asmOpnd]
  · have hmod : (offs + ce.spillframe_sp_offs) % 2 ^ 16 = offs + ce.spillframe_sp_offs := by
      have := spillframe_sp_offs_le ce
      simp only [spillframe_size] at hoffs
      exact Nat.mod_eq_of_lt (by omega)
    simp only [QEmit.makeOperand, QEmit.makeSlot, ht, asmOpnd, hmod]
    rfl

end

/-! ### Related states -/

/-- What stays around the code of a region: where the stack pointer is while a block runs, the
register `MEMBASE`, and the stack outside the spill frame. -/
structure Frame where
  sp : ℕ
  membase : Val Obj
  outer : ByteMem
  /-- There is room for a return address. -/
  room : 8 ≤ sp

section
variable (h : Host Obj RuntimeStubId) (ce : QEmit) (F : Frame)

/-- The machine is in the state of the region. -/
structure Rel (s : QState) (x : State Obj) : Prop where
  state : x.regs STATE = .ptr .state 0
  membase : x.regs MEMBASE = F.membase
  sp : x.regs SP = .ptr .stack F.sp
  regs : ∀ p, Pool p → ((x.regs p).bits h).setWidth 32 = s.preg p
  cpu : x.mem (some .state) = s.cpu
  mem : x.mem none = s.mem
  frame : ∀ i < spillframe_size,
    x.mem (some .stack) (F.sp + ce.spillframe_sp_offs + i) = s.frame i
  outer : ∀ a, F.sp ≤ a → (a < F.sp + ce.spillframe_sp_offs ∨
    F.sp + ce.spillframe_sp_offs + spillframe_size ≤ a) → x.mem (some .stack) a = F.outer a

end

namespace Rel

variable {h : Host Obj RuntimeStubId} {ce : QEmit} {F : Frame} {s : QState} {x : State Obj}
  {sz : Size} {o : VOperand}

lemma flags (hr : Rel h ce F s x) (f : Flags) : Rel h ce F s { x with flags := f } :=
  ⟨hr.state, hr.membase, hr.sp, hr.regs, hr.cpu, hr.mem, hr.frame, hr.outer⟩

lemma setReg {p : ℕ} {w : Val Obj} {v : BitVec 32} (hr : Rel h ce F s x) (hp : Pool p)
    (hv : (w.bits h).setWidth 32 = v) :
    Rel h ce F { s with preg := Function.update s.preg p v } (x.setReg p w) := by
  obtain ⟨hstate, hmembase, hsp⟩ := hp.ne
  refine ⟨?_, ?_, ?_, fun q hq => ?_, hr.cpu, hr.mem, hr.frame, hr.outer⟩
  · rw [State.setReg_of_ne hstate.symm]
    exact hr.state
  · rw [State.setReg_of_ne hmembase.symm]
    exact hr.membase
  · rw [State.setReg_of_ne hsp.symm]
    exact hr.sp
  · by_cases hqp : q = p
    · subst hqp
      simp only [State.setReg_self, hv, Function.update_self]
    · simp only [State.setReg_of_ne hqp, hr.regs q hq, Function.update_of_ne hqp]

lemma setCpu {m : ByteMem} (hr : Rel h ce F s x) :
    Rel h ce F { s with cpu := m } (x.setMem (some .state) m) :=
  ⟨hr.state, hr.membase, hr.sp, hr.regs, State.setMem_self, hr.mem, hr.frame, hr.outer⟩

lemma setMem {m : ByteMem} (hr : Rel h ce F s x) :
    Rel h ce F { s with mem := m } (x.setMem none m) :=
  ⟨hr.state, hr.membase, hr.sp, hr.regs, hr.cpu, State.setMem_self, hr.frame, hr.outer⟩

/-- A store into the spill frame. -/
lemma setFrame {offs n w : ℕ} {v : BitVec w} (hr : Rel h ce F s x)
    (hoffs : offs + n ≤ spillframe_size) :
    Rel h ce F { s with frame := s.frame.store offs n v } (x.setMem (some .stack)
      ((x.mem (some .stack)).store (F.sp + (offs + ce.spillframe_sp_offs)) n v)) := by
  refine ⟨hr.state, hr.membase, hr.sp, hr.regs, hr.cpu, hr.mem, fun i hi => ?_, fun a ha hout => ?_⟩
  · simp only [State.setMem, Function.update_self]
    by_cases hin : offs ≤ i ∧ i < offs + n
    · simp only [ByteMem.store, hin, show F.sp + (offs + ce.spillframe_sp_offs) ≤
        F.sp + ce.spillframe_sp_offs + i ∧ F.sp + ce.spillframe_sp_offs + i <
        F.sp + (offs + ce.spillframe_sp_offs) + n by omega, and_self, if_true]
      congr 2
      omega
    · rw [ByteMem.store_apply_of_notMem _ (by omega), ByteMem.store_apply_of_notMem _ (by omega)]
      exact hr.frame i hi
  · simp only [State.setMem, Function.update_self]
    rw [ByteMem.store_apply_of_notMem _ (by omega)]
    exact hr.outer a ha hout

variable (vi : VRegsInfo)

/-- What the machine reads is what the region reads. -/
lemma read (hr : Rel h ce F s x) (ho : Operand sz o) :
    x.read h sz (asmOpnd ce sz o) = (readOpr vi s o).setWidth sz.bits := by
  obtain ⟨t, c, rfl, ht⟩ | ⟨t, p, rfl, ht, hp⟩ | ⟨t, offs, rfl, ht⟩ | ⟨t, offs, rfl, ht, hoffs⟩ :=
    ho.cases <;> obtain ⟨hsize, hbits, -, hle⟩ := toSize_of_vtypeSize ht
  · -- a constant
    simp only [asmOpnd, State.read, readOpr, hsize]
    rw [ByteMem.setWidth_lowBytes hbits.ge, BitVec.setWidth_setWidth_of_le _ (by omega)]
  · simp only [asmOpnd, State.read, readOpr, hsize]
    rw [ByteMem.setWidth_lowBytes hbits.ge, ← hr.regs p hp, BitVec.setWidth_setWidth_of_le _ hle]
  · simp only [asmOpnd, State.read, readOpr, hsize, State.resolve, hr.state, Nat.zero_add, hr.cpu]
    rw [ByteMem.setWidth_load _ _ (Or.inr hle)]
  · simp only [asmOpnd, State.read, readOpr, hsize, State.resolve, hr.sp]
    rw [ByteMem.setWidth_load _ _ (Or.inr hle)]
    refine ByteMem.load_congr_at fun i hi => ?_
    rw [← hr.frame (offs + i) (by omega)]
    congr 1
    omega

/-- What the machine writes is what the region writes. -/
lemma write (hr : Rel h ce F s x) (ho : Operand sz o) (hw : o.isWritable = true) (v : BitVec 32) :
    Rel h ce F (writeOpr vi s o v) (x.write h sz (asmOpnd ce sz o) (v.setWidth sz.bits)) := by
  obtain ⟨t, c, rfl, ht⟩ | ⟨t, p, rfl, ht, hp⟩ | ⟨t, offs, rfl, ht⟩ | ⟨t, offs, rfl, ht, hoffs⟩ :=
    ho.cases
  · cases hw
  · have hlow : ∀ n, n ≤ 4 → (ByteMem.setLow n ((x.regs p).bits h)
        ((v.setWidth (8 * n)).setWidth 64)).setWidth 32 = ByteMem.setLow n (s.preg p) v := by
      intro n hn
      rw [ByteMem.setWidth_setLow, hr.regs p hp, BitVec.setWidth_setWidth_of_le _ (by omega),
        ← ByteMem.setLow_lowBytes n _ v, ByteMem.lowBytes]
    cases t <;> cases ht
    · exact hr.setReg hp (hlow 1 (by decide))
    · exact hr.setReg hp (hlow 2 (by decide))
    · refine hr.setReg hp ?_
      rw [Val.bits, VType.toSize, ByteMem.setLow_of_le (by decide)]
      simp
  · obtain ⟨hsize, hbits, -, -⟩ := toSize_of_vtypeSize ht
    simp only [asmOpnd, State.write, State.resolve, hr.state, Nat.zero_add, hr.cpu, writeOpr]
    rw [ByteMem.store_setWidth hbits.le, hsize]
    exact hr.setCpu
  · obtain ⟨hsize, hbits, -, -⟩ := toSize_of_vtypeSize ht
    simp only [asmOpnd, State.write, State.resolve, hr.sp, writeOpr]
    rw [ByteMem.store_setWidth hbits.le, hsize]
    exact hr.setFrame hoffs

lemma read32 (hr : Rel h ce F s x) (ho : Operand .d o) :
    x.read h .d (asmOpnd ce .d o) = readOpr vi s o :=
  (hr.read vi ho).trans (BitVec.setWidth_eq _)

lemma write32 {p : ℕ} (hr : Rel h ce F s x) (hp : Pool p) (v : BitVec 32) :
    Rel h ce F (writeOpr vi s (.pgpr .I32 p) v) (x.write h .d (.reg .d p) v) := by
  have ho : Operand .d (.pgpr .I32 p) := ⟨rfl, hp⟩
  have hwrite := hr.write vi ho rfl v
  rwa [BitVec.setWidth_eq] at hwrite

end Rel

/-! ### Operations that compute -/

section
variable (h : Host Obj RuntimeStubId) (ce : QEmit) (vi : VRegsInfo)

/-- The code does what the instruction does, and goes on. -/
def Computes (is : List Asm) (ins : Inst) : Prop :=
  ∀ F env s x, Rel h ce F s x → (exec env vi ins s).2.1 = .next ∧
    ∃ y, Straight h is x y ∧ Rel h ce F (exec env vi ins s).2.2 y

variable {h ce vi} {F : Frame} {sz : Size} {d : ℕ} {ins : Inst}

/-- An instruction with one output. -/
lemma exec_out {env : HelperEnv} {s : QState} {o : VOperand} {v : BitVec 32}
    (hop : ∀ stub, ins.op ≠ .hcall stub) (hl : ins.legal = true) (ho : ins.o = [o])
    (hev : ∃ acc, ins.op.eval (ins.i.map (readOpr vi s)) s.mem =
      { acc := acc, mem := s.mem, outs := [v] }) :
    (exec env vi ins s).2 = (.next, writeOpr vi s o v) := by
  obtain ⟨acc, hev⟩ := hev
  rw [exec_eq_eval hop hl, hev, ho]
  rfl

lemma computes_mov {o r : VOperand} (ho : Operand sz o) (hw : o.isWritable = true)
    (hr : Operand sz r) (hs : o.isSlot = false ∨ r.isSlot = false) :
    Computes h ce vi [.mov (asmOpnd ce sz o) (asmOpnd ce sz r)] (.mkMov o r) := by
  intro F env s x hx
  have hc : o.isConst = false := by cases o <;> first | rfl | cases hw
  obtain ⟨-, -, hq, -⟩ := toSize_of_vtypeSize ho.1
  have hexec : (exec env vi (.mkMov o r) s).2 = (.next, writeOpr vi s o (readOpr vi s r)) := by
    rw [exec_mkMov hw hr.isReadable]
  refine ⟨by rw [hexec], _, ⟨_, Insn.exec_mov (size_asmOpnd ho hc) hq
    (fits_asmOpnd ho hr hc hs), rfl⟩, ?_⟩
  rw [hexec, hx.read vi hr]
  exact hx.write vi ho hw _

/-- The two-address operations, on the register `d`. -/
lemma computes_alu {alu : Alu} {b : VOperand} (hop : ∀ stub, ins.op ≠ .hcall stub)
    (ho : ins.o = [.pgpr .I32 d]) (hi : ins.i = [.pgpr .I32 d, b])
    (hev : ∀ u v m, ins.op.eval [u, v] m = { mem := m, outs := [alu.eval u v] }) (hd : Pool d)
    (hb : Operand .d b) :
    Computes h ce vi [.alu alu (.reg .d d) (asmOpnd ce .d b)] ins := by
  intro F env s x hx
  have hd' : Operand .d (.pgpr .I32 d) := ⟨rfl, hd⟩
  have hl : ins.legal = true := by
    simp only [Inst.legal, ho, hi, List.all_cons, List.all_nil, hb.isReadable]
    rfl
  have hexec : (exec env vi ins s).2 = (.next, writeOpr vi s (.pgpr .I32 d)
      (alu.eval (readOpr vi s (.pgpr .I32 d)) (readOpr vi s b))) := by
    refine exec_out hop hl ho ⟨[], ?_⟩
    rw [hi]
    exact hev _ _ _
  refine ⟨by rw [hexec], _, ⟨_, rfl, rfl⟩, ?_⟩
  rw [hexec]
  refine Rel.flags ?_ _
  have hsrc : x.read h .d (asmOpnd ce .d b) = readOpr vi s b := hx.read32 vi hb
  have hdst : x.read h .d (.reg .d d) = readOpr vi s (.pgpr .I32 d) := hx.read32 vi hd'
  rw [← hsrc, ← hdst]
  exact hx.write32 vi hd _

/-- The shifts, by a constant or by the low byte of `cx`. -/
lemma computes_shift {op : Shift} {b : VOperand} (hop : ∀ stub, ins.op ≠ .hcall stub)
    (ho : ins.o = [.pgpr .I32 d]) (hi : ins.i = [.pgpr .I32 d, b])
    (hev : ∀ u v m, ins.op.eval [u, v] m = { mem := m, outs := [op.eval u (v.toNat % 32)] })
    (hd : Pool d) (hb : Operand .d b) (hs : b.isSlot = false) :
    Computes h ce vi [.shift op (.reg .d d) (asmOpnd ce .d b)] ins := by
  intro F env s x hx
  have hd' : Operand .d (.pgpr .I32 d) := ⟨rfl, hd⟩
  have hl : ins.legal = true := by
    simp only [Inst.legal, ho, hi, List.all_cons, List.all_nil, hb.isReadable]
    rfl
  have hexec : (exec env vi ins s).2 = (.next, writeOpr vi s (.pgpr .I32 d)
      (op.eval (readOpr vi s (.pgpr .I32 d)) ((readOpr vi s b).toNat % 32))) := by
    refine exec_out hop hl ho ⟨[], ?_⟩
    rw [hi]
    exact hev _ _ _
  refine ⟨by rw [hexec], _, ⟨_, rfl, rfl⟩, ?_⟩
  rw [hexec]
  refine Rel.flags ?_ _
  have hsrc : x.read h .d (asmOpnd ce .d b) = readOpr vi s b := hx.read32 vi hb
  have hlow : x.read h .b (asmOpnd ce .d b) = (x.read h .d (asmOpnd ce .d b)).setWidth 8 := by
    cases b with
    | slot _ _ _ => cases hs
    | _ => exact (BitVec.setWidth_setWidth_of_le _ (by decide)).symm
  have hcount : (x.read h .b (asmOpnd ce .d b)).toNat % 32 = (readOpr vi s b).toNat % 32 := by
    rw [hlow, hsrc, BitVec.toNat_setWidth]
    exact Nat.mod_mod_of_dvd _ (by decide)
  have hdst : x.read h .d (.reg .d d) = readOpr vi s (.pgpr .I32 d) := hx.read32 vi hd'
  rw [← hdst, ← hcount]
  exact hx.write32 vi hd _

/-! ### Guest memory -/

/-- The address that the assembler gets. -/
def asmMem : VOperand → Mem
  | .const _ c => .abs (c.setWidth 64)
  | .pgpr _ p | .vgpr _ p => .base32 p
  | .slot _ _ _ | .bad => .abs 0

variable {s : QState} {x : State Obj} {p : VOperand}

lemma makeVmem_eq (hp : Operand .d p) (hs : p.isSlot = false) :
    makeVmem p = some (asmMem p) := by
  obtain ⟨t, c, rfl, ht⟩ | ⟨t, q, rfl, ht, -⟩ | ⟨t, offs, rfl, -⟩ | ⟨t, offs, rfl, -⟩ := hp.cases
  · rfl
  · cases t <;> cases ht
    rfl
  · cases hs
  · cases hs

lemma Rel.resolve (vi : VRegsInfo) (hx : Rel h ce F s x) (hp : Operand .d p)
    (hs : p.isSlot = false) : x.resolve h (asmMem p) = (none, (readOpr vi s p).toNat) := by
  have hread : x.read h .d (asmOpnd ce .d p) = readOpr vi s p := hx.read32 vi hp
  rw [← hread]
  obtain ⟨t, c, rfl, -⟩ | ⟨t, q, rfl, -⟩ | ⟨t, offs, rfl, -⟩ | ⟨t, offs, rfl, -⟩ := hp.cases
  · simp only [asmMem, asmOpnd, State.resolve, State.read]
    rw [BitVec.setWidth_setWidth_of_le _ (by decide), BitVec.toNat_setWidth_of_le (by decide),
      BitVec.setWidth_eq]
  · rfl
  · cases hs
  · cases hs

lemma computes_vmload {i : Asm} {sz : VType} {sgn : VSign} (hd : Pool d) (hp : Operand .d p)
    (hs : p.isSlot = false)
    (hi : ∀ x : State Obj, i.exec h x = .next (x.write h .d (.reg .d d) (sgn.extend sz
      ((x.mem (x.resolve h (asmMem p)).1).load (x.resolve h (asmMem p)).2 sz.toSize)))) :
    Computes h ce vi [i] (.mkVMLoad sz sgn (.pgpr .I32 d) p) := by
  intro F env s x hx
  have hl : (Inst.mkVMLoad sz sgn (.pgpr .I32 d) p).legal = true := by
    simp only [Inst.legal, Inst.mkVMLoad, List.all_cons, List.all_nil, hp.isReadable]
    rfl
  have hexec : (exec env vi (.mkVMLoad sz sgn (.pgpr .I32 d) p) s).2 = (.next,
      writeOpr vi s (.pgpr .I32 d) (sgn.extend sz (s.mem.load (readOpr vi s p).toNat sz.toSize))) :=
    exec_out (fun _ => Op.noConfusion) hl rfl ⟨_, rfl⟩
  refine ⟨by rw [hexec], _, ⟨_, hi x, rfl⟩, ?_⟩
  rw [hexec, hx.resolve vi hp hs, hx.mem]
  exact hx.write32 vi hd _

lemma computes_vmstore {sz : VType} {n : Size} {v : VOperand} (hsz : vtypeSize sz = some n)
    (hp : Operand .d p) (hs : p.isSlot = false) (hv : Operand n v) (hvs : v.isSlot = false) :
    Computes h ce vi [.mov (.mem n (asmMem p)) (asmOpnd ce n v)] (.mkVMStore sz .U p v) := by
  intro F env s x hx
  obtain ⟨hsize, hbits, hq, -⟩ := toSize_of_vtypeSize hsz
  have hexec : (exec env vi (.mkVMStore sz .U p v) s).2 = (.next,
      { s with mem := s.mem.store (readOpr vi s p).toNat sz.toSize (readOpr vi s v) }) := by
    simp [exec, Inst.legal, Inst.mkVMStore, hp.isReadable, hv.isReadable, Op.eval, writeOuts]
  refine ⟨by rw [hexec], _, ⟨_, Insn.exec_mov rfl hq (fits_mem hv hvs), rfl⟩, ?_⟩
  rw [hexec, hx.read vi hv]
  simp only [State.write, hx.resolve vi hp hs, hx.mem, hsize, ByteMem.store_setWidth hbits.le]
  exact hx.setMem

/-! ### Comparisons -/

/-- Writing a register leaves the operands that are not in it. -/
lemma readOpr_writeOpr_pgpr {t : VType} {o : VOperand} {v : BitVec 32} (ho : getPGPR o ≠ some d) :
    readOpr vi (writeOpr vi s (.pgpr t d) v) o = readOpr vi s o := by
  cases o with
  | pgpr u q =>
    have hne : q ≠ d := fun he => ho (congrArg some he)
    simp only [readOpr, writeOpr, Function.update_of_ne hne]
  | slot isGlob _ _ => cases isGlob <;> rfl
  | _ => rfl

/-- A comparison, and its truth value as the low byte of a register. -/
lemma Rel.cmp_setcc {a b : Opnd Obj} {u v : BitVec 32} (hx : Rel h ce F s x) (vi : VRegsInfo)
    (cc : CondCode) (hd : Pool d) (hsize : a.size = some .d) (ha : x.read h .d a = u)
    (hb : x.read h .d b = v) : ∃ y z,
      (Insn.cmp a b : Asm).exec h x = .next y ∧
      (Insn.setcc (makeCc cc) (.reg .b d) : Asm).exec h y = .next z ∧
      Rel h ce F (writeOpr vi s (.pgpr .I8 d) (if cc.holds u v then 1 else 0)) z := by
  refine ⟨_, _, Insn.exec_cmp hsize, rfl, ?_⟩
  have hbit : (if cc.holds u v then 1 else 0 : BitVec 8) =
      (if cc.holds u v then 1 else 0 : BitVec 32).setWidth 8 := by
    split <;> rfl
  rw [ha, hb, CondCode.holds_makeCc, hbit]
  exact (hx.flags _).write vi (show Operand .b (.pgpr .I8 d) from ⟨rfl, hd⟩) rfl _

/-- The low byte of a register that has been cleared. -/
lemma writeOpr_cleared (c : Prop) [Decidable c] :
    writeOpr vi (writeOpr vi s (.pgpr .I32 d) 0) (.pgpr .I8 d) (if c then 1 else 0) =
      writeOpr vi s (.pgpr .I32 d) (if c then 1 else 0) := by
  simp only [writeOpr, VType.toSize, Function.update_self, Function.update_idem]
  rw [ByteMem.setLow_of_le (n := 4) (by decide), ByteMem.setLow_of_le (n := 4) (by decide)]
  split <;> rfl

/-- The low byte of a register that is extended. -/
lemma writeOpr_extended (c : Prop) [Decidable c] :
    writeOpr vi (writeOpr vi s (.pgpr .I8 d) (if c then 1 else 0)) (.pgpr .I32 d)
        (readOpr vi (writeOpr vi s (.pgpr .I8 d) (if c then 1 else 0)) (.pgpr .I8 d)) =
      writeOpr vi s (.pgpr .I32 d) (if c then 1 else 0) := by
  simp only [writeOpr, readOpr, VType.toSize, Function.update_self, Function.update_idem]
  rw [ByteMem.lowBytes_setLow le_rfl, ByteMem.setLow_of_le (by decide),
    ByteMem.setLow_of_le (by decide)]
  split <;> rfl

section
variable {cc : CondCode} {a : ℕ} {b : VOperand}

lemma exec_setcc {env : HelperEnv} (hb : Operand .d b) :
    (exec env vi (.mkSetcc cc (.pgpr .I32 d) (.pgpr .I32 a) b) s).2 =
      (.next, writeOpr vi s (.pgpr .I32 d)
        (if cc.holds (readOpr vi s (.pgpr .I32 a)) (readOpr vi s b) then 1 else 0)) := by
  refine exec_out (fun _ => Op.noConfusion) ?_ rfl ⟨[], rfl⟩
  simp only [Inst.legal, Inst.mkSetcc, List.all_cons, List.all_nil, hb.isReadable]
  rfl

/-- The destination is cleared first: it is none of the sources. -/
lemma computes_setcc_of_ne (hd : Pool d) (ha : Pool a) (hb : Operand .d b) (had : a ≠ d)
    (hbd : getPGPR b ≠ some d) :
    Computes h ce vi [.alu .xor (.reg .d d) (.reg .d d), .cmp (.reg .d a) (asmOpnd ce .d b),
      .setcc (makeCc cc) (.reg .b d)] (.mkSetcc cc (.pgpr .I32 d) (.pgpr .I32 a) b) := by
  intro F env s x hx
  have hzero : Rel h ce F (writeOpr vi s (.pgpr .I32 d) 0) (x.write h .d (.reg .d d)
      (x.read h .d (.reg .d d) ^^^ x.read h .d (.reg .d d))) := by
    rw [BitVec.xor_self]
    exact hx.write32 vi hd 0
  -- the comparison sees the sources as they were
  have hread : ∀ {o : VOperand} {y : State Obj}, Operand .d o → getPGPR o ≠ some d →
      Rel h ce F (writeOpr vi s (.pgpr .I32 d) 0) y →
      y.read h .d (asmOpnd ce .d o) = readOpr vi s o := by
    intro o y ho hne hy
    rw [← readOpr_writeOpr_pgpr hne]
    exact hy.read32 vi ho
  obtain ⟨y, z, hy, hz, hrel⟩ := (hzero.flags _).cmp_setcc vi cc hd rfl
    (hread (show Operand .d (.pgpr .I32 a) from ⟨rfl, ha⟩) (fun he => had (Option.some.inj he))
      (hzero.flags _)) (hread hb hbd (hzero.flags _))
  refine ⟨by rw [exec_setcc hb], z, ⟨_, rfl, y, hy, z, hz, rfl⟩, ?_⟩
  rw [exec_setcc hb, ← writeOpr_cleared]
  exact hrel

/-- The destination is one of the sources: its upper bytes are cleared afterwards. -/
lemma computes_setcc_of_aliased (hd : Pool d) (ha : Pool a) (hb : Operand .d b) :
    Computes h ce vi [.cmp (.reg .d a) (asmOpnd ce .d b), .setcc (makeCc cc) (.reg .b d),
      .movzx (.reg .d d) (.reg .b d)] (.mkSetcc cc (.pgpr .I32 d) (.pgpr .I32 a) b) := by
  intro F env s x hx
  obtain ⟨y, z, hy, hz, hrel⟩ := hx.cmp_setcc vi cc hd rfl
    (hx.read32 vi (show Operand .d (.pgpr .I32 a) from ⟨rfl, ha⟩)) (hx.read32 vi hb)
  refine ⟨by rw [exec_setcc hb], _, ⟨y, hy, z, hz, _, rfl, rfl⟩, ?_⟩
  rw [exec_setcc hb, ← writeOpr_extended]
  generalize writeOpr vi s (.pgpr .I8 d) _ = s' at hrel
  have hext : (z.read h .b (.reg .b d)).setWidth 32 = readOpr vi s' (.pgpr .I8 d) := by
    have hlow := hrel.read vi (show Operand .b (.pgpr .I8 d) from ⟨rfl, hd⟩)
    calc (z.read h .b (.reg .b d)).setWidth 32
        = ByteMem.lowBytes 1 (readOpr vi s' (.pgpr .I8 d)) := congrArg (BitVec.setWidth 32) hlow
      _ = readOpr vi s' (.pgpr .I8 d) := ByteMem.lowBytes_lowBytes 1 1 _
  rw [← hext]
  exact hrel.write32 vi hd _

end

/-! ### The machine constraints -/

/-- What the emitter needs of an instruction.  Operations are on 32 bits, but for moves and for the
data of a store; at most one operand is a slot, and at most one of a comparison is constant. -/
inductive Constrained (is_leaf : Bool) : Inst → Prop
  | hcall {stub : RuntimeStubId} {c : BitVec 32} (hleaf : is_leaf = false) :
      Constrained is_leaf (.mkHcall stub (.const .I32 c))
  | br : Constrained is_leaf .mkBr
  | brcc {cc : CondCode} {a b : VOperand} (ha : Operand .d a) (hb : Operand .d b)
      (hc : a.isConst = false ∨ b.isConst = false) (hs : a.isSlot = false ∨ b.isSlot = false) :
      Constrained is_leaf (.mkBrcc cc a b)
  | gbr {tpc : BitVec 32} : Constrained is_leaf (.mkGBr tpc)
  | gbrind : Constrained is_leaf (.mkGBrind (.pgpr .I32 RSI))
  | vmload {sz : VType} {sgn : VSign} {d : ℕ} {p : VOperand} (hsz : sz ≠ .UNDEF) (hd : Pool d)
      (hp : Operand .d p) (hs : p.isSlot = false) :
      Constrained is_leaf (.mkVMLoad sz sgn (.pgpr .I32 d) p)
  | vmstore {sz : VType} {n : Size} {p v : VOperand} (hsz : vtypeSize sz = some n)
      (hp : Operand .d p) (hs : p.isSlot = false) (hv : Operand n v) (hvs : v.isSlot = false) :
      Constrained is_leaf (.mkVMStore sz .U p v)
  | setcc {cc : CondCode} {d a : ℕ} {b : VOperand} (hd : Pool d) (ha : Pool a)
      (hb : Operand .d b) : Constrained is_leaf (.mkSetcc cc (.pgpr .I32 d) (.pgpr .I32 a) b)
  | mov {n : Size} {o r : VOperand} (ho : Operand n o) (hw : o.isWritable = true)
      (hr : Operand n r) (hs : o.isSlot = false ∨ r.isSlot = false) :
      Constrained is_leaf (.mkMov o r)
  | binop {mk : VOperand → VOperand → VOperand → Inst} {d : ℕ} {b : VOperand}
      (hmk : mk ∈ [Inst.mkAdd, .mkSub, .mkAnd, .mkOr, .mkXor]) (hd : Pool d) (hb : Operand .d b) :
      Constrained is_leaf (mk (.pgpr .I32 d) (.pgpr .I32 d) b)
  | shift {mk : VOperand → VOperand → VOperand → Inst} {d : ℕ} {b : VOperand}
      (hmk : mk ∈ [Inst.mkSra, .mkSrl, .mkSll]) (hd : Pool d) (hb : Operand .d b)
      (hcx : b.isConst = true ∨ getPGPR b = some RCX) :
      Constrained is_leaf (mk (.pgpr .I32 d) (.pgpr .I32 d) b)

lemma asm_eq {is : List Asm} (he : ∀ i ∈ is, i.encodes = true) : asm is = some (is.map .insn) :=
  if_pos (List.all_eq_true.mpr he)

lemma asm_singleton {i : Asm} (he : i.encodes = true) : asm [i] = some ([i].map .insn) :=
  asm_eq fun j hj => by rwa [List.mem_singleton.mp hj]

lemma emitMov_eq {o r : VOperand} (ho : Operand sz o) (hw : o.isWritable = true)
    (hr : Operand sz r) (hs : o.isSlot = false ∨ r.isSlot = false) :
    ce.emitMov o r = some ([.mov (asmOpnd ce sz o) (asmOpnd ce sz r)].map .insn) := by
  have hc : o.isConst = false := by cases o <;> first | rfl | cases hw
  simp only [QEmit.emitMov, makeOperand_eq ho, makeOperand_eq hr]
  exact asm_singleton (Insn.encodes_mov (fits_asmOpnd ho hr hc hs))

lemma emitInstBinop_eq {op : Opnd Obj → Opnd Obj → Asm} {b : VOperand} (hb : Operand .d b)
    (he : (op (.reg .d d) (asmOpnd ce .d b)).encodes = true) :
    ce.emitInstBinop op (.pgpr .I32 d) (.pgpr .I32 d) b =
      some ([op (.reg .d d) (asmOpnd ce .d b)].map .insn) := by
  have hgpr : makeGpr (.pgpr .I32 d) = some ⟨.d, d⟩ := rfl
  simp only [QEmit.emitInstBinop, hgpr, getPGPR, makeOperand_eq hb, guard, Option.bind_eq_bind,
    Option.bind_some, Option.pure_def, if_true]
  exact asm_singleton he

lemma emitShift_eq {op : Shift} {b : VOperand} (hb : Operand .d b)
    (hcx : b.isConst = true ∨ getPGPR b = some RCX) :
    ce.emitShift op (.pgpr .I32 d) (.pgpr .I32 d) b =
      some ([.shift op (.reg .d d) (asmOpnd ce .d b)].map .insn) := by
  have he : (Insn.shift op (.reg .d d) (asmOpnd ce .d b) : Asm).encodes = true := by
    rcases hcx with hc | hc
    · cases b <;> first | rfl | cases hc
    · cases b with
      | pgpr t q => exact beq_iff_eq.mpr (Option.some.inj hc)
      | _ => cases hc
  simp only [QEmit.emitShift, guard, if_pos hcx]
  exact emitInstBinop_eq hb he

lemma emitVmstore_eq {t : VType} {p v : VOperand} (hsz : vtypeSize t = some sz)
    (hp : Operand .d p) (hs : p.isSlot = false) (hv : Operand sz v) (hvs : v.isSlot = false) :
    ce.emitVmstore t .U p v =
      some ([.mov (.mem sz (asmMem p)) (asmOpnd ce sz v)].map .insn) := by
  simp only [QEmit.emitVmstore, makeOperand_eq hv, makeVmem_eq hp hs, hsz, guard, if_true]
  exact asm_singleton (Insn.encodes_mov (fits_mem hv hvs))

lemma emitSetcc_eq {cc : CondCode} {a : ℕ} {b : VOperand} (hb : Operand .d b) :
    ce.emitSetcc cc (.pgpr .I32 d) (.pgpr .I32 a) b =
      if a = d ∨ getPGPR b = some d then
        some ([.cmp (.reg .d a) (asmOpnd ce .d b), .setcc (makeCc cc) (.reg .b d),
          .movzx (.reg .d d) (.reg .b d)].map .insn)
      else
        some ([.alu .xor (.reg .d d) (.reg .d d), .cmp (.reg .d a) (asmOpnd ce .d b),
          .setcc (makeCc cc) (.reg .b d)].map .insn) := by
  have hgpr : makeGpr (.pgpr .I32 d) = some ⟨.d, d⟩ := rfl
  have ha : ce.makeOperand (.pgpr .I32 a) = some (.reg .d a) := rfl
  have hcmp : (Insn.cmp (.reg .d a) (asmOpnd ce .d b) : Asm).encodes = true := fits_reg hb
  have hps : getPGPR (.pgpr .I32 a) = some a := rfl
  simp only [QEmit.emitSetcc, hgpr, ha, hps, makeOperand_eq hb, Option.bind_eq_bind,
    Option.bind_some]
  split
  · refine asm_eq ?_
    simp only [List.nil_append, List.cons_append, List.forall_mem_cons]
    exact ⟨hcmp, rfl, rfl, by simp⟩
  · refine asm_eq ?_
    simp only [List.append_nil, List.cons_append, List.nil_append, List.forall_mem_cons]
    exact ⟨rfl, hcmp, rfl, by simp⟩

/-- What a load loads at the width of a byte or of two is extended. -/
lemma emitVmload_eq {t : VType} {p : VOperand} (sgn : VSign) (ht : t ≠ .UNDEF)
    (hp : Operand .d p) (hs : p.isSlot = false) : ∃ i : Asm,
      QEmit.emitVmload t sgn (.pgpr .I32 d) p = some ([i].map .insn) ∧
      ∀ x : State Obj, i.exec h x = .next (x.write h .d (.reg .d d) (sgn.extend t
        ((x.mem (x.resolve h (asmMem p)).1).load (x.resolve h (asmMem p)).2 t.toSize))) := by
  have hgpr : makeGpr (.pgpr .I32 d) = some ⟨.d, d⟩ := rfl
  have hU : ∀ (n : ℕ) (m : ByteMem) (a : ℕ),
      (m.load a n : BitVec (8 * n)).setWidth 32 = ByteMem.lowBytes n (m.load a n) := by
    intro n m a
    rw [ByteMem.lowBytes_load, min_self, ByteMem.setWidth_load _ _ (Or.inl le_rfl)]
  have hS : ∀ (n : ℕ) (m : ByteMem) (a : ℕ), 8 * n ≤ 32 →
      (m.load a n : BitVec (8 * n)) = (m.load a n : BitVec 32).setWidth (8 * n) := by
    intro n m a hn
    rw [ByteMem.setWidth_load _ _ (Or.inr hn)]
  cases t with
  | UNDEF => exact absurd rfl ht
  | I8 =>
    cases sgn with
    | U =>
      refine ⟨.movzx (.reg .d d) (.mem .b (asmMem p)), ?_, fun x => ?_⟩
      · simp only [QEmit.emitVmload, makeVmem_eq hp hs]
        rfl
      · rw [VSign.extend, VType.toSize, ← hU 1]
        rfl
    | S =>
      refine ⟨.movsx (.reg .d d) (.mem .b (asmMem p)), ?_, fun x => ?_⟩
      · simp only [QEmit.emitVmload, makeVmem_eq hp hs]
        rfl
      · rw [VSign.extend, VType.toSize, ← hS 1 _ _ (by decide)]
        rfl
  | I16 =>
    cases sgn with
    | U =>
      refine ⟨.movzx (.reg .d d) (.mem .w (asmMem p)), ?_, fun x => ?_⟩
      · simp only [QEmit.emitVmload, makeVmem_eq hp hs]
        rfl
      · rw [VSign.extend, VType.toSize, ← hU 2]
        rfl
    | S =>
      refine ⟨.movsx (.reg .d d) (.mem .w (asmMem p)), ?_, fun x => ?_⟩
      · simp only [QEmit.emitVmload, makeVmem_eq hp hs]
        rfl
      · rw [VSign.extend, VType.toSize, ← hS 2 _ _ (by decide)]
        rfl
  | I32 =>
    refine ⟨.mov (.reg .d d) (.mem .d (asmMem p)), ?_, fun x => ?_⟩
    · simp only [QEmit.emitVmload, makeVmem_eq hp hs]
      rfl
    · have hext : ∀ v : BitVec 32, sgn.extend .I32 v = v := by
        intro v
        cases sgn
        · exact ByteMem.lowBytes_of_le (by decide) v
        · exact (BitVec.signExtend_eq _).trans (BitVec.setWidth_eq v)
      rw [Insn.exec_mov rfl (by decide) rfl, hext]
      rfl

/-- The operations that go on in their block and call nothing have straight code. -/
theorem visit_computes {bb : CurBlock} {label : ℕ} (hc : Constrained ce.is_leaf ins)
    (hstay : ins.op.isTerminator = false) (hcall : ins.op.hasCalls = false) :
    ∃ is, ce.visit bb label ins = some (is.map .insn, label) ∧ Computes h ce vi is ins := by
  cases hc with
  | hcall => cases hcall
  | br => cases hstay
  | brcc => cases hstay
  | gbr => cases hstay
  | gbrind => cases hstay
  | @vmload sz sgn d p hsz hd hp hs =>
    obtain ⟨i, hi, hexec⟩ := emitVmload_eq sgn hsz hp hs
    refine ⟨[i], ?_, computes_vmload hd hp hs hexec⟩
    change (·, label) <$> QEmit.emitVmload sz sgn (.pgpr .I32 d) p = _
    rw [hi]
    rfl
  | @vmstore t sz p v hsz hp hs hv hvs =>
    refine ⟨_, ?_, computes_vmstore hsz hp hs hv hvs⟩
    change (·, label) <$> ce.emitVmstore t .U p v = _
    rw [emitVmstore_eq hsz hp hs hv hvs]
    rfl
  | @setcc cc d a b hd ha hb =>
    have hvisit : ce.visit bb label (.mkSetcc cc (.pgpr .I32 d) (.pgpr .I32 a) b) =
      (·, label) <$> ce.emitSetcc cc (.pgpr .I32 d) (.pgpr .I32 a) b := rfl
    rw [hvisit, emitSetcc_eq hb]
    by_cases hal : a = d ∨ getPGPR b = some d
    · rw [if_pos hal]
      exact ⟨_, rfl, computes_setcc_of_aliased hd ha hb⟩
    · rw [if_neg hal]
      obtain ⟨had, hbd⟩ := not_or.mp hal
      exact ⟨_, rfl, computes_setcc_of_ne hd ha hb had hbd⟩
  | @mov sz o r ho hw hr hs =>
    refine ⟨_, ?_, computes_mov ho hw hr hs⟩
    change (·, label) <$> ce.emitMov o r = _
    rw [emitMov_eq ho hw hr hs]
    rfl
  | @binop mk d b hmk hd hb =>
    have hrun : ∀ alu : Alu,
        (·, label) <$> ce.emitInstBinop (.alu alu) (.pgpr .I32 d) (.pgpr .I32 d) b =
          some ([Insn.alu alu (.reg .d d) (asmOpnd ce .d b)].map .insn, label) := by
      intro alu
      have he : (Insn.alu alu (.reg .d d) (asmOpnd ce .d b) : Asm).encodes = true := fits_reg hb
      rw [emitInstBinop_eq hb he]
      rfl
    simp only [List.mem_cons, List.not_mem_nil, or_false] at hmk
    obtain rfl | rfl | rfl | rfl | rfl := hmk
    · exact ⟨_, hrun .add, computes_alu (fun _ => Op.noConfusion) rfl rfl (fun _ _ _ => rfl) hd hb⟩
    · exact ⟨_, hrun .sub, computes_alu (fun _ => Op.noConfusion) rfl rfl (fun _ _ _ => rfl) hd hb⟩
    · exact ⟨_, hrun .and, computes_alu (fun _ => Op.noConfusion) rfl rfl (fun _ _ _ => rfl) hd hb⟩
    · exact ⟨_, hrun .or, computes_alu (fun _ => Op.noConfusion) rfl rfl (fun _ _ _ => rfl) hd hb⟩
    · exact ⟨_, hrun .xor, computes_alu (fun _ => Op.noConfusion) rfl rfl (fun _ _ _ => rfl) hd hb⟩
  | @shift mk d b hmk hd hb hcx =>
    have hs : b.isSlot = false := by
      rcases hcx with hc | hc <;> cases b <;> first | rfl | cases hc
    have hrun : ∀ op : Shift, (·, label) <$> ce.emitShift op (.pgpr .I32 d) (.pgpr .I32 d) b =
        some ([Insn.shift op (.reg .d d) (asmOpnd ce .d b)].map .insn, label) := by
      intro op
      rw [emitShift_eq hb hcx]
      rfl
    simp only [List.mem_cons, List.not_mem_nil, or_false] at hmk
    obtain rfl | rfl | rfl := hmk
    · exact ⟨_, hrun .sar,
        computes_shift (fun _ => Op.noConfusion) rfl rfl (fun _ _ _ => rfl) hd hb hs⟩
    · exact ⟨_, hrun .shr,
        computes_shift (fun _ => Op.noConfusion) rfl rfl (fun _ _ _ => rfl) hd hb hs⟩
    · exact ⟨_, hrun .shl,
        computes_shift (fun _ => Op.noConfusion) rfl rfl (fun _ _ _ => rfl) hd hb hs⟩

end

end Qcg

end Rv32jit
