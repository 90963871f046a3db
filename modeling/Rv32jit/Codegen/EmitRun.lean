/-
# The code of a region does what its blocks do

Control that leaves a block is at the first instruction of a successor, at a branch slot, at the
code that the cache or the slow path has for the target of an indirect branch, or gone with a trap.
-/
import Rv32jit.Codegen.EmitCorrect
import Rv32jit.Codegen.WellFormed
import Rv32jit.Runtime.Brind

namespace Rv32jit.Qcg

open Qir ArchTraits
open X86.Asm hiding SP CX

/-! ### The host -/

/-- What a call leaves alone: the registers that are not clobbered, and the stack of the caller. -/
structure Saved (sp : ℕ) (x y : State Obj) : Prop where
  regs : ∀ p, GPR_CALL_CLOBBER.test p = false → y.regs p = x.regs p
  stack : ∀ a, sp ≤ a → y.mem (some .stack) a = x.mem (some .stack) a

namespace Saved

variable {sp p : ℕ} {x y z : State Obj}

lemma setReg {v : Val Obj} (hp : GPR_CALL_CLOBBER.test p = true) : Saved sp x (x.setReg p v) := by
  refine ⟨fun q hq => State.setReg_of_ne ?_, fun _ _ => rfl⟩
  rintro rfl
  exact absurd (hp.symm.trans hq) (by decide)

lemma trans (hxy : Saved sp x y) (hyz : Saved sp y z) : Saved sp x z :=
  ⟨fun p hp => (hyz.regs p hp).trans (hxy.regs p hp),
    fun a ha => (hyz.stack a ha).trans (hxy.stack a ha)⟩

end Saved

/-- What a stub does with its argument, the CPU state and the guest memory. -/
abbrev Helper : Type := RuntimeStubId → BitVec 32 → ByteMem → ByteMem → HelperRes

/-- The stubs are the helpers: the CPU state is passed in `rdi` and the argument in `esi`, and
only the helper of indirect branches is known to return. -/
structure Calls (helper : Helper) (h : Host Obj RuntimeStubId) : Prop where
  call : ∀ stub x sp, x.regs RDI = .ptr .state 0 → x.regs SP = .ptr .stack sp →
    ∃ y, h.call stub x = some (y, (helper stub (((x.regs RSI).bits h).setWidth 32)
        (x.mem (some .state)) (x.mem none)).trap) ∧
      y.mem (some .state) = (helper stub (((x.regs RSI).bits h).setWidth 32)
        (x.mem (some .state)) (x.mem none)).cpu ∧
      y.mem none = (helper stub (((x.regs RSI).bits h).setWidth 32)
        (x.mem (some .state)) (x.mem none)).mem ∧ Saved sp x y
  brind : ∀ gip cpu mem, (helper .brind gip cpu mem).trap = false

/-- The instructions of a block in turn, with the way in which control leaves them.  What the
helpers leave in the clobbered registers is arbitrary. -/
def Does (helper : Helper) (vi : VRegsInfo) : List Inst → QState → Flow × QState → Prop
  | [], s, r => r = (.stuck, s)
  | ins :: rest, s, r => ∃ clobber,
      if (exec ⟨helper, clobber⟩ vi ins s).2.1 = .next then
        Does helper vi rest (exec ⟨helper, clobber⟩ vi ins s).2.2 r
      else r = (exec ⟨helper, clobber⟩ vi ins s).2

/-! ### Leaving a block -/

section
variable (h : Host Obj RuntimeStubId) (ce : QEmit) (F : Frame)

/-- The frame of the region is destroyed. -/
structure Left (s : QState) (y : State Obj) : Prop where
  state : y.regs STATE = .ptr .state 0
  membase : y.regs MEMBASE = F.membase
  sp : y.regs SP = .ptr .stack (F.sp + if ce.is_leaf then 0 else 8)
  cpu : y.mem (some .state) = s.cpu
  mem : y.mem none = s.mem
  outer : ∀ a, F.sp ≤ a → (a < F.sp + ce.spillframe_sp_offs ∨
    F.sp + ce.spillframe_sp_offs + spillframe_size ≤ a) → y.mem (some .stack) a = F.outer a

/-- The place behind a block. -/
def Behind (code : Code) (bb : CurBlock) (pos : ℕ) : Prop :=
  match bb.next with
  | some b => labelPos code b = some pos
  | none => pos = code.length

/-- Where the machine is when control has left a block: at a successor, at the slot of a branch, on
its way to the target of an indirect branch, or gone; and behind a block that does not leave. -/
inductive Leaves (code : Code) (bb : CurBlock) : Flow → QState → Cfg Obj BranchSlot → Prop
  | br {k b pos : ℕ} {s : QState} {y : State Obj} (hb : bb.succs[k]? = some b)
      (hpos : labelPos code b = some pos) (hr : Rel h ce F s y) :
      Leaves code bb (.br k) s (.at pos y)
  | gbr {ip : BitVec 32} {s : QState} {y : State Obj} (hl : Left ce F s y) :
      Leaves code bb (.gbr ip) s (.data ⟨ip, !ce.segment.inSegment ip⟩ y)
  /-- The entry of the cache is the one for the target. -/
  | cached {ip : BitVec 32} {s : QState} {y : State Obj}
      (hgip : (y.mem (some .l1_brind_cache)).load (Runtime.brindOffset ip).toNat 4 = ip)
      (hl : Left ce F s y) :
      Leaves code bb (.gbrind ip) s (.left
        (.word ((y.mem (some .l1_brind_cache)).load ((Runtime.brindOffset ip).toNat + 8) 8)) y)
  /-- The slow path was called for the target, in the state of the region. -/
  | slowpath {ip : BitVec 32} {s : QState} {z z' y : State Obj}
      (hstate : z.regs RDI = .ptr .state 0) (hip : ((z.regs RSI).bits h).setWidth 32 = ip)
      (hcpu : z.mem (some .state) = s.cpu) (hmem : z.mem none = s.mem)
      (hcall : h.call .brind z = some (z', false))
      (hl : Left ce F { s with cpu := z'.mem (some .state), mem := z'.mem none } y) :
      Leaves code bb (.gbrind ip) s (.left (z'.regs RAX) y)
  | trap {s : QState} {y : State Obj} (hcpu : y.mem (some .state) = s.cpu)
      (hmem : y.mem none = s.mem) : Leaves code bb .trap s (.trap y)
  | off {pos : ℕ} {s : QState} {y : State Obj} (hpos : Behind code bb pos)
      (hr : Rel h ce F s y) : Leaves code bb .stuck s (.at pos y)

end

/-! ### Calls -/

section
variable {helper : Helper} {h : Host Obj RuntimeStubId} {ce : QEmit} {F : Frame} {vi : VRegsInfo}
  {s : QState} {x y : State Obj} {code : Code} {bb : CurBlock} {pos label : ℕ}

/-- A state behind a call: the clobbered registers hold what the call has left in them. -/
lemma Rel.call {cpu mem : ByteMem} {g : ℕ → BitVec 32} (hx : Rel h ce F s x)
    (hs : Saved F.sp x y) (hcpu : y.mem (some .state) = cpu) (hmem : y.mem none = mem)
    (hg : ∀ p, g p = if GPR_CALL_CLOBBER.test p then ((y.regs p).bits h).setWidth 32
      else s.preg p) :
    Rel h ce F { s with cpu := cpu, mem := mem, preg := g } y := by
  refine ⟨?_, ?_, ?_, fun p hp => ?_, hcpu, hmem, fun i hi => ?_, fun a ha hout => ?_⟩
  · rw [hs.regs STATE (by decide)]
    exact hx.state
  · rw [hs.regs MEMBASE (by decide)]
    exact hx.membase
  · rw [hs.regs SP (by decide)]
    exact hx.sp
  · refine Eq.trans ?_ (hg p).symm
    split
    · rfl
    · rename_i hclob
      rw [hs.regs p (Bool.eq_false_iff.mpr hclob)]
      exact hx.regs p hp
  · rw [hs.stack _ (by omega)]
    exact hx.frame i hi
  · rw [hs.stack a ha]
    exact hx.outer a ha hout

lemma emitHcall_eq {stub : RuntimeStubId} {c : BitVec 32} (hleaf : ce.is_leaf = false) :
    ce.emitHcall stub (.const .I32 c) = some ([.mov (.reg .q RDI) (.reg .q STATE),
      .mov (.reg .q RSI) (.imm (c.setWidth 64)), .call stub].map .insn) := by
  simp only [QEmit.emitHcall, hleaf]
  rfl

/-- A helper returns, or raises a trap. -/
lemma reaches_hcall (vi : VRegsInfo) {stub : RuntimeStubId} {c : BitVec 32} (hc : Calls helper h)
    (hp : Placed code pos ([Insn.mov (.reg .q RDI) (.reg .q STATE),
      .mov (.reg .q RSI) (.imm (c.setWidth 64)), .call stub].map .insn)) (hx : Rel h ce F s x) :
    ∃ clobber y,
      ((exec ⟨helper, clobber⟩ vi (.mkHcall stub (.const .I32 c)) s).2.1 = .next ∧
        Reaches h code (.at pos x) (.at (pos + 3) y) ∧
        Rel h ce F (exec ⟨helper, clobber⟩ vi (.mkHcall stub (.const .I32 c)) s).2.2 y) ∨
      ((exec ⟨helper, clobber⟩ vi (.mkHcall stub (.const .I32 c)) s).2.1 = .trap ∧
        Reaches h code (.at pos x) (.trap y) ∧
        y.mem (some .state) =
          (exec ⟨helper, clobber⟩ vi (.mkHcall stub (.const .I32 c)) s).2.2.cpu ∧
        y.mem none = (exec ⟨helper, clobber⟩ vi (.mkHcall stub (.const .I32 c)) s).2.2.mem) := by
  have harg : readOpr vi s (.const .I32 c) = c := ByteMem.lowBytes_of_le (by decide) c
  have hexec : ∀ clobber, (exec ⟨helper, clobber⟩ vi (.mkHcall stub (.const .I32 c)) s).2 =
      (if (helper stub c s.cpu s.mem).trap then .trap else .next,
        { s with
          cpu := (helper stub c s.cpu s.mem).cpu
          mem := (helper stub c s.cpu s.mem).mem
          preg := fun p => if GPR_CALL_CLOBBER.test p then clobber stub s.preg s.cpu s.mem p
            else s.preg p }) := by
    intro clobber
    simp only [exec, Inst.mkHcall, List.map_cons, List.map_nil, List.headD_cons, harg]
    rfl
  -- the arguments
  let z := (x.setReg RDI (x.regs STATE)).setReg RSI (.word ((c.setWidth 64).setWidth 64))
  have hargs : Reaches h code (.at pos x) (.at (pos + 1 + 1) z) :=
    (Reaches.insn hp.head rfl).trans (Reaches.insn hp.tail.head rfl)
  have hxz : Saved F.sp x z := (Saved.setReg (by decide)).trans (Saved.setReg (by decide))
  have hrdi : z.regs RDI = .ptr .state 0 := hx.state
  have hrsi : ((z.regs RSI).bits h).setWidth 32 = c := by
    change ((c.setWidth 64).setWidth 64).setWidth 32 = c
    simp
  obtain ⟨y, hcall, hcpu, hmem, hsaved⟩ :=
    hc.call stub z F.sp hrdi ((hxz.regs SP (by decide)).trans hx.sp)
  have hzcpu : z.mem (some .state) = s.cpu := hx.cpu
  have hzmem : z.mem none = s.mem := hx.mem
  rw [hrsi, hzcpu, hzmem] at hcall hcpu hmem
  -- what the call leaves in the registers
  refine ⟨fun _ _ _ _ p => ((y.regs p).bits h).setWidth 32, y, ?_⟩
  rw [hexec]
  cases htrap : (helper stub c s.cpu s.mem).trap with
  | false =>
    rw [htrap] at hcall
    have hi : (Insn.call stub : Asm).exec h z = .next y := by
      simp only [Insn.exec, hcall]
    exact Or.inl ⟨rfl, hargs.trans (Reaches.insn hp.tail.tail.head hi),
      hx.call (hxz.trans hsaved) hcpu hmem fun _ => rfl⟩
  | true =>
    rw [htrap] at hcall
    have hi : (Insn.call stub : Asm).exec h z = .trap y := by
      simp only [Insn.exec, hcall]
    exact Or.inr ⟨rfl, hargs.trans (Reaches.trap hp.tail.tail.head hi), hcpu, hmem⟩

end

/-! ### Branches -/

section
variable (h : Host Obj RuntimeStubId) (ce : QEmit) (vi : VRegsInfo)

/-- The code passes control on in the way the instruction does. -/
def Exits (bb : CurBlock) (items : Code) (ins : Inst) : Prop :=
  ∀ F code pos s x, (labels code).Nodup → Placed code pos items →
    Behind code bb (pos + items.length) → (∀ b ∈ bb.succs, b ∈ labels code) → Rel h ce F s x →
    ∀ env, ∃ c, Reaches h code (.at pos x) c ∧
      Leaves h ce F code bb (exec env vi ins s).2.1 (exec env vi ins s).2.2 c

variable {h ce vi} {F : Frame} {bb : CurBlock} {code : Code} {pos b : ℕ} {s : QState}
  {x : State Obj}

lemma encodes_jmpUnlessNext (bb : CurBlock) (b : ℕ) :
    ∀ i ∈ QEmit.jmpUnlessNext bb b, i.encodes = true := by
  intro i hi
  rw [QEmit.jmpUnlessNext] at hi
  split at hi
  · cases hi
  · rw [List.mem_singleton.mp hi]
    rfl

lemma labelPos_of_mem (hn : (labels code).Nodup) (hb : b ∈ labels code) :
    ∃ pos, labelPos code b = some pos := by
  obtain ⟨pos, hpos⟩ := mem_labels.mp hb
  exact ⟨pos, labelPos_of_get hn hpos⟩

/-- With or without the jump control comes to the label. -/
lemma reaches_jmpUnlessNext (hn : (labels code).Nodup)
    (hp : Placed code pos ((QEmit.jmpUnlessNext bb b).map .insn))
    (hbehind : Behind code bb (pos + (QEmit.jmpUnlessNext bb b).length)) (hb : b ∈ labels code) :
    ∃ pos', labelPos code b = some pos' ∧ Reaches h code (.at pos x) (.at pos' x) := by
  rw [QEmit.jmpUnlessNext] at hp hbehind
  split at hbehind
  · rename_i hnext
    rw [Behind, hnext] at hbehind
    exact ⟨pos, hbehind, .refl _⟩
  · rename_i hnext
    rw [if_neg hnext] at hp
    obtain ⟨pos', hpos⟩ := labelPos_of_mem hn hb
    exact ⟨pos', hpos, Reaches.jump hp.head rfl hpos⟩

lemma emitBr_exits (hb : bb.succs[0]? = some b) :
    QEmit.emitBr bb = some ((QEmit.jmpUnlessNext bb b).map .insn) ∧
      Exits h ce vi bb ((QEmit.jmpUnlessNext bb b).map .insn) .mkBr := by
  refine ⟨?_, fun F code pos s x hn hp hbehind hsuccs hx env => ?_⟩
  · simp only [QEmit.emitBr, hb]
    exact asm_eq (encodes_jmpUnlessNext bb b)
  · rw [List.length_map] at hbehind
    obtain ⟨pos', hpos, hreach⟩ :=
      reaches_jmpUnlessNext (h := h) (x := x) hn hp hbehind (hsuccs b (List.mem_of_getElem? hb))
    exact ⟨_, hreach, Leaves.br hb hpos hx⟩

/-- Operands and condition of the comparison, with a constant moved behind. -/
lemma orderCmp_spec (vi : VRegsInfo) {cc cc' : CondCode} {a b a' b' : VOperand} (ha : Operand .d a)
    (hb : Operand .d b) (hc : a.isConst = false ∨ b.isConst = false)
    (hs : a.isSlot = false ∨ b.isSlot = false) (ho : QEmit.orderCmp cc a b = (cc', a', b')) :
    Operand .d a' ∧ Operand .d b' ∧ a'.isConst = false ∧
      (a'.isSlot = false ∨ b'.isSlot = false) ∧
      ∀ s, cc'.holds (readOpr vi s a') (readOpr vi s b') =
        cc.holds (readOpr vi s a) (readOpr vi s b) := by
  rw [QEmit.orderCmp] at ho
  split at ho
  · rename_i hconst
    cases ho
    refine ⟨hb, ha, ?_, hs.symm, fun s => CondCode.holds_swap _ _ _⟩
    rcases hc with hc | hc
    · exact absurd (hc.symm.trans hconst) (by decide)
    · exact hc
  · rename_i hconst
    cases ho
    exact ⟨ha, hb, Bool.eq_false_iff.mpr hconst, hs, fun s => rfl⟩

lemma exec_brcc {env : HelperEnv} {cc : CondCode} {u v : VOperand} (hu : u.isReadable = true)
    (hv : v.isReadable = true) : (exec env vi (.mkBrcc cc u v) s).2 =
      (.br (if cc.holds (readOpr vi s u) (readOpr vi s v) then 0 else 1), s) := by
  simp [exec, Inst.legal, Inst.mkBrcc, hu, hv, Op.eval, writeOuts]

lemma emitBrcc_exits {cc : CondCode} {a b : VOperand} {t f : ℕ} (ha : Operand .d a)
    (hb : Operand .d b) (hc : a.isConst = false ∨ b.isConst = false)
    (hs : a.isSlot = false ∨ b.isSlot = false) (ht : bb.succs[0]? = some t)
    (hf : bb.succs[1]? = some f) :
    ∃ is : List Asm, ce.emitBrcc bb cc a b = some (is.map .insn) ∧
      Exits h ce vi bb (is.map .insn) (.mkBrcc cc a b) := by
  obtain ⟨⟨cc', a', b'⟩, ho⟩ : ∃ r, QEmit.orderCmp cc a b = r := ⟨_, rfl⟩
  obtain ⟨ha', hb', hc', hs', hholds⟩ := orderCmp_spec vi ha hb hc hs ho
  have hcmp : (Insn.cmp (asmOpnd ce .d a') (asmOpnd ce .d b') : Asm).encodes = true :=
    fits_asmOpnd ha' hb' hc' hs'
  refine ⟨[.cmp (asmOpnd ce .d a') (asmOpnd ce .d b'), .jcc (makeCc cc') t] ++
    QEmit.jmpUnlessNext bb f, ?_, fun F code pos s x hn hp hbehind hsuccs hx env => ?_⟩
  · simp only [QEmit.emitBrcc, ht, hf, ho, Option.bind_eq_bind, Option.bind_some,
      makeOperand_eq ha', makeOperand_eq hb']
    refine asm_eq ?_
    simp only [List.cons_append, List.nil_append, List.forall_mem_cons]
    exact ⟨hcmp, rfl, encodes_jmpUnlessNext bb f⟩
  · obtain ⟨hp₁, hp₂⟩ : Placed code pos ([Insn.cmp (asmOpnd ce .d a') (asmOpnd ce .d b'),
        .jcc (makeCc cc') t].map .insn) ∧
        Placed code (pos + 2) ((QEmit.jmpUnlessNext bb f).map .insn) := by
      rw [List.map_append] at hp
      exact ⟨hp.left, hp.right⟩
    let y : State Obj := { x with flags := .sub (readOpr vi s a') (readOpr vi s b') }
    have hy : Rel h ce F s y := hx.flags _
    have hcmp : Reaches h code (.at pos x) (.at (pos + 1) y) := by
      refine Reaches.insn hp₁.head ?_
      rw [Insn.exec_cmp (size_asmOpnd ha' hc'), hx.read32 vi ha', hx.read32 vi hb']
    have hcond : (makeCc cc').holds y.flags = cc.holds (readOpr vi s a) (readOpr vi s b) :=
      (CondCode.holds_makeCc _ _ _).trans (hholds s)
    rw [exec_brcc ha.isReadable hb.isReadable]
    cases htaken : cc.holds (readOpr vi s a) (readOpr vi s b) with
    | true =>
      obtain ⟨pos', hpos⟩ := labelPos_of_mem hn (hsuccs t (List.mem_of_getElem? ht))
      have hjcc : (Insn.jcc (makeCc cc') t : Asm).exec h y = .jump t y := by
        rw [Insn.exec, hcond, htaken]
        rfl
      exact ⟨_, hcmp.trans (Reaches.jump hp₁.tail.head hjcc hpos), Leaves.br ht hpos hy⟩
    | false =>
      have hjcc : (Insn.jcc (makeCc cc') t : Asm).exec h y = .next y := by
        rw [Insn.exec, hcond, htaken]
        rfl
      have hbehind' : Behind code bb (pos + 2 + (QEmit.jmpUnlessNext bb f).length) := by
        convert hbehind using 1
        simp
        omega
      obtain ⟨pos', hpos, hreach⟩ := reaches_jmpUnlessNext (h := h) (x := y) hn hp₂ hbehind'
        (hsuccs f (List.mem_of_getElem? hf))
      exact ⟨_, (hcmp.trans (Reaches.insn hp₁.tail.head hjcc)).trans hreach, Leaves.br hf hpos hy⟩

/-! ### Leaving the region -/

lemma Rel.left (hx : Rel h ce F s x) (hleaf : ce.is_leaf = true) : Left ce F s x := by
  refine ⟨hx.state, hx.membase, ?_, hx.cpu, hx.mem, hx.outer⟩
  rw [hx.sp, hleaf]
  rfl

/-- Popping the frame, by what else remains of the state. -/
lemma Left.pop {y : State Obj} {sp : ℕ} {v : Val Obj} (hstate : y.regs STATE = .ptr .state 0)
    (hmembase : y.regs MEMBASE = F.membase) (hsp : sp + 8 = F.sp + if ce.is_leaf then 0 else 8)
    (hcpu : y.mem (some .state) = s.cpu) (hmem : y.mem none = s.mem)
    (houter : ∀ a, F.sp ≤ a → (a < F.sp + ce.spillframe_sp_offs ∨
      F.sp + ce.spillframe_sp_offs + spillframe_size ≤ a) → y.mem (some .stack) a = F.outer a) :
    Left ce F s ((y.setReg SP (.ptr .stack (sp + 8))).setReg RCX v) := by
  refine ⟨?_, ?_, ?_, hcpu, hmem, houter⟩
  · rw [State.setReg_of_ne (by decide), State.setReg_of_ne (by decide)]
    exact hstate
  · rw [State.setReg_of_ne (by decide), State.setReg_of_ne (by decide)]
    exact hmembase
  · rw [State.setReg_of_ne (by decide), State.setReg_self, hsp]

lemma reaches_frameDestroy (hx : Rel h ce F s x)
    (hp : Placed code pos (ce.frameDestroy.map .insn)) :
    ∃ y, Reaches h code (.at pos x) (.at (pos + ce.frameDestroy.length) y) ∧ Left ce F s y ∧
      (∀ p, p ≠ RCX → p ≠ SP → y.regs p = x.regs p) ∧ y.mem = x.mem := by
  rw [QEmit.frameDestroy] at hp ⊢
  cases hleaf : ce.is_leaf with
  | true => exact ⟨x, .refl _, hx.left hleaf, fun _ _ _ => rfl, rfl⟩
  | false =>
    rw [hleaf] at hp
    refine ⟨_, Reaches.insn hp.head (Insn.exec_pop hx.sp), Left.pop hx.state hx.membase ?_ hx.cpu
      hx.mem hx.outer, fun p hp hp' => ?_, rfl⟩
    · rw [hleaf]
      rfl
    · rw [State.setReg_of_ne hp]
      exact State.setReg_of_ne hp'

lemma encodes_frameDestroy (ce : QEmit) : ∀ i ∈ ce.frameDestroy, i.encodes = true := by
  intro i hi
  rw [QEmit.frameDestroy] at hi
  split at hi
  · cases hi
  · rw [List.mem_singleton.mp hi]
    rfl

lemma emitGbr_exits {tpc : BitVec 32} :
    ce.emitGbr tpc =
        some (ce.frameDestroy.map .insn ++ [.data ⟨tpc, !ce.segment.inSegment tpc⟩]) ∧
      Exits h ce vi bb (ce.frameDestroy.map .insn ++ [.data ⟨tpc, !ce.segment.inSegment tpc⟩])
        (.mkGBr tpc) := by
  refine ⟨?_, fun F code pos s x hn hp hbehind hsuccs hx env => ?_⟩
  · rw [QEmit.emitGbr, asm_eq (encodes_frameDestroy ce)]
    rfl
  · obtain ⟨y, hreach, hleft, -, -⟩ := reaches_frameDestroy hx hp.left
    have hdata := hp.right.head
    rw [List.length_map] at hdata
    exact ⟨_, hreach.trans (Reaches.data hdata), Leaves.gbr hleft⟩

/-! ### Indirect branches -/

/-- The offset of the entry for a target is formed, and the entry compared with the target. -/
lemma reaches_lookupBrind {ip : BitVec 32} {slowpath : ℕ} (hx : Rel h ce F s x)
    (hip : ((x.regs RSI).bits h).setWidth 32 = ip)
    (hp : Placed code pos ((QEmit.lookupBrind ⟨.d, RSI⟩ slowpath).map .insn)) :
    ∃ y g, Reaches h code (.at pos x) (.at (pos + 4) y) ∧ Rel h ce F { s with preg := g } y ∧
      y.regs RDX = .ptr .l1_brind_cache 0 ∧
      y.regs RDI = .word ((Runtime.brindOffset ip).setWidth 64) ∧ y.regs RSI = x.regs RSI ∧
      y.mem = x.mem ∧
      y.flags = .sub ((x.mem (some .l1_brind_cache)).load (Runtime.brindOffset ip).toNat 4) ip := by
  let x₁ := x.setReg RDX (.ptr .l1_brind_cache 0)
  let x₂ := x₁.setReg RDI (.word ((ip <<< 2).setWidth 64))
  let x₃ : State Obj := { x₂.setReg RDI (.word ((Runtime.brindOffset ip).setWidth 64)) with
    flags := .logic (Runtime.brindOffset ip) }
  let y : State Obj := { x₃ with
    flags := .sub ((x.mem (some .l1_brind_cache)).load (Runtime.brindOffset ip).toNat 4) ip }
  have h₁ : (Insn.mov (.reg .q RDX) (.obj .l1_brind_cache) : Asm).exec h x = .next x₁ := rfl
  have h₂ : (Insn.lea (.reg .d RDI) (.scaled RSI 2) : Asm).exec h x₁ = .next x₂ := by
    have haddr : (x₁.addr h (.scaled RSI 2)).setWidth 32 = ip <<< 2 := by
      change (BitVec.ofNat 64 ((x.regs RSI).bits h <<< 2).toNat).setWidth 32 = ip <<< 2
      rw [BitVec.ofNat_toNat, BitVec.setWidth_eq, ← hip]
      apply BitVec.eq_of_toNat_eq
      simp only [BitVec.toNat_setWidth, BitVec.toNat_shiftLeft, Nat.shiftLeft_eq]
      omega
    change Res.next (x₁.setReg RDI
      (.word (((x₁.addr h (.scaled RSI 2)).setWidth 32).setWidth 64))) = _
    rw [haddr]
  have h₃ : (Insn.alu .and (.reg .d RDI) (.imm 0xFFF0) : Asm).exec h x₂ = .next x₃ := by
    have hread : x₂.read h .d (.reg .d RDI) = ip <<< 2 := by
      change ((ip <<< 2).setWidth 64).setWidth 32 = ip <<< 2
      simp
    simp only [Insn.exec, Opnd.size, Option.getD_some, hread]
    rfl
  have h₄ : (Insn.cmp (.mem .d (.sum RDX RDI 0)) (.reg .d RSI) : Asm).exec h x₃ = .next y := by
    have hentry : x₃.read h .d (.mem .d (.sum RDX RDI 0)) =
        (x.mem (some .l1_brind_cache)).load (Runtime.brindOffset ip).toNat 4 := by
      change (x.mem (some .l1_brind_cache)).load
        (0 + ((Runtime.brindOffset ip).setWidth 64).toNat + 0) 4 = _
      rw [Nat.zero_add, Nat.add_zero, BitVec.toNat_setWidth_of_le (by decide)]
    have hsi : x₃.read h .d (.reg .d RSI) = ip := hip
    rw [Insn.exec_cmp rfl, hentry, hsi]
  have hrel : Rel h ce F _ y := ((((hx.setReg (p := RDX) (by decide) rfl).setReg (p := RDI)
    (by decide) rfl).setReg (p := RDI) (by decide) rfl).flags _).flags _
  exact ⟨y, _, (Reaches.insn hp.head h₁).trans ((Reaches.insn hp.tail.head h₂).trans
    ((Reaches.insn hp.tail.tail.head h₃).trans (Reaches.insn hp.tail.tail.tail.head h₄))), hrel,
    rfl, rfl, rfl, rfl, rfl⟩

/-- The instructions in front of the call of the slow path. -/
def setupBrind (ce : QEmit) : List Asm :=
  [.mov (.reg .q RDI) (.reg .q STATE)] ++ if ce.is_leaf then [.push RCX] else []

lemma slowBrind_eq (ce : QEmit) :
    ce.slowBrind = setupBrind ce ++ [.call .brind, .pop RCX, .jmpInd (.reg .q RAX)] := by
  rw [QEmit.slowBrind, QEmit.frameDestroy, setupBrind]
  cases ce.is_leaf <;> rfl

/-- The state in which the slow path is called; the stack pointer is where it is before the frame
is destroyed. -/
structure BrindCall (ce : QEmit) (F : Frame) (s : QState) (x z : State Obj) (sp : ℕ) : Prop where
  arg : z.regs RDI = .ptr .state 0
  target : z.regs RSI = x.regs RSI
  state : z.regs STATE = .ptr .state 0
  membase : z.regs MEMBASE = F.membase
  stack : z.regs SP = .ptr .stack sp
  below : sp ≤ F.sp
  frame : sp + 8 = F.sp + if ce.is_leaf then 0 else 8
  cpu : z.mem (some .state) = s.cpu
  mem : z.mem none = s.mem
  outer : ∀ a, F.sp ≤ a → (a < F.sp + ce.spillframe_sp_offs ∨
    F.sp + ce.spillframe_sp_offs + spillframe_size ≤ a) → z.mem (some .stack) a = F.outer a

lemma reaches_setupBrind (hx : Rel h ce F s x)
    (hp : Placed code pos ((setupBrind ce).map .insn)) :
    ∃ z sp, Reaches h code (.at pos x) (.at (pos + (setupBrind ce).length) z) ∧
      BrindCall ce F s x z sp := by
  rw [setupBrind] at hp ⊢
  let y := x.setReg RDI (x.regs STATE)
  have h₁ : Reaches h code (.at pos x) (.at (pos + 1) y) := Reaches.insn hp.head rfl
  have hroom := F.room
  cases hleaf : ce.is_leaf with
  | false =>
    refine ⟨y, F.sp, h₁, hx.state, rfl, hx.state, hx.membase, hx.sp, le_rfl, ?_, hx.cpu, hx.mem,
      hx.outer⟩
    rw [hleaf]
    rfl
  | true =>
    rw [hleaf] at hp
    have hsp : y.regs X86.Asm.SP = .ptr .stack F.sp := hx.sp
    have hpush : (Insn.push RCX : Asm).exec h y = _ := Insn.exec_push hsp
    refine ⟨_, F.sp - 8, h₁.trans (Reaches.insn hp.tail.head hpush), hx.state, rfl, hx.state,
      hx.membase, rfl, by omega, ?_, hx.cpu, hx.mem, fun a ha hout => ?_⟩
    · rw [hleaf]
      simp only [if_true]
      omega
    · rw [State.setMem_self, ByteMem.store_apply_of_notMem _ (by omega)]
      exact hx.outer a ha hout

lemma reaches_slowBrind {helper : Helper} {ip : BitVec 32} (hc : Calls helper h)
    (hx : Rel h ce F s x) (hip : ((x.regs RSI).bits h).setWidth 32 = ip)
    (hp : Placed code pos (ce.slowBrind.map .insn)) :
    ∃ c, Reaches h code (.at pos x) c ∧ Leaves h ce F code bb (.gbrind ip) s c := by
  rw [slowBrind_eq, List.map_append] at hp
  obtain ⟨z, sp, hreach, hz⟩ := reaches_setupBrind hx hp.left
  have htail := hp.right
  rw [List.length_map] at htail
  obtain ⟨y, hcall, -, -, hsaved⟩ := hc.call .brind z sp hz.arg hz.stack
  rw [hc.brind] at hcall
  have h₁ : (Insn.call .brind : Asm).exec h z = .next y := by
    simp only [Insn.exec, hcall]
  have hsp : y.regs SP = .ptr .stack sp := (hsaved.regs SP (by decide)).trans hz.stack
  have hleft : Left ce F { s with cpu := y.mem (some .state), mem := y.mem none }
      ((y.setReg SP (.ptr .stack (sp + 8))).setReg RCX
        (.word (y.read h .q (.mem .q (.base SP 0))))) := by
    refine Left.pop ((hsaved.regs STATE (by decide)).trans hz.state)
      ((hsaved.regs MEMBASE (by decide)).trans hz.membase) hz.frame rfl rfl fun a ha hout => ?_
    rw [hsaved.stack a (le_trans hz.below ha)]
    exact hz.outer a ha hout
  have hjmp : Reaches h code (.at pos x) (.left (y.regs RAX) _) :=
    hreach.trans ((Reaches.insn htail.head h₁).trans ((Reaches.insn htail.tail.head
      (Insn.exec_pop hsp)).trans (Reaches.leave htail.tail.tail.head rfl)))
  exact ⟨_, hjmp, Leaves.slowpath hz.arg (by rw [hz.target, hip]) hz.cpu hz.mem hcall hleft⟩

/-- The physical registers do not matter any more. -/
lemma Left.of_preg {y : State Obj} {g : ℕ → BitVec 32} (hl : Left ce F { s with preg := g } y) :
    Left ce F s y :=
  ⟨hl.state, hl.membase, hl.sp, hl.cpu, hl.mem, hl.outer⟩

lemma Leaves.of_preg {ip : BitVec 32} {g : ℕ → BitVec 32} {c : Cfg Obj BranchSlot}
    (hl : Leaves h ce F code bb (.gbrind ip) { s with preg := g } c) :
    Leaves h ce F code bb (.gbrind ip) s c := by
  cases hl with
  | cached hgip hl => exact .cached hgip hl.of_preg
  | slowpath hstate hip hcpu hmem hcall hl =>
    exact .slowpath hstate hip hcpu hmem hcall
      ⟨hl.state, hl.membase, hl.sp, hl.cpu, hl.mem, hl.outer⟩

lemma exec_gbrind {env : HelperEnv} {t : VOperand} (ht : t.isReadable = true) :
    (exec env vi (.mkGBrind t) s).2 = (.gbrind (readOpr vi s t), s) := by
  simp [exec, Inst.legal, Inst.mkGBrind, ht, Op.eval, writeOuts]

/-- The look-up, and the jump to the code that it has found. -/
def fastBrind (ce : QEmit) (slowpath : ℕ) : List Asm :=
  QEmit.lookupBrind ⟨.d, RSI⟩ slowpath ++ ce.frameDestroy ++ [.jmpInd (.mem .q (.sum RDX RDI 8))]

/-- The code of an indirect branch. -/
def gbrindCode (ce : QEmit) (slowpath : ℕ) : Code :=
  (fastBrind ce slowpath).map .insn ++ .label slowpath :: ce.slowBrind.map .insn

lemma emitGbrind_eq (ce : QEmit) (slowpath : ℕ) :
    ce.emitGbrind slowpath (.pgpr .I32 RSI) = some (gbrindCode ce slowpath) := by
  have hgpr : makeGpr (.pgpr .I32 RSI) = some ⟨.d, RSI⟩ := rfl
  have hfast : ∀ i ∈ fastBrind ce slowpath, i.encodes = true := by
    simp only [fastBrind, QEmit.lookupBrind, List.forall_mem_append, List.forall_mem_cons]
    exact ⟨⟨⟨rfl, rfl, rfl, rfl, rfl, by simp⟩, encodes_frameDestroy ce⟩, rfl, by simp⟩
  have hslow : ∀ i ∈ ce.slowBrind, i.encodes = true := by
    rw [slowBrind_eq, setupBrind]
    cases ce.is_leaf <;> decide
  rw [fastBrind] at hfast
  simp only [QEmit.emitGbrind, hgpr, asm_eq hfast, asm_eq hslow, guard, Option.bind_eq_bind,
    Option.bind_some, Option.pure_def, if_true]
  rfl

lemma gbrindCode_exits {helper : Helper} (hc : Calls helper h) (slowpath : ℕ) :
    Exits h ce vi bb (gbrindCode ce slowpath) (.mkGBrind (.pgpr .I32 RSI)) := by
  intro F code pos s x hn hp hbehind hsuccs hx env
  have hip : ((x.regs RSI).bits h).setWidth 32 = readOpr vi s (.pgpr .I32 RSI) :=
    hx.read32 vi (show Operand .d (.pgpr .I32 RSI) from ⟨rfl, by decide⟩)
  rw [exec_gbrind rfl]
  generalize readOpr vi s (.pgpr .I32 RSI) = ip at hip ⊢
  rw [gbrindCode] at hp
  have hfast := hp.left
  have hslow := hp.right
  rw [fastBrind, List.map_append, List.map_append] at hfast
  obtain ⟨y, g, hreach, hy, hrdx, hrdi, hrsi, hmem, hflags⟩ :=
    reaches_lookupBrind hx hip hfast.left.left
  have hjcc : code[pos + 4]? = some (.insn (.jcc .ne slowpath)) :=
    hfast.left.left.tail.tail.tail.tail.head
  have hcond : Cc.ne.holds y.flags =
      ((x.mem (some .l1_brind_cache)).load (Runtime.brindOffset ip).toNat 4 != ip) := by
    rw [hflags, Cc.holds_sub]
  by_cases hgip : (x.mem (some .l1_brind_cache)).load (Runtime.brindOffset ip).toNat 4 = ip
  · -- the entry is the one for the target
    have hnext : (Insn.jcc .ne slowpath : Asm).exec h y = .next y := by
      rw [Insn.exec, hcond, hgip]
      simp
    obtain ⟨z, hdestroy, hleft, hregs, hmem'⟩ := reaches_frameDestroy hy hfast.left.right
    have htarget : z.readVal h .q (.mem .q (.sum RDX RDI 8)) =
        .word ((z.mem (some .l1_brind_cache)).load ((Runtime.brindOffset ip).toNat + 8) 8) := by
      have hrdx' : z.regs RDX = .ptr .l1_brind_cache 0 :=
        (hregs RDX (by decide) (by decide)).trans hrdx
      have hrdi' : z.regs RDI = .word ((Runtime.brindOffset ip).setWidth 64) :=
        (hregs RDI (by decide) (by decide)).trans hrdi
      simp only [State.readVal, State.read, State.resolve, hrdx', hrdi', Val.bits, Nat.zero_add,
        Size.bytes]
      rw [BitVec.toNat_setWidth_of_le (by decide)]
      exact congrArg Val.word (BitVec.setWidth_eq _)
    have hleave : (Insn.jmpInd (.mem .q (.sum RDX RDI 8)) : Asm).exec h z = .leave _ z :=
      congrArg (Res.leave · z) htarget
    have hjmp : code[pos + 5 + ce.frameDestroy.length]? =
        some (.insn (.jmpInd (.mem .q (.sum RDX RDI 8)))) := by
      have hhead := hfast.right.head
      rw [List.length_append, List.length_map, List.length_map, ← Nat.add_assoc] at hhead
      exact hhead
    refine ⟨_, hreach.trans ((Reaches.insn hjcc hnext).trans (hdestroy.trans
      (Reaches.leave hjmp hleave))), Leaves.cached ?_ hleft.of_preg⟩
    rw [hmem', hmem]
    exact hgip
  · -- on to the slow path
    have hjump : (Insn.jcc .ne slowpath : Asm).exec h y = .jump slowpath y := by
      rw [Insn.exec, hcond, bne_iff_ne.mpr hgip]
      rfl
    have hpos := labelPos_of_get hn hslow.head
    obtain ⟨c, hrest, hleaves⟩ :=
      reaches_slowBrind hc hy (by rw [hrsi, hip]) hslow.tail
    exact ⟨c, hreach.trans ((Reaches.jump hjcc hjump hpos).trans
      ((Reaches.label hslow.head).trans hrest)), hleaves.of_preg⟩

/-- The operations that leave their block; an indirect branch takes a label for its slow path. -/
theorem visit_exits {helper : Helper} {ins : Inst} (hcalls : Calls helper h) (label : ℕ)
    (hc : Constrained ce.is_leaf ins) (ht : ins.op.isTerminator = true)
    (hsuccs : ins.op.nSuccs ≤ bb.succs.length) :
    ∃ items n, ce.visit bb label ins = some (items, label + n) ∧
      labels items = List.range' label n ∧ Exits h ce vi bb items ins := by
  have hmap : ∀ is : List Asm, labels (is.map .insn : Code) = List.range' label 0 :=
    fun is => labels_insns is
  cases hc with
  | br =>
    change 1 ≤ bb.succs.length at hsuccs
    have hb : bb.succs[0]? = some bb.succs[0] := List.getElem?_eq_getElem _
    obtain ⟨hemit, hexits⟩ : _ ∧ Exits h ce vi bb _ .mkBr := emitBr_exits hb
    refine ⟨_, 0, ?_, hmap _, hexits⟩
    change (·, label) <$> QEmit.emitBr bb = _
    rw [hemit]
    rfl
  | @brcc cc a b ha hb hc hs =>
    change 2 ≤ bb.succs.length at hsuccs
    have h0 : bb.succs[0]? = some bb.succs[0] := List.getElem?_eq_getElem _
    have h1 : bb.succs[1]? = some bb.succs[1] := List.getElem?_eq_getElem _
    obtain ⟨is, hemit, hexits⟩ : ∃ is : List Asm, _ ∧ Exits h ce vi bb (is.map .insn) _ :=
      emitBrcc_exits ha hb hc hs h0 h1
    refine ⟨_, 0, ?_, hmap is, hexits⟩
    change (·, label) <$> ce.emitBrcc bb cc a b = _
    rw [hemit]
    rfl
  | @gbr tpc =>
    obtain ⟨hemit, hexits⟩ : _ ∧ Exits h ce vi bb _ (.mkGBr tpc) := emitGbr_exits
    refine ⟨_, 0, ?_, ?_, hexits⟩
    · change (·, label) <$> ce.emitGbr tpc = _
      rw [hemit]
      rfl
    · rw [labels_append, hmap]
      rfl
  | gbrind =>
    refine ⟨_, 1, ?_, ?_, gbrindCode_exits hcalls label⟩
    · change (ce.emitGbrind label (.pgpr .I32 RSI)).map (·, label + 1) = _
      rw [emitGbrind_eq]
      rfl
    · simp [gbrindCode]
  | @binop mk d b hmk hd hb =>
    simp only [List.mem_cons, List.not_mem_nil, or_false] at hmk
    obtain rfl | rfl | rfl | rfl | rfl := hmk <;> cases ht
  | @shift mk d b hmk hd hb hcx =>
    simp only [List.mem_cons, List.not_mem_nil, or_false] at hmk
    obtain rfl | rfl | rfl := hmk <;> cases ht
  | _ => cases ht

end

/-! ### Blocks -/

/-- What the emitter needs of a block: it is left at its end only, and has the successors that its
last instruction asks for. -/
structure Emittable (is_leaf : Bool) (succs : List ℕ) (l : List Inst) : Prop where
  insts : ∀ ins ∈ l, Constrained is_leaf ins
  exits : ∀ ins ∈ l.dropLast, ins.op.isTerminator = false
  arity : ∀ ins ∈ l, ins.op.nSuccs ≤ succs.length

lemma Emittable.tail {is_leaf : Bool} {succs : List ℕ} {ins : Inst} {l : List Inst}
    (he : Emittable is_leaf succs (ins :: l)) : Emittable is_leaf succs l := by
  refine ⟨fun i hi => he.insts i (.tail _ hi), fun i hi => ?_, fun i hi => he.arity i (.tail _ hi)⟩
  cases l with
  | nil => cases hi
  | cons j l => exact he.exits i (.tail _ hi)

/-- Blocks that end in the one instruction that leaves them. -/
lemma Terminated.emittable {is_leaf : Bool} {blk : Block} {body : List Inst} {last : Inst}
    (ht : Terminated blk body last) (hc : ∀ ins ∈ blk.ilist, Constrained is_leaf ins) :
    Emittable is_leaf blk.succs blk.ilist := by
  have hterm : ∀ op : Op, op.leaves = false → op.isTerminator = false ∧ op.nSuccs = 0 := by
    intro op hop
    cases op with
    | hcall _ => exact ⟨rfl, rfl⟩
    | _ => first | exact ⟨rfl, rfl⟩ | cases hop
  refine ⟨hc, fun ins hins => ?_, fun ins hins => ?_⟩
  · rw [ht.ilist, List.dropLast_concat] at hins
    exact (hterm _ (ht.stays ins hins)).1
  · rw [ht.ilist, List.mem_append, List.mem_singleton] at hins
    rcases hins with hins | rfl
    · rw [(hterm _ (ht.stays ins hins)).2]
      exact Nat.zero_le _
    · exact ht.succs.ge

section
variable (helper : Helper) (h : Host Obj RuntimeStubId) (ce : QEmit) (vi : VRegsInfo)

/-- From related states the code runs as the instructions do, up to where control leaves them. -/
def Follows (bb : CurBlock) (items : Code) (l : List Inst) : Prop :=
  ∀ F code pos s x, (labels code).Nodup → Placed code pos items →
    Behind code bb (pos + items.length) → (∀ b ∈ bb.succs, b ∈ labels code) → Rel h ce F s x →
    ∃ r c, Does helper vi l s r ∧ Reaches h code (.at pos x) c ∧
      Leaves h ce F code bb r.1 r.2 c

variable {helper h ce vi} {bb : CurBlock} {ins : Inst} {l : List Inst} {items items' : Code}

lemma exec_terminator {env : HelperEnv} {s : QState} (ht : ins.op.isTerminator = true) :
    (exec env vi ins s).2.1 ≠ .next := by
  cases hl : ins.legal with
  | false =>
    rw [exec_illegal hl]
    exact Qir.Flow.noConfusion
  | true =>
    rw [exec_eq_eval ?_ hl]
    · exact Op.eval_flow_terminator ht
    · intro stub hop
      rw [hop] at ht
      cases ht

/-- The last instruction leaves the block. -/
lemma Exits.follows (ht : ins.op.isTerminator = true) (he : Exits h ce vi bb items ins) :
    Follows helper h ce vi bb items [ins] := by
  intro F code pos s x hn hp hbehind hsuccs hx
  let env : HelperEnv := ⟨helper, fun _ _ _ _ _ => 0⟩
  obtain ⟨c, hreach, hleaves⟩ := he F code pos s x hn hp hbehind hsuccs hx env
  refine ⟨(exec env vi ins s).2, c, ⟨env.clobber, ?_⟩, hreach, hleaves⟩
  rw [if_neg (exec_terminator ht)]

/-- An instruction that goes on in its block. -/
lemma Computes.follows {is : List Asm} (hi : Computes h ce vi is ins)
    (hl : Follows helper h ce vi bb items' l) :
    Follows helper h ce vi bb (is.map .insn ++ items') (ins :: l) := by
  intro F code pos s x hn hp hbehind hsuccs hx
  let env : HelperEnv := ⟨helper, fun _ _ _ _ _ => 0⟩
  obtain ⟨hnext, y, hstraight, hy⟩ := hi F env s x hx
  rw [List.length_append, ← Nat.add_assoc] at hbehind
  obtain ⟨r, c, hdoes, hreach, hleaves⟩ := hl F code _ _ y hn hp.right hbehind hsuccs hy
  refine ⟨r, c, ⟨env.clobber, ?_⟩, ?_, hleaves⟩
  · rw [if_pos hnext]
    exact hdoes
  · rw [List.length_map] at hreach
    exact (hstraight.reaches hp.left).trans hreach

/-- The call of a helper. -/
lemma hcall_follows {stub : RuntimeStubId} {c : BitVec 32} (hcalls : Calls helper h)
    (hl : Follows helper h ce vi bb items' l) :
    Follows helper h ce vi bb ([Insn.mov (.reg .q RDI) (.reg .q STATE),
      .mov (.reg .q RSI) (.imm (c.setWidth 64)), .call stub].map .insn ++ items')
      (.mkHcall stub (.const .I32 c) :: l) := by
  intro F code pos s x hn hp hbehind hsuccs hx
  rw [List.length_append, ← Nat.add_assoc] at hbehind
  obtain ⟨clobber, y, hcases⟩ := reaches_hcall vi (c := c) hcalls hp.left hx
  generalize hr : (exec ⟨helper, clobber⟩ vi (.mkHcall stub (.const .I32 c)) s).2 = r at hcases
  obtain ⟨hnext, hreach, hy⟩ | ⟨htrap, hreach, hcpu, hmem⟩ := hcases
  · obtain ⟨r, c', hdoes, hreach', hleaves⟩ := hl F code _ _ y hn hp.right hbehind hsuccs hy
    refine ⟨_, c', ⟨clobber, ?_⟩, hreach.trans hreach', hleaves⟩
    rw [hr, if_pos hnext]
    exact hdoes
  · refine ⟨r, _, ⟨clobber, ?_⟩, hreach, ?_⟩
    · rw [hr, if_neg (by rw [htrap]; exact Qir.Flow.noConfusion)]
    · rw [htrap]
      exact Leaves.trap hcpu hmem

/-- The operations that go on in their block. -/
lemma visit_follows (hcalls : Calls helper h) (label : ℕ) (hc : Constrained ce.is_leaf ins)
    (ht : ins.op.isTerminator = false) :
    ∃ is : List Asm, ce.visit bb label ins = some (is.map .insn, label) ∧
      ∀ items', Follows helper h ce vi bb items' l →
        Follows helper h ce vi bb (is.map .insn ++ items') (ins :: l) := by
  cases hcall : ins.op.hasCalls with
  | false =>
    obtain ⟨is, hvisit, hcomp⟩ := visit_computes hc ht hcall
    exact ⟨is, hvisit, fun items' => hcomp.follows⟩
  | true =>
    cases hc with
    | @hcall stub c hleaf =>
      refine ⟨_, ?_, fun items' => hcall_follows hcalls⟩
      change (·, label) <$> ce.emitHcall stub (.const .I32 c) = _
      rw [emitHcall_eq hleaf]
      rfl
    | @binop mk d b hmk hd hb =>
      simp only [List.mem_cons, List.not_mem_nil, or_false] at hmk
      obtain rfl | rfl | rfl | rfl | rfl := hmk <;> cases hcall
    | @shift mk d b hmk hd hb hcx =>
      simp only [List.mem_cons, List.not_mem_nil, or_false] at hmk
      obtain rfl | rfl | rfl := hmk <;> cases hcall
    | _ => cases hcall

/-- The code of the instructions of a block. -/
theorem visitAll_follows (hcalls : Calls helper h) (bb : CurBlock) (label : ℕ)
    (he : Emittable ce.is_leaf bb.succs l) :
    ∃ items n, ce.visitAll bb label l = some (items, label + n) ∧
      labels items = List.range' label n ∧ Follows helper h ce vi bb items l := by
  induction l generalizing label with
  | nil =>
    refine ⟨[], 0, rfl, rfl, fun F code pos s x hn hp hbehind hsuccs hx => ?_⟩
    exact ⟨(.stuck, s), _, rfl, .refl _, Leaves.off hbehind hx⟩
  | cons ins l ih =>
    have hc := he.insts ins (.head _)
    cases ht : ins.op.isTerminator with
    | true =>
      -- nothing follows
      obtain rfl : l = [] := by
        by_contra hne
        have hmem : ins ∈ (ins :: l).dropLast := by
          rw [List.dropLast_cons_of_ne_nil hne]
          exact .head _
        exact absurd (ht.symm.trans (he.exits ins hmem)) (by decide)
      obtain ⟨items, n, hvisit, hlabels, hexits⟩ := visit_exits (h := h) hcalls label hc ht
        (he.arity ins (.head _))
      refine ⟨items, n, ?_, hlabels, hexits.follows ht⟩
      simp only [QEmit.visitAll, hvisit, Option.bind_eq_bind, Option.bind_some, Option.pure_def,
        List.append_nil]
    | false =>
      obtain ⟨items', n, hrest, hlabels, hfollows⟩ := ih label he.tail
      obtain ⟨is, hvisit, hstep⟩ := visit_follows (h := h) (l := l) hcalls label hc ht
      refine ⟨is.map .insn ++ items', n, ?_, ?_, hstep items' hfollows⟩
      · simp only [QEmit.visitAll, hvisit, hrest, Option.bind_eq_bind, Option.bind_some,
          Option.pure_def]
      · rw [labels_append, labels_insns, List.nil_append, hlabels]

/-! ### Regions -/

/-- The code of every block stands behind its label, and in front of that of the next block. -/
theorem runBlocks_follows (vi : VRegsInfo) (hcalls : Calls helper h) (blocks : List (ℕ × Block))
    (label : ℕ)
    (he : ∀ p ∈ blocks, Emittable ce.is_leaf p.2.succs p.2.ilist) :
    ∃ code n, ce.runBlocks label blocks = some code ∧
      (labels code).Perm (blocks.map Prod.fst ++ List.range' label n) ∧
      (∀ p, blocks.head? = some p → code[0]? = some (.label p.1)) ∧ (blocks = [] → code = []) ∧
      ∀ pre b blk post, blocks = pre ++ (b, blk) :: post → ∃ c₁ items c₂,
        code = c₁ ++ .label b :: items ++ c₂ ∧
        Follows helper h ce vi ⟨blk.succs, post.head?.map Prod.fst⟩ items blk.ilist ∧
        (∀ p, post.head? = some p → c₂[0]? = some (.label p.1)) ∧ (post = [] → c₂ = []) := by
  induction blocks generalizing label with
  | nil =>
    refine ⟨[], 0, rfl, by simp, by simp, fun _ => rfl, fun pre b blk post hb => ?_⟩
    simp at hb
  | cons p blocks ih =>
    obtain ⟨b, blk⟩ := p
    obtain ⟨items, n, hvisit, hlabels, hfollows⟩ := visitAll_follows (h := h)
      hcalls ⟨blk.succs, blocks.head?.map Prod.fst⟩ label (he (b, blk) (.head _))
    obtain ⟨code, n', hrest, hperm, hhead, hnil, hall⟩ :=
      ih (label + n) fun p hp => he p (.tail _ hp)
    refine ⟨.label b :: items ++ code, n + n', ?_, ?_, fun p hp => ?_, by simp, ?_⟩
    · simp only [QEmit.runBlocks, hvisit, hrest, Option.bind_eq_bind, Option.bind_some,
        Option.pure_def]
    · rw [List.cons_append, labels_label, labels_append, hlabels, List.map_cons, List.cons_append]
      refine List.Perm.cons b ((hperm.append_left _).trans ?_)
      rw [← List.range'_append_1]
      exact List.perm_append_comm_assoc _ _ _
    · obtain rfl : (b, blk) = p := by simpa using hp
      rfl
    · intro pre b' blk' post hb
      cases pre with
      | nil =>
        obtain ⟨hp, rfl⟩ := List.cons.inj hb
        cases hp
        exact ⟨[], items, code, rfl, hfollows, hhead, hnil⟩
      | cons p pre =>
        obtain ⟨-, hb⟩ := List.cons.inj hb
        obtain ⟨c₁, items', c₂, rfl, hrest'⟩ := hall pre b' blk' post hb
        exact ⟨.label b :: items ++ c₁, items', c₂, by simp, hrest'⟩

end

/-- Where the machine is when control has left a block, and that it comes there from the label. -/
def BlockRefines (helper : Helper) (h : Host Obj RuntimeStubId) (ce : QEmit) (vi : VRegsInfo)
    (code : Code) (b : ℕ) (blk : Block) (next : Option ℕ) : Prop :=
  ∃ pos, labelPos code b = some pos ∧ ∀ F s x, Rel h ce F s x →
    ∃ r c, Does helper vi blk.ilist s r ∧ Reaches h code (.at pos x) c ∧
      Leaves h ce F code ⟨blk.succs, next⟩ r.1 r.2 c

/-- The code of a region is emitted, and the code of each block does what the block does. -/
def EmitRefines (helper : Helper) (h : Host Obj RuntimeStubId) (ce : QEmit) (vi : VRegsInfo)
    (blocks : List (ℕ × Block)) : Prop :=
  ∃ code, ce.run blocks = some code ∧ ∀ pre b blk post, blocks = pre ++ (b, blk) :: post →
    BlockRefines helper h ce vi code b blk (post.head?.map Prod.fst)

/-- The code that is emitted for a region refines the region, for blocks in any order. -/
theorem emit_refines {helper : Helper} {h : Host Obj RuntimeStubId} {ce : QEmit}
    {blocks : List (ℕ × Block)} (vi : VRegsInfo) (hcalls : Calls helper h)
    (hids : (blocks.map Prod.fst).Perm (List.range blocks.length))
    (hsuccs : ∀ p ∈ blocks, ∀ b ∈ p.2.succs, b < blocks.length)
    (he : ∀ p ∈ blocks, Emittable ce.is_leaf p.2.succs p.2.ilist) :
    EmitRefines helper h ce vi blocks := by
  obtain ⟨code, n, hrun, hperm, -, -, hall⟩ :=
    runBlocks_follows vi hcalls blocks blocks.length he
  have hsetup : ∀ i ∈ ce.frameSetup, i.encodes = true := by
    rw [QEmit.frameSetup]
    cases ce.is_leaf <;> decide
  have hlabels : labels (ce.frameSetup.map .insn ++ code) = labels code := by
    rw [labels_append, labels_insns, List.nil_append]
  -- the labels of the blocks come first, and then those of the slow paths
  have hn : (labels (ce.frameSetup.map .insn ++ code)).Nodup := by
    rw [hlabels]
    refine (hperm.trans ((hids.append_right _).trans ?_)).nodup_iff.mpr
      (List.nodup_range (n := blocks.length + n))
    rw [List.range_eq_range', List.range_eq_range', ← List.range'_append_1, Nat.zero_add]
  refine ⟨ce.frameSetup.map .insn ++ code, ?_, fun pre b blk post hb => ?_⟩
  · simp only [QEmit.run, asm_eq hsetup, hrun, Option.bind_eq_bind, Option.bind_some,
      Option.pure_def]
  · obtain ⟨c₁, items, c₂, rfl, hfollows, hnext, hlast⟩ := hall pre b blk post hb
    let c₀ : Code := ce.frameSetup.map .insn ++ c₁
    let full : Code := c₀ ++ (.label b :: items) ++ c₂
    have hfull : ce.frameSetup.map .insn ++ (c₁ ++ .label b :: items ++ c₂) = full := by
      simp [full, c₀]
    rw [hfull] at hn hlabels ⊢
    have hp : Placed full c₀.length (.label b :: items) := .of_eq rfl
    refine ⟨c₀.length, labelPos_of_get hn hp.head, fun F s x hx => ?_⟩
    have hbehind : Behind full ⟨blk.succs, post.head?.map Prod.fst⟩
        (c₀.length + 1 + items.length) := by
      have hlen : c₀.length + 1 + items.length = (c₀ ++ (.label b :: items)).length := by
        simp only [List.length_append, List.length_cons]
        omega
      cases post with
      | nil =>
        rw [Behind]
        simp only [List.head?_nil, Option.map_none, full, hlast rfl, List.append_nil]
        exact hlen
      | cons p post =>
        refine labelPos_of_get hn ?_
        rw [hlen, List.getElem?_append_right le_rfl, Nat.sub_self]
        exact hnext p rfl
    have hmem : ∀ b' ∈ blk.succs, b' ∈ labels full := by
      intro b' hb'
      have hlt : b' < blocks.length :=
        hsuccs (b, blk) (by rw [hb]; exact List.mem_append_right _ (.head _)) b' hb'
      rw [hlabels]
      refine hperm.mem_iff.mpr (List.mem_append_left _ ?_)
      exact hids.mem_iff.mpr (List.mem_range.mpr hlt)
    obtain ⟨r, c, hdoes, hreach, hleaves⟩ := hfollows F full _ s x hn hp.tail hbehind hmem hx
    exact ⟨r, c, hdoes, (Reaches.label hp.head).trans hreach, hleaves⟩

/-! ### A small region -/

/-- A host whose stubs return at once. -/
def idleHost : Host Obj RuntimeStubId where
  base _ := 0
  shiftFlags x := x.flags
  call _ x := some (x, false)

lemma calls_idleHost : Calls idleEnv.helper idleHost := by
  refine ⟨fun stub x sp _ _ => ?_, fun _ _ _ => rfl⟩
  exact ⟨x, rfl, rfl, rfl, fun _ _ => rfl, fun _ _ => rfl⟩

/-- A comparison into one of its operands, a branch on a constant, and an indirect branch; the
blocks are not in the order of their identifiers. -/
def loopBlocks : List (ℕ × Block) :=
  [(1, { ilist := [.mkGBrind (.pgpr .I32 RSI)] }),
    (0, { ilist := [.mkSetcc .LT (.pgpr .I32 RAX) (.pgpr .I32 RAX) (.const .I32 3),
        .mkBrcc .GE (.const .I32 5) (.pgpr .I32 RAX)], succs := [1, 0] })]

theorem emit_refines_loopBlocks :
    EmitRefines idleEnv.helper idleHost ⟨⟨0, 4096⟩, true⟩ sampleVRegs loopBlocks := by
  refine emit_refines sampleVRegs calls_idleHost (by decide) (by decide) fun p hp => ?_
  have hax : Pool RAX := by decide
  simp only [loopBlocks, List.mem_cons, List.not_mem_nil, or_false] at hp
  rcases hp with rfl | rfl
  · refine ⟨fun ins hins => ?_, by simp, by decide⟩
    rw [List.mem_singleton.mp hins]
    exact .gbrind
  · refine ⟨fun ins hins => ?_, by decide, by decide⟩
    simp only [List.mem_cons, List.not_mem_nil, or_false] at hins
    rcases hins with rfl | rfl
    · exact .setcc hax hax ⟨rfl, trivial⟩
    · exact .brcc ⟨rfl, trivial⟩ ⟨rfl, hax⟩ (Or.inr rfl) (Or.inl rfl)

end Rv32jit.Qcg
