/-
# The frame of the trampoline

`jitabi.cpp`: the hand-written functions by which control enters and leaves translated code, and the
runs of regions that are chained between them.  The trampoline saves registers and reserves the
spill frame; no region returns to it, and the escape stubs take the frame down by constants.
-/
import Rv32jit.Codegen.EmitFrame
import Rv32jit.Codegen.EmitRun
import Rv32jit.Guest.Compile
import Rv32jit.Runtime.SlotBytes

namespace Rv32jit.Qcg

open Qir
open ArchTraits hiding SP
open X86.Asm hiding CX
open Runtime.SlotBytes

/-! ### Hand-written code -/

/-- The instructions of hand-written and patched code: those that the emitter uses, and others that
concern the stack pointer, calls and returns. -/
inductive Naked
  | insn (i : Asm)
  /-- `sub $n, %rsp`. -/
  | subSp (n : ℕ)
  /-- `add $n, %rsp`. -/
  | addSp (n : ℕ)
  /-- `lea -n(%rsp), %r`. -/
  | leaSp (r n : ℕ)
  /-- `call *%r`. -/
  | callInd (r : ℕ)
  /-- `call qcg_TryLinkBranchJIT`. -/
  | callTryLink
  /-- `jmp` to an address. -/
  | jmp (tgt : BitVec 64)
  | ret
  | int3
deriving DecidableEq

/-- `offsetof(CPUState, sp_unwindptr)`. -/
def spUnwindptrOffs : ℕ := 216

/-- The registers that the trampoline saves, in this order. -/
def savedRegs : List ℕ := [RBP, RBX, R12, R13, R14, R15]

/-- `trampoline_to_jit`. -/
def trampoline_to_jit : List Naked :=
  [.insn (.push RBP), .insn (.push RBX), .insn (.push R12), .insn (.push R13), .insn (.push R14),
    .insn (.push R15), .insn (.mov (.reg .q STATE) (.reg .q RDI)),
    .insn (.mov (.reg .q MEMBASE) (.reg .q RSI)), .subSp (spillframe_size + 8), .leaSp RSI 8,
    .insn (.mov (.mem .q (.base STATE spUnwindptrOffs)) (.reg .q RSI)), .callInd RDX, .int3]

/-- `qcgstub_escape_link`. -/
def qcgstub_escape_link : List Naked :=
  [.addSp (spillframe_size + 16), .insn (.pop R15), .insn (.pop R14), .insn (.pop R13),
    .insn (.pop R12), .insn (.pop RBX), .insn (.pop RBP), .ret]

/-- `qcgstub_escape_brind`. -/
def qcgstub_escape_brind : List Naked :=
  [.addSp (spillframe_size + 16), .insn (.pop R15), .insn (.pop R14), .insn (.pop R13),
    .insn (.pop R12), .insn (.pop RBX), .insn (.pop RBP),
    .insn (.alu .xor (.reg .q RAX) (.reg .q RAX)), .ret]

/-- `qcgstub_link_branch_jit`. -/
def qcgstub_link_branch_jit : List Naked :=
  [.insn (.mov (.reg .q RSI) (.mem .q (.base SP 0))), .insn (.mov (.reg .q RDI) (.reg .q STATE)),
    .callTryLink, .insn (.pop RDI), .insn (.jmpInd (.reg .q RDX))]

/-- The code in the bytes of a branch slot at an address. -/
def slotCode (slot : BitVec 64) (m : ByteMem) : Option (List Naked) :=
  match X86.decode m 0 with
  | some (.jmpRel rel, n) => some [.jmp (slot + .ofNat 64 n + rel.signExtend 64)]
  | some (.movRax imm, n) => match X86.decode m n with
    | some (.callRax, _) => some [.insn (.mov (.reg .q RAX) (.imm imm)), .callInd RAX]
    | some (.jmpRax, _) =>
        some [.insn (.mov (.reg .q RAX) (.imm imm)), .insn (.jmpInd (.reg .q RAX))]
    | _ => none
  | _ => none

/-- A slot that is not linked calls the stub that links, with any bytes below the patch. -/
lemma slotCode_linkLazyJIT (stub slot : BitVec 64) (m : ByteMem) :
    slotCode slot (linkLazyJIT stub m) =
      some [.insn (.mov (.reg .q RAX) (.imm stub)), .callInd RAX] := by
  rw [linkLazyJIT, call64Abs, slotCode, decode_absolute m stub]
  simp only [decode_absolute_end m stub (Or.inl rfl), if_pos]

/-- A linked slot jumps, in one of two forms. -/
lemma slotCode_link (slot : BitVec 64) (m : ByteMem) (tgt : BitVec 64) :
    slotCode slot (link slot m tgt) = some [.jmp tgt] ∨ slotCode slot (link slot m tgt) =
      some [.insn (.mov (.reg .q RAX) (.imm tgt)), .insn (.jmpInd (.reg .q RAX))] := by
  rw [link]
  split
  · rename_i hrel
    refine .inl ?_
    rw [slotCode, decode_jump32Rel]
    simp only [hrel]
    rw [BitVec.add_comm, BitVec.sub_add_cancel]
  · refine .inr ?_
    have hend := decode_absolute_end m tgt (show (0xE0FF : BitVec 16) = _ ∨ _ from Or.inr rfl)
    rw [jump64Abs, slotCode, decode_absolute m tgt]
    simp only [hend]
    rfl

/-! ### The process -/

/-- What is around the regions: the stubs and where they lie, the regions by the address of their
code, and `qcg_TryLinkBranchJIT`. -/
structure Jit where
  host : Host Obj RuntimeStubId
  stub_tab : RuntimeStubId → BitVec 64
  regions : BitVec 64 → Option Code
  tryLinkBranch : State Obj → Option (State Obj)
  /-- No region lies where a stub is. -/
  apart : ∀ stub, regions (stub_tab stub) = none

namespace Jit

variable (J : Jit)

/-- Where control is: in hand-written code, in a region that was entered in a state, or back at the
caller of the trampoline. -/
inductive Cfg
  | naked (code : List Naked) (s : State Obj)
  | region (code : Code) (entry : State Obj) (c : X86.Asm.Cfg Obj BranchSlot)
  | returned (ra : BitVec 64) (s : State Obj)

/-- The code that a jump out of a region can be to: `TryLinkBranch` and `qcgstub_brind` hand out
regions and the escape stubs. -/
def target (tgt : BitVec 64) (s : State Obj) : Option Cfg :=
  match J.regions tgt with
  | some code => some (.region code s (.at 0 s))
  | none =>
      if tgt = J.stub_tab .escape_link then some (.naked qcgstub_escape_link s)
      else if tgt = J.stub_tab .escape_brind then some (.naked qcgstub_escape_brind s)
      else none

/-- The code that is called with `call *%r`. -/
def callee (tgt : BitVec 64) (s : State Obj) : Option Cfg :=
  if tgt = J.stub_tab .link_branch_jit then some (.naked qcgstub_link_branch_jit s)
  else (J.regions tgt).map fun code => .region code s (.at 0 s)

/-- A call pushes its return address. -/
def pushRet (ra : BitVec 64) (s : State Obj) : State Obj :=
  (s.moveSp (· - 8) (· - 8)).write J.host .q (.mem .q (.base SP 0)) ra

/-- An instruction behind which control goes on. -/
def exec (s : State Obj) : Naked → Option (State Obj)
  | .insn i => match i.exec J.host s with
    | .next s' => some s'
    | _ => none
  | .subSp n => some { s.moveSp (· - n) (· - .ofNat 64 n) with
      flags := .sub ((s.regs SP).bits J.host) (.ofNat 64 n) }
  | .addSp n => some { s.moveSp (· + n) (· + .ofNat 64 n) with
      flags := .add ((s.regs SP).bits J.host) (.ofNat 64 n) }
  | .leaSp r n => some (s.setReg r (.word ((s.regs SP).bits J.host - .ofNat 64 n)))
  | .callTryLink => J.tryLinkBranch s
  | _ => none

/-- One step.  A call leaves some return address, and a branch slot lies anywhere and holds whatever
has been patched into it. -/
inductive Step : Cfg → Cfg → Prop
  | next {i : Naked} {rest : List Naked} {s s' : State Obj} (h : J.exec s i = some s') :
      Step (.naked (i :: rest) s) (.naked rest s')
  | call {r : ℕ} {rest : List Naked} {s : State Obj} {c : Cfg} (ra : BitVec 64)
      (h : J.callee ((s.regs r).bits J.host) (J.pushRet ra s) = some c) :
      Step (.naked (.callInd r :: rest) s) c
  | leave {i : Asm} {rest : List Naked} {t : Val Obj} {s s' : State Obj} {c : Cfg}
      (hi : i.exec J.host s = .leave t s') (h : J.target (t.bits J.host) s' = some c) :
      Step (.naked (.insn i :: rest) s) c
  | jmp {tgt : BitVec 64} {rest : List Naked} {s : State Obj} {c : Cfg}
      (h : J.target tgt s = some c) : Step (.naked (.jmp tgt :: rest) s) c
  | ret {rest : List Naked} {s : State Obj} :
      Step (.naked (.ret :: rest) s)
        (.returned (s.read J.host .q (.mem .q (.base SP 0))) (s.moveSp (· + 8) (· + 8)))
  | code {code : Code} {entry : State Obj} {c c' : X86.Asm.Cfg Obj BranchSlot}
      (h : X86.Asm.step J.host code c = some c') :
      Step (.region code entry c) (.region code entry c')
  | left {code : Code} {entry s : State Obj} {t : Val Obj} {c : Cfg}
      (h : J.target (t.bits J.host) s = some c) : Step (.region code entry (.left t s)) c
  | slot {code : Code} {entry s : State Obj} {d : BranchSlot} {rest : List Naked}
      (slot : BitVec 64) (m : ByteMem) (p : Patch)
      (h : slotCode slot (patch (J.stub_tab .link_branch_jit) slot m p) = some rest) :
      Step (.region code entry (.data d s)) (.naked rest s)

/-- Any number of steps. -/
def Reaches : Cfg → Cfg → Prop := Relation.ReflTransGen J.Step

/-- All regions have been generated. -/
def Generated : Prop :=
  ∀ tgt code, J.regions tgt = some code →
    ∃ segment r, SettledRegion r ∧ GenerateCode segment r = some code

/-- The functions that are compiled from C++ keep to the calling convention. -/
structure CallConv : Prop where
  stub : ∀ stub s s' sp, s.regs SP = .ptr .stack sp → J.host.call stub s = some (s', false) →
    Saved sp s s'
  tryLinkBranch : ∀ s s' sp, s.regs SP = .ptr .stack sp → J.tryLinkBranch s = some s' →
    Saved sp s s'

open Translate in
/-- Code is generated for the regions of jobs: what the translator puts out names no register of the
host and no slot of the frame. -/
lemma settled_of_translate {prog : BitVec 32 → BitVec 32}
    {ranges : List (BitVec 32 × BitVec 32)} {t : Translator} {segment : CodeSegment} {code : Code}
    (hnodup : (ranges.map Prod.fst).Nodup) (ht : Translator.translate prog ranges = some t)
    (h : GenerateCode segment t.region = some code) : SettledRegion t.region := by
  obtain ⟨⟨r₁, info⟩, hsel, h⟩ := Option.bind_eq_some_iff.mp h
  obtain ⟨r₂, hra, -⟩ := Option.bind_eq_some_iff.mp h
  have hcompile : compile prog ranges = some (t, r₂) :=
    Option.bind_eq_some_iff.mpr ⟨t, ht, Option.bind_eq_some_iff.mpr ⟨(r₁, info), hsel,
      Option.bind_eq_some_iff.mpr ⟨r₂, hra, rfl⟩⟩⟩
  have hcompiled := compiled_of_compile hnodup hcompile
  have hopr : ∀ {vi : VRegsInfo} {x : VOperand}, GuestOpr vi x → Settled x := by
    rintro vi (_ | ⟨ty, v⟩ | _ | _ | _) hx <;> trivial
  intro blk hblk ins hins
  have hguest := hcompiled.toTranslated.guest hcompiled.fits blk hblk ins hins
  refine ⟨fun x hx => ?_, fun x hx => hopr (hguest.input x hx), fun _ => trivial⟩
  rcases (hguest.output x hx).2 with hx | ⟨-, rfl⟩
  · exact hopr hx
  · trivial

/-! ### The discipline -/

/-- The stack pointer is a multiple of 16. -/
def Aligned (s : State Obj) : Prop := ((s.regs SP).bits J.host).toNat % 16 = 0

/-- Back at the caller of the trampoline, which was entered in state `s₀` with the stack pointer at
`top`: the return address is its own, and so are the saved registers and its part of the stack. -/
structure Restored (s₀ : State Obj) (top : ℕ) (ra : BitVec 64) (s : State Obj) : Prop where
  ra : ra = (s₀.mem (some .stack)).load top 8
  sp : s.regs SP = .ptr .stack (top + 8)
  regs : ∀ r ∈ savedRegs, (s.regs r).bits J.host = (s₀.regs r).bits J.host
  stack : ∀ a, top ≤ a → s.mem (some .stack) a = s₀.mem (some .stack) a

/-- The start of what the trampoline reserves, below the registers that it saves. -/
def reservedStart (top : ℕ) : ℕ := top - 8 * savedRegs.length - (spillframe_size + 8)

/-- The operand behind the stack pointer lies between the return address into the trampoline and the
registers that it has saved. -/
def InReserved (top : ℕ) (s : State Obj) (sz : Size) (disp : ℕ) : Prop :=
  ∃ a, s.resolve J.host (.base SP disp) = (some .stack, a) ∧ reservedStart top ≤ a ∧
    a + sz.bytes ≤ top - 8 * savedRegs.length

/-- The stack discipline.  Calls of functions that are compiled from C++ are aligned, operands
behind the stack pointer lie in what is reserved, a region is left with the stack pointer that it
was entered with, and an escape stub leads back to the caller of the trampoline. -/
def Disciplined (s₀ : State Obj) (top : ℕ) : Cfg → Prop
  | .naked code s => (code.head? = some .callTryLink → J.Aligned s) ∧
      (code = qcgstub_escape_link ∨ code = qcgstub_escape_brind →
        ∃ ra s', J.Reaches (.naked code s) (.returned ra s') ∧ J.Restored s₀ top ra s')
  | .region code _ (.at pc s) => ∀ i, code[pc]? = some (.insn i) →
      (∀ stub, i = .call stub → J.Aligned s) ∧
      ∀ sz disp, .mem sz (.base SP disp) ∈ StackFrame.opnds i → J.InReserved top s sz disp
  | .region _ entry (.left _ s) | .region _ entry (.data _ s) => s.regs SP = entry.regs SP
  | .region _ _ (.trap _) => True
  | .returned ra s => J.Restored s₀ top ra s

/-! ### The frame -/

/-- The frame of all regions, as it is at their entry. -/
def frame : StackFrame Obj := QEmit.frame ⟨⟨0, 0⟩, true⟩

lemma frame_stack : frame.stack = .stack := rfl
lemma frame_deep : frame.deep = 8 := rfl

/-- The stack below the caller, with the registers of state `s₀`. -/
def savedStack (s₀ : State Obj) (top : ℕ) : ByteMem :=
  pushed (s₀.mem (some .stack)) top (savedRegs.map fun r => (s₀.regs r).bits J.host)

/-- The stack pointer is `d` bytes below its place at the entry of all regions, and what the
trampoline has saved is there. -/
def Held (s₀ : State Obj) (top d : ℕ) (s : State Obj) : Prop :=
  frame.At (reservedStart top - 8) (J.savedStack s₀ top) d s

/-- All is as it was when the trampoline was called, except what a function may change. -/
structure Unwound (s₀ : State Obj) (top : ℕ) (s : State Obj) : Prop where
  sp : s.regs SP = .ptr .stack top
  regs : ∀ r ∈ savedRegs, (s.regs r).bits J.host = (s₀.regs r).bits J.host
  stack : ∀ a, top ≤ a → s.mem (some .stack) a = s₀.mem (some .stack) a

/-- How hand-written code may go on elsewhere. -/
def Ends (s₀ : State Obj) (top : ℕ) (s : State Obj) : Naked → Prop
  | .insn i => ∀ t s', i.exec J.host s = .leave t s' → J.Held s₀ top 0 s'
  | .callInd r => ∀ ra,
      ((s.regs r).bits J.host = J.stub_tab .link_branch_jit → J.Held s₀ top 8 (J.pushRet ra s)) ∧
      ((s.regs r).bits J.host ≠ J.stub_tab .link_branch_jit → J.Held s₀ top 0 (J.pushRet ra s))
  | .callTryLink => J.Aligned s
  | .jmp _ => J.Held s₀ top 0 s
  | .ret => J.Unwound s₀ top s
  | _ => True

/-- Hand-written code that goes on in the right way. -/
def Safe (s₀ : State Obj) (top : ℕ) : List Naked → State Obj → Prop
  | [], _ => True
  | i :: rest, s => J.Ends s₀ top s i ∧ ∀ s', J.exec s i = some s' → Safe s₀ top rest s'

section
variable {J} {s₀ s s' : State Obj} {top : ℕ} {code rest : List Naked} {i : Naked}

/-- Hand-written code up to some place. -/
inductive Goes (J : Jit) (s₀ : State Obj) (top : ℕ) (rest : List Naked) (s' : State Obj) :
    List Naked → State Obj → Prop
  | refl : Goes J s₀ top rest s' rest s'
  | next {i : Naked} {code : List Naked} {s s₁ : State Obj} (hi : J.Ends s₀ top s i)
      (hs : J.exec s i = some s₁) (h : Goes J s₀ top rest s' code s₁) :
      Goes J s₀ top rest s' (i :: code) s

lemma Goes.safe (h : Goes J s₀ top rest s' code s) (hs : J.Safe s₀ top rest s') :
    J.Safe s₀ top code s := by
  induction h with
  | refl => exact hs
  | next hi hs₁ _ ih =>
    refine ⟨hi, fun s₂ hs₂ => ?_⟩
    obtain rfl := Option.some.inj (hs₁.symm.trans hs₂)
    exact ih

lemma Goes.reaches (h : Goes J s₀ top rest s' code s) :
    J.Reaches (.naked code s) (.naked rest s') := by
  induction h with
  | refl => exact .refl
  | next _ hs _ ih => exact .head (.next hs) ih

lemma Goes.trans {mid : List Naked} {s₁ : State Obj} (h₁ : Goes J s₀ top mid s₁ code s)
    (h₂ : Goes J s₀ top rest s' mid s₁) : Goes J s₀ top rest s' code s := by
  induction h₁ with
  | refl => exact h₂
  | next hi hs _ ih => exact .next hi hs ih

/-- Instructions that the emitter uses as well. -/
lemma Goes.of_straight {is : List Asm} (h : Straight J.host is s s') :
    Goes J s₀ top rest s' (is.map .insn ++ rest) s := by
  induction is generalizing s with
  | nil =>
    obtain rfl : s' = s := h
    exact .refl
  | cons i is ih =>
    obtain ⟨s₁, hi, h⟩ := h
    refine .next (fun t s₂ hl => ?_) ?_ (ih h)
    · rw [hi] at hl
      cases hl
    · simp only [exec, hi]

lemma safe_insn {i : Asm} (hi : i.exec J.host s = .next s') (h : J.Safe s₀ top rest s') :
    J.Safe s₀ top (.insn i :: rest) s := by
  have hrun : Straight J.host [i] s s' := ⟨s', hi, rfl⟩
  exact (Goes.of_straight hrun).safe h

/-! ### Calls and jumps -/

lemma pushRet_eq {sp : ℕ} (hsp : s.regs SP = .ptr .stack sp) (ra : BitVec 64) :
    J.pushRet ra s = (s.setReg SP (.ptr .stack (sp - 8))).setMem (some .stack)
      ((s.mem (some .stack)).store (sp - 8) 8 ra) := by
  simp only [pushRet, State.moveSp, hsp, State.write, State.resolve, State.setReg_self,
    State.setReg_mem, Nat.add_zero, Size.bytes]

/-- A return address is pushed in the frame. -/
lemma Held.pushRet {d : ℕ} (hroom : 8 ≤ reservedStart top - 8) (hs : J.Held s₀ top d s)
    (hd : d + 8 ≤ 8) (ra : BitVec 64) : J.Held s₀ top (d + 8) (J.pushRet ra s) := by
  rw [pushRet_eq hs.sp]
  refine ⟨?_, hd, ?_, fun a ha => ?_⟩
  · rw [State.setMem_regs, State.setReg_self, Nat.sub_sub, frame_stack]
  · rw [State.setMem_regs, State.setReg_of_ne frame.fixed_ne]
    exact hs.fixed
  · have hlt : reservedStart top - 8 - d - 8 + 8 ≤ a := by omega
    rw [frame_stack, State.setMem_self, ByteMem.store_apply_of_notMem _ (Or.inr hlt)]
    exact hs.above a ha

/-- What a slot holds leads to a region or to the stub that links. -/
lemma Held.safe_slot {slot : BitVec 64} {m : ByteMem} {p : Patch}
    (hroom : 8 ≤ reservedStart top - 8) (hs : J.Held s₀ top 0 s)
    (hcode : slotCode slot (patch (J.stub_tab .link_branch_jit) slot m p) = some code) :
    J.Safe s₀ top code s := by
  have hmov : ∀ imm, ∃ s₁, (Insn.mov (.reg .q RAX) (.imm imm) : Asm).exec J.host s = .next s₁ ∧
      J.Held s₀ top 0 s₁ ∧ (s₁.regs RAX).bits J.host = imm := by
    intro imm
    have hax : Pool RAX := by decide
    refine ⟨_, rfl, StackFrame.At.writeVal hroom hs hax.scratch, ?_⟩
    simp only [State.writeVal, State.readVal, State.read, State.setReg_self, Val.bits]
    exact (BitVec.setWidth_eq _).trans (BitVec.setWidth_eq _)
  cases p with
  | linkLazyJIT =>
    rw [patch, slotCode_linkLazyJIT] at hcode
    cases hcode
    obtain ⟨s₁, hi, hs₁, hax⟩ := hmov (J.stub_tab .link_branch_jit)
    have hend : J.Ends s₀ top s₁ (.callInd RAX) :=
      fun ra => ⟨fun _ => hs₁.pushRet hroom le_rfl ra, fun hne => absurd hax hne⟩
    exact safe_insn hi ⟨hend, fun s₂ hs₂ => by cases hs₂⟩
  | link tgt =>
    rw [patch] at hcode
    rcases slotCode_link slot m tgt with hform | hform <;> rw [hform] at hcode <;> cases hcode
    · exact ⟨hs, fun s₂ hs₂ => by cases hs₂⟩
    · obtain ⟨s₁, hi, hs₁, -⟩ := hmov tgt
      refine safe_insn hi ⟨fun t s₂ hl => ?_, fun s₂ hs₂ => by cases hs₂⟩
      cases hl
      exact hs₁

/-- The stack pointer at the entry of all regions. -/
lemma Held.entry (hs : J.Held s₀ top 0 s) : s.regs SP = .ptr .stack (reservedStart top - 8) := by
  have hsp := hs.sp
  rwa [Nat.sub_zero] at hsp

lemma exec_addSp {sp : ℕ} (n : ℕ) (hsp : s.regs SP = .ptr .stack sp) :
    ∃ s₁, J.exec s (.addSp n) = some s₁ ∧ s₁.regs SP = .ptr .stack (sp + n) ∧
      s₁.mem = s.mem ∧ ∀ r ≠ SP, s₁.regs r = s.regs r := by
  refine ⟨_, rfl, ?_, rfl, fun r hr => State.setReg_of_ne hr⟩
  simp only [State.moveSp, hsp, State.setReg_self]

lemma exec_subSp {sp : ℕ} (n : ℕ) (hsp : s.regs SP = .ptr .stack sp) :
    ∃ s₁, J.exec s (.subSp n) = some s₁ ∧ s₁.regs SP = .ptr .stack (sp - n) ∧
      s₁.mem = s.mem ∧ ∀ r ≠ SP, s₁.regs r = s.regs r := by
  refine ⟨_, rfl, ?_, rfl, fun r hr => State.setReg_of_ne hr⟩
  simp only [State.moveSp, hsp, State.setReg_self]

/-- The escape stubs take the frame down and restore the registers. -/
lemma Held.unwind (hroom : 8 ≤ reservedStart top - 8) (hs : J.Held s₀ top 0 s) :
    ∃ s', Goes J s₀ top rest s' (.addSp (spillframe_size + 16) ::
      ((savedRegs.reverse.map .pop).map .insn ++ rest)) s ∧ J.Unwound s₀ top s' := by
  obtain ⟨s₁, hs₁, hsp₁, hmem₁, -⟩ := exec_addSp (J := J) (spillframe_size + 16) hs.entry
  have hplace : reservedStart top - 8 + (spillframe_size + 16) = top - 8 * savedRegs.length := by
    simp only [reservedStart, spillframe_size] at hroom ⊢
    omega
  rw [hplace] at hsp₁
  have htop : 8 * savedRegs.length ≤ top := by
    simp only [reservedStart] at hroom
    omega
  have hstack : ∀ a, top - 8 * savedRegs.length ≤ a →
      s.mem (some .stack) a = J.savedStack s₀ top a := by
    intro a ha
    refine hs.above a ?_
    simp only [frame, QEmit.frame, reservedStart, spillframe_size] at hroom ⊢
    omega
  have hpop : ∃ s', Straight J.host (savedRegs.reverse.map .pop : List Asm) s₁ s' ∧ _ :=
    straight_restore (List.length_map _) (by decide) (by decide) htop hsp₁
      (by rw [hmem₁]; exact hstack)
  obtain ⟨s', hrun, hsp', hmem', hregs'⟩ := hpop
  refine ⟨s', .next trivial hs₁ (.of_straight hrun), hsp', fun r hr => ?_, fun a ha => ?_⟩
  · obtain ⟨k, hk⟩ := List.mem_iff_getElem?.mp hr
    rw [hregs' k r _ hk (by rw [List.getElem?_map, hk]; rfl)]
    rfl
  · rw [hmem', hmem₁, hstack a (by omega)]
    exact pushed_of_le (by rw [List.length_map]; exact htop) ha

/-- An escape stub comes to its return with everything as it was. -/
lemma Held.escape (hroom : 8 ≤ reservedStart top - 8) (hs : J.Held s₀ top 0 s)
    (hcode : code = qcgstub_escape_link ∨ code = qcgstub_escape_brind) :
    ∃ s', Goes J s₀ top [.ret] s' code s ∧ J.Unwound s₀ top s' := by
  rcases hcode with rfl | rfl
  · exact hs.unwind hroom
  · have hunwind : ∃ s₁, Goes J s₀ top [.insn (.alu .xor (.reg .q RAX) (.reg .q RAX)), .ret] s₁
        qcgstub_escape_brind s ∧ J.Unwound s₀ top s₁ := hs.unwind hroom
    obtain ⟨s₁, hgoes, hs₁⟩ := hunwind
    obtain ⟨s₂, hexec, hmem, hregs⟩ : ∃ s₂, J.exec s₁
        (.insn (.alu .xor (.reg .q RAX) (.reg .q RAX))) = some s₂ ∧ s₂.mem = s₁.mem ∧
        ∀ r ≠ RAX, s₂.regs r = s₁.regs r :=
      ⟨_, rfl, rfl, fun r hr => State.setReg_of_ne hr⟩
    have hsaved : ∀ r ∈ savedRegs, r ≠ RAX := by decide
    refine ⟨s₂, hgoes.trans (.next (fun t s' hl => ?_) hexec .refl), ?_, fun r hr => ?_,
      fun a ha => ?_⟩
    · cases hl
    · rw [hregs SP (by decide)]
      exact hs₁.sp
    · rw [hregs r (hsaved r hr)]
      exact hs₁.regs r hr
    · rw [hmem]
      exact hs₁.stack a ha

lemma Held.safe_escape (hroom : 8 ≤ reservedStart top - 8) (hs : J.Held s₀ top 0 s)
    (hcode : code = qcgstub_escape_link ∨ code = qcgstub_escape_brind) :
    J.Safe s₀ top code s := by
  obtain ⟨s', hgoes, hs'⟩ := hs.escape hroom hcode
  exact hgoes.safe ⟨hs', fun s₂ hs₂ => by cases hs₂⟩

/-- What a function that keeps to the convention does to the frame. -/
lemma Held.saved {d : ℕ} (hs : J.Held s₀ top d s)
    (hcall : Saved (reservedStart top - 8 - d) s s') : J.Held s₀ top d s' :=
  StackFrame.At.call hs (Nat.sub_le _ _)
    ⟨hcall.regs SP (by decide), hcall.regs STATE (by decide), hcall.stack⟩

lemma toNat_ptr_mod (base : BitVec 64) (off : ℕ) :
    (base + .ofNat 64 off).toNat % 16 = (base.toNat + off) % 16 := by
  rw [BitVec.toNat_add, BitVec.toNat_ofNat]
  omega

/-- The frame is deep enough for calls to be aligned. -/
lemma Held.aligned (hroom : 8 ≤ reservedStart top - 8) (hsp : s₀.regs SP = .ptr .stack top)
    (halign : ((s₀.regs SP).bits J.host).toNat % 16 = 8) (hs : J.Held s₀ top 8 s) :
    J.Aligned s := by
  have hsp' : s.regs SP = .ptr .stack (reservedStart top - 8 - 8) := hs.sp
  rw [hsp, Val.bits, toNat_ptr_mod] at halign
  rw [Aligned, hsp', Val.bits, toNat_ptr_mod]
  simp only [reservedStart, savedRegs, spillframe_size, List.length_cons,
    List.length_nil] at hroom ⊢
  omega

/-- The stub that links makes its call with the return address into the slot on the stack, and goes
on without it. -/
lemma Held.safe_link (hconv : J.CallConv) (hroom : 8 ≤ reservedStart top - 8)
    (hsp : s₀.regs SP = .ptr .stack top)
    (halign : ((s₀.regs SP).bits J.host).toNat % 16 = 8) (hs : J.Held s₀ top 8 s) :
    J.Safe s₀ top qcgstub_link_branch_jit s := by
  obtain ⟨s₁, h₁, hs₁⟩ : ∃ s₁, (Insn.mov (.reg .q RSI) (.mem .q (.base SP 0)) : Asm).exec J.host s =
      .next s₁ ∧ J.Held s₀ top 8 s₁ :=
    ⟨_, rfl, StackFrame.At.writeVal hroom hs pool_rsi.scratch⟩
  obtain ⟨s₂, h₂, hs₂⟩ : ∃ s₂, (Insn.mov (.reg .q RDI) (.reg .q STATE) : Asm).exec J.host s₁ =
      .next s₂ ∧ J.Held s₀ top 8 s₂ :=
    ⟨_, rfl, StackFrame.At.writeVal hroom hs₁ pool_rdi.scratch⟩
  refine safe_insn h₁ (safe_insn h₂ ⟨hs₂.aligned hroom hsp halign, fun s₃ hs₃ => ?_⟩)
  have hs₃ : J.Held s₀ top 8 s₃ := hs₂.saved (hconv.tryLinkBranch s₂ s₃ _ hs₂.sp hs₃)
  have hpop : ∃ s₄, (Insn.pop RDI : Asm).exec J.host s₃ = .next s₄ ∧ J.Held s₀ top 0 s₄ :=
    StackFrame.At.pop hroom hs₃ le_rfl pool_rdi.scratch
  obtain ⟨s₄, h₄, hs₄⟩ := hpop
  refine safe_insn h₄ ⟨fun t s₅ hl => ?_, fun s₅ hs₅ => by cases hs₅⟩
  cases hl
  exact hs₄

/-- The trampoline comes to its call with the frame set up. -/
lemma goes_trampoline (hsp : s₀.regs SP = .ptr .stack top)
    (hstate : s₀.regs RDI = .ptr .state 0) :
    ∃ s', Goes J s₀ top [.callInd RDX, .int3] s' trampoline_to_jit s₀ ∧
      s'.regs RDX = s₀.regs RDX ∧ ∀ ra, J.Held s₀ top 0 (J.pushRet ra s') := by
  have hpush : ∃ s₁, Straight J.host (savedRegs.map .push : List Asm) s₀ s₁ ∧ _ :=
    straight_push (by decide) hsp
  obtain ⟨s₁, hrun, hsp₁, hregs₁, hmem₁⟩ := hpush
  let s₂ := s₁.setReg STATE (s₁.regs RDI)
  let s₃ := s₂.setReg MEMBASE (s₂.regs RSI)
  have hsp₃ : s₃.regs SP = .ptr .stack (top - 8 * savedRegs.length) :=
    (State.setReg_of_ne (by decide)).trans ((State.setReg_of_ne (by decide)).trans hsp₁)
  obtain ⟨s₄, h₄, hsp₄, hmem₄, hregs₄⟩ := exec_subSp (J := J) (spillframe_size + 8) hsp₃
  let s₅ := s₄.setReg RSI (.word ((s₄.regs SP).bits J.host - .ofNat 64 8))
  have hstate₅ : s₅.regs STATE = .ptr .state 0 :=
    calc s₅.regs STATE
        = s₄.regs STATE := State.setReg_of_ne (by decide)
      _ = s₃.regs STATE := hregs₄ STATE (by decide)
      _ = s₂.regs STATE := State.setReg_of_ne (by decide)
      _ = s₁.regs RDI := State.setReg_self
      _ = s₀.regs RDI := hregs₁ RDI (by decide)
      _ = .ptr .state 0 := hstate
  have hrdx₅ : s₅.regs RDX = s₀.regs RDX :=
    calc s₅.regs RDX
        = s₄.regs RDX := State.setReg_of_ne (by decide)
      _ = s₃.regs RDX := hregs₄ RDX (by decide)
      _ = s₂.regs RDX := State.setReg_of_ne (by decide)
      _ = s₁.regs RDX := State.setReg_of_ne (by decide)
      _ = s₀.regs RDX := hregs₁ RDX (by decide)
  have hsp₅ : s₅.regs SP = .ptr .stack (reservedStart top) :=
    (State.setReg_of_ne (by decide)).trans hsp₄
  obtain ⟨s₆, h₆, hregs₆, hmem₆⟩ : ∃ s₆, (Insn.mov (.mem .q (.base STATE spUnwindptrOffs))
      (.reg .q RSI) : Asm).exec J.host s₅ = .next s₆ ∧ s₆.regs = s₅.regs ∧
      s₆.mem (some .stack) = s₅.mem (some .stack) := by
    refine ⟨_, rfl, rfl, ?_⟩
    simp only [State.writeVal, State.write, State.resolve, hstate₅]
    exact State.setMem_of_ne (by decide)
  refine ⟨s₆, ?_, by rw [hregs₆, hrdx₅], fun ra => ?_⟩
  · have hnext : ∀ {i : Asm} {code : List Naked} {s s₁ : State Obj}, i.exec J.host s = .next s₁ →
        Goes J s₀ top [.callInd RDX, .int3] s₆ code s₁ →
        Goes J s₀ top [.callInd RDX, .int3] s₆ (.insn i :: code) s := by
      intro i code s s₁ hi h
      have hone : Straight J.host [i] s s₁ := ⟨s₁, hi, rfl⟩
      exact (Goes.of_straight hone).trans h
    refine (Goes.of_straight hrun).trans (hnext rfl (hnext rfl (.next trivial h₄
      (.next trivial rfl (hnext h₆ .refl)))))
  · rw [pushRet_eq (by rw [hregs₆]; exact hsp₅)]
    refine ⟨?_, Nat.zero_le _, ?_, fun a ha => ?_⟩
    · rw [State.setMem_regs, State.setReg_self, frame_stack, Nat.sub_zero]
    · rw [State.setMem_regs, State.setReg_of_ne frame.fixed_ne, hregs₆]
      exact hstate₅
    · have hstack : s₅.mem (some .stack) = J.savedStack s₀ top := (congrFun hmem₄ _).trans hmem₁
      have hlt : reservedStart top - 8 + 8 ≤ a := by
        simp only [frame, QEmit.frame] at ha
        omega
      rw [frame_stack, State.setMem_self, ByteMem.store_apply_of_notMem _ (Or.inr hlt), hmem₆,
        hstack]

/-! ### Runs -/

/-- The return of an escape stub. -/
lemma Unwound.restored (hs : J.Unwound s₀ top s) :
    J.Restored s₀ top (s.read J.host .q (.mem .q (.base SP 0))) (s.moveSp (· + 8) (· + 8)) := by
  refine ⟨?_, ?_, fun r hr => ?_, hs.stack⟩
  · simp only [State.read, State.resolve, hs.sp, Nat.add_zero, Size.bytes]
    exact ByteMem.load_congr fun a ha _ => hs.stack a ha
  · simp only [State.moveSp, hs.sp, State.setReg_self]
  · have hne : ∀ r ∈ savedRegs, r ≠ SP := by decide
    rw [State.moveSp, State.setReg_of_ne (hne r hr)]
    exact hs.regs r hr

/-- What holds all along a run that the trampoline starts. -/
def Ok (J : Jit) (s₀ : State Obj) (top : ℕ) : Cfg → Prop
  | .naked code s => J.Safe s₀ top code s
  | .region code entry c => J.Held s₀ top 0 entry ∧ ∃ (ce : QEmit) (d' : Option ℕ),
      ce.frame.Checks (some 0) code d' ∧
      ce.frame.Kept (reservedStart top - 8) (J.savedStack s₀ top) code d' c
  | .returned ra s => J.Restored s₀ top ra s

/-- The frames of all regions have the same place. -/
lemma held_iff {ce : QEmit} {d : ℕ} :
    J.Held s₀ top d s ↔ ce.frame.At (reservedStart top - 8) (J.savedStack s₀ top) d s :=
  ⟨fun h => ⟨h.sp, h.deep, h.fixed, h.above⟩, fun h => ⟨h.sp, h.deep, h.fixed, h.above⟩⟩

/-- A region is entered. -/
lemma Held.ok_region (hgen : J.Generated) {tgt : BitVec 64} {code : Code}
    (hcode : J.regions tgt = some code) (hs : J.Held s₀ top 0 s) :
    J.Ok s₀ top (.region code s (.at 0 s)) := by
  obtain ⟨segment, r, hr, hgenerate⟩ := hgen tgt code hcode
  obtain ⟨ce, -, -, ⟨d', hchecks⟩, -⟩ := generateCode_checks hr hgenerate
  exact ⟨hs, ce, d', hchecks, 0, hchecks, held_iff.mp hs⟩

/-- A jump out of a region. -/
lemma Held.ok_target (hgen : J.Generated) (hroom : 8 ≤ reservedStart top - 8) {tgt : BitVec 64}
    {c : Cfg} (hs : J.Held s₀ top 0 s) (hc : J.target tgt s = some c) : J.Ok s₀ top c := by
  rw [target] at hc
  split at hc
  · rename_i code hcode
    cases hc
    exact hs.ok_region hgen hcode
  · split at hc
    · cases hc
      exact hs.safe_escape hroom (.inl rfl)
    · split at hc
      · cases hc
        exact hs.safe_escape hroom (.inr rfl)
      · cases hc

/-- What is assumed of a run: the regions have been generated, the functions that are compiled from
C++ keep to the convention, and so did the caller of the trampoline. -/
structure Entered (J : Jit) (s₀ : State Obj) (top : ℕ) : Prop where
  generated : J.Generated
  callConv : J.CallConv
  sp : s₀.regs SP = .ptr .stack top
  aligned : ((s₀.regs SP).bits J.host).toNat % 16 = 8
  /-- The stack does not overflow. -/
  room : 8 ≤ reservedStart top - 8
  state : s₀.regs RDI = .ptr .state 0
  tc_ptr : J.regions ((s₀.regs RDX).bits J.host) ≠ none

lemma Entered.convention (h : J.Entered s₀ top) (ce : QEmit) : ce.frame.Convention J.host := by
  intro stub s s' sp hsp hstub
  have hsaved := h.callConv.stub stub s s' sp hsp hstub
  exact ⟨hsaved.regs SP (by decide), hsaved.regs STATE (by decide), hsaved.stack⟩

/-- A call of hand-written code. -/
lemma Entered.ok_callee (h : J.Entered s₀ top) {r : ℕ} {ra : BitVec 64} {c : Cfg}
    (hs : J.Ends s₀ top s (.callInd r))
    (hc : J.callee ((s.regs r).bits J.host) (J.pushRet ra s) = some c) : J.Ok s₀ top c := by
  rw [callee] at hc
  split at hc
  · rename_i hlink
    cases hc
    exact ((hs ra).1 hlink).safe_link h.callConv h.room h.sp h.aligned
  · rename_i hlink
    obtain ⟨code, hcode, rfl⟩ := Option.map_eq_some_iff.mp hc
    exact ((hs ra).2 hlink).ok_region h.generated hcode

/-- The trampoline starts well. -/
lemma Entered.start (h : J.Entered s₀ top) : J.Ok s₀ top (.naked trampoline_to_jit s₀) := by
  obtain ⟨s', hgoes, hrdx, hheld⟩ := goes_trampoline h.sp h.state
  refine hgoes.safe ⟨fun ra => ⟨fun hlink => ?_, fun _ => hheld ra⟩, fun s₁ hs₁ => by cases hs₁⟩
  -- no region lies where the stub is
  rw [hrdx] at hlink
  exact absurd (hlink ▸ J.apart .link_branch_jit) h.tc_ptr

/-- One step. -/
lemma Entered.step (h : J.Entered s₀ top) {c c' : Cfg} (hc : J.Ok s₀ top c) (hstep : J.Step c c') :
    J.Ok s₀ top c' := by
  cases hstep with
  | next hexec => exact hc.2 _ hexec
  | call ra hcallee => exact h.ok_callee hc.1 hcallee
  | leave hi htarget => exact (hc.1 _ _ hi).ok_target h.generated h.room htarget
  | jmp htarget => exact Held.ok_target h.generated h.room hc.1 htarget
  | ret => exact hc.1.restored
  | code hcode =>
    obtain ⟨hentry, ce, d', hchecks, hkept⟩ := hc
    exact ⟨hentry, ce, d', hchecks, hkept.step hchecks (h.convention ce) h.room hcode⟩
  | left htarget =>
    obtain ⟨-, ce, d', -, hkept⟩ := hc
    exact (held_iff.mpr hkept).ok_target h.generated h.room htarget
  | slot slot m p hcode =>
    obtain ⟨-, ce, d', -, hkept⟩ := hc
    exact (held_iff.mpr hkept).safe_slot h.room hcode

lemma Entered.ok (h : J.Entered s₀ top) {c c' : Cfg} (hc : J.Ok s₀ top c) (hr : J.Reaches c c') :
    J.Ok s₀ top c' := by
  induction hr with
  | refl => exact hc
  | tail _ hstep ih => exact h.step ih hstep

/-- The escape stubs come to their return from any state. -/
lemma escape_returns (hcode : code = qcgstub_escape_link ∨ code = qcgstub_escape_brind) :
    ∃ ra s', J.Reaches (.naked code s) (.returned ra s') := by
  have hnext : ∀ {i : Naked} {rest : List Naked} {s s₁ : State Obj}, J.exec s i = some s₁ →
      (∃ ra s', J.Reaches (.naked rest s₁) (.returned ra s')) →
      ∃ ra s', J.Reaches (.naked (i :: rest) s) (.returned ra s') := by
    rintro i rest s s₁ hi ⟨ra, s', hr⟩
    exact ⟨ra, s', .head (.next hi) hr⟩
  rcases hcode with rfl | rfl
  · iterate 7 refine hnext rfl ?_
    exact ⟨_, _, .single .ret⟩
  · iterate 8 refine hnext rfl ?_
    exact ⟨_, _, .single .ret⟩

/-- An operand behind the stack pointer lies in what is reserved. -/
lemma Held.inReserved {ce : QEmit} {d disp : ℕ} {sz : Size} (hs : J.Held s₀ top d s)
    (hd : ce.frame.Within d sz.bytes (.base SP disp)) (hroom : 8 ≤ reservedStart top - 8) :
    J.InReserved top s sz disp := by
  obtain ⟨hlo, hhi⟩ := hd rfl
  have hdeep := hs.deep
  refine ⟨reservedStart top - 8 - d + disp, ?_, ?_, ?_⟩
  · simp only [State.resolve, hs.sp, frame_stack]
  all_goals
    simp only [QEmit.frame, frame_deep, reservedStart, savedRegs, spillframe_size, List.length_cons,
      List.length_nil] at hlo hhi hdeep hroom ⊢
    omega

lemma Entered.disciplined (h : J.Entered s₀ top) {c : Cfg} (hc : J.Ok s₀ top c) :
    J.Disciplined s₀ top c := by
  rcases c with ⟨code, s⟩ | ⟨code, entry, c⟩ | ⟨ra, s⟩
  · refine ⟨fun hhead => ?_, fun hcode => ?_⟩
    · obtain ⟨rest, rfl⟩ := List.head?_eq_some_iff.mp hhead
      exact hc.1
    · obtain ⟨ra, s', hr⟩ := escape_returns (s := s) hcode
      exact ⟨ra, s', hr, h.ok hc hr⟩
  · obtain ⟨hentry, ce, d', hchecks, hkept⟩ := hc
    rcases c with ⟨pc, s⟩ | ⟨t, s⟩ | ⟨k, s⟩ | s
    · intro i hi
      obtain ⟨n, hfits, hs⟩ := hkept.fits hi
      have hheld : J.Held s₀ top n s := held_iff.mpr hs
      refine ⟨?_, fun sz disp hopnd => hheld.inReserved (hfits.reads hopnd) h.room⟩
      rintro stub rfl
      obtain rfl : n = 8 := hfits
      exact hheld.aligned h.room h.sp h.aligned
    · exact (held_iff.mpr hkept).entry.trans hentry.entry.symm
    · exact (held_iff.mpr hkept).entry.trans hentry.entry.symm
    · trivial
  · exact hc

end

/-- Along every run that the trampoline starts, through any number of regions, the stack discipline
holds. -/
theorem stack_discipline {J : Jit} {s₀ : State Obj} {top : ℕ} {c : Cfg} (h : J.Entered s₀ top)
    (hr : J.Reaches (.naked trampoline_to_jit s₀) c) : J.Disciplined s₀ top c :=
  h.disciplined (h.ok h.start hr)

/-! ### A small process -/

/-- A process with one region, which branches to a guest address that has not been translated. -/
def sampleJit : Jit where
  host := idleHost
  stub_tab
    | .link_branch_jit => 0x1000
    | .escape_link => 0x2000
    | .escape_brind => 0x3000
    | _ => 0
  regions tgt := if tgt = 0x4000 then GenerateCode ⟨0, 4096⟩ (sampleRegion []) else none
  tryLinkBranch s := some (s.setReg RDX (.word 0x2000))
  apart stub := by cases stub <;> rfl

/-- The trampoline is called with a stack of a few kilobytes. -/
def sampleEntry : State Obj where
  regs r := if r = SP then .ptr .stack 4104 else if r = RDI then .ptr .state 0 else .word 0x4000
  flags := .sub (0 : BitVec 64) 0
  mem _ _ := 0

lemma generateCode_sample : GenerateCode ⟨0, 4096⟩ (sampleRegion []) =
    some [.label 0, .data ⟨0, false⟩] := by
  decide +kernel

lemma entered_sample : sampleJit.Entered sampleEntry 4104 where
  generated tgt code hcode := by
    have hsettled : SettledRegion (sampleRegion []) := by
      intro blk hblk ins hins
      rw [List.mem_singleton.mp hblk] at hins
      rw [List.mem_singleton.mp hins]
      exact ⟨fun x hx => (by cases hx), fun x hx => (by cases hx), fun _ => trivial⟩
    simp only [sampleJit] at hcode
    split at hcode
    · exact ⟨_, _, hsettled, hcode⟩
    · cases hcode
  callConv := by
    refine ⟨fun stub s s' sp _ h => ?_, fun s s' sp _ h => ?_⟩
    · cases h
      exact ⟨fun _ _ => rfl, fun _ _ => rfl⟩
    · cases h
      exact .setReg (by decide)
  sp := rfl
  aligned := by decide
  room := by decide
  state := rfl
  tc_ptr := by
    have hregions : sampleJit.regions ((sampleEntry.regs RDX).bits sampleJit.host) =
        GenerateCode ⟨0, 4096⟩ (sampleRegion []) := rfl
    rw [hregions, generateCode_sample]
    exact Option.some_ne_none _

/-- The region is entered, its slot calls the stub that links, and that jumps to the escape stub. -/
lemma returns_sample :
    ∃ ra s, sampleJit.Reaches (.naked trampoline_to_jit sampleEntry) (.returned ra s) := by
  have hregion : sampleJit.regions 0x4000 = some [.label 0, .data ⟨0, false⟩] :=
    generateCode_sample
  obtain ⟨s₁, hgoes, hrdx, -⟩ := goes_trampoline (J := sampleJit) entered_sample.sp
    entered_sample.state
  let s₂ := sampleJit.pushRet 0 s₁
  have hcall : sampleJit.callee ((s₁.regs RDX).bits sampleJit.host) s₂ =
      some (.region [.label 0, .data ⟨0, false⟩] s₂ (.at 0 s₂)) := by
    rw [hrdx, callee, if_neg (by decide)]
    exact congrArg (Option.map _) hregion
  let s₃ := s₂.writeVal idleHost (.reg .q RAX) (.word 0x1000)
  let s₄ := sampleJit.pushRet 0 s₃
  let s₅ := s₄.writeVal idleHost (.reg .q RSI) (s₄.readVal idleHost .q (.mem .q (.base SP 0)))
  let s₆ := s₅.writeVal idleHost (.reg .q RDI) (s₅.readVal idleHost .q (.reg .q STATE))
  let s₇ := s₆.setReg RDX (.word 0x2000)
  let s₈ := (s₇.moveSp (· + 8) (· + 8)).setReg RDI
    (.word (s₇.read idleHost .q (.mem .q (.base SP 0))))
  obtain ⟨ra, s, hreturn⟩ := escape_returns (J := sampleJit) (s := s₈) (.inl rfl)
  refine ⟨ra, s, hgoes.reaches.trans (.head (.call 0 hcall) ?_)⟩
  refine .head (.code rfl) (.head (.code rfl) (.head (.slot 0 0 .linkLazyJIT
    (slotCode_linkLazyJIT _ _ _)) ?_))
  have hmov : sampleJit.exec s₂ (.insn (.mov (.reg .q RAX) (.imm 0x1000))) = some s₃ := rfl
  have hstub : sampleJit.callee ((s₃.regs RAX).bits sampleJit.host) s₄ =
      some (.naked qcgstub_link_branch_jit s₄) := rfl
  refine .head (.next hmov) (.head (.call 0 hstub) ?_)
  have hslot : sampleJit.exec s₄ (.insn (.mov (.reg .q RSI) (.mem .q (.base SP 0)))) = some s₅ :=
    rfl
  have hstate : sampleJit.exec s₅ (.insn (.mov (.reg .q RDI) (.reg .q STATE))) = some s₆ := rfl
  have hlink : sampleJit.exec s₆ .callTryLink = some s₇ := rfl
  have hpop : sampleJit.exec s₇ (.insn (.pop RDI)) = some s₈ := rfl
  have htarget : sampleJit.target ((s₈.regs RDX).bits sampleJit.host) s₈ =
      some (.naked qcgstub_escape_link s₈) := rfl
  exact .head (.next hslot) (.head (.next hstate) (.head (.next hlink) (.head (.next hpop)
    (.head (.leave rfl htarget) hreturn))))

theorem stack_discipline_sample : ∃ ra s,
    sampleJit.Reaches (.naked trampoline_to_jit sampleEntry) (.returned ra s) ∧
      sampleJit.Disciplined sampleEntry 4104 (.returned ra s) := by
  obtain ⟨ra, s, hr⟩ := returns_sample
  exact ⟨ra, s, hr, stack_discipline entered_sample hr⟩

end Jit

end Rv32jit.Qcg
