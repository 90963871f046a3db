/-
# The instruction set RV32I

The base integer instruction set with `fence.i`, by what its instructions mean: the operations are
those on the integers that the registers stand for, `x0` is zero in every state, and the memory is
a ring of bytes.  A jump or a taken branch to an address that is not a multiple of four is an
exception, as are the two calls of the environment; an instruction with an exception has no other
effect.
-/
import Mathlib.Tactic

namespace Rv32i

/-! ### Instructions -/

/-- A word of the machine. -/
abbrev Word : Type := BitVec 32

/-- The name of a register. -/
abbrev Reg : Type := Fin 32

/-- The operations on registers and immediates. -/
inductive AluOp
  | add | sub | sll | slt | sltu | xor | srl | sra | or | and
deriving DecidableEq

/-- The conditions of branches. -/
inductive Cond
  | eq | ne | lt | ge | ltu | geu
deriving DecidableEq

/-- The widths of loads and stores. -/
inductive Width
  | byte | half | word
deriving DecidableEq

/-- The instructions, with their immediates as they are after sign extension. -/
inductive Instr
  | lui (rd : Reg) (imm : Word)
  | auipc (rd : Reg) (imm : Word)
  | jal (rd : Reg) (imm : Word)
  | jalr (rd rs1 : Reg) (imm : Word)
  | branch (c : Cond) (rs1 rs2 : Reg) (imm : Word)
  | load (w : Width) (signed : Bool) (rd rs1 : Reg) (imm : Word)
  | store (w : Width) (rs1 rs2 : Reg) (imm : Word)
  | opImm (f : AluOp) (rd rs1 : Reg) (imm : Word)
  | op (f : AluOp) (rd rs1 rs2 : Reg)
  | fence
  | fenceI
  | ecall
  | ebreak
deriving DecidableEq

/-- The value of an operation; a shift is by the lowest five bits of the second source. -/
def AluOp.eval (op : AluOp) (x y : Word) : Word :=
  match op with
  | add => .ofInt 32 (x.toInt + y.toInt)
  | sub => .ofInt 32 (x.toInt - y.toInt)
  | sll => .ofNat 32 (x.toNat * 2 ^ (y.toNat % 32))
  | slt => if x.toInt < y.toInt then 1 else 0
  | sltu => if x.toNat < y.toNat then 1 else 0
  | xor => x ^^^ y
  | srl => .ofNat 32 (x.toNat / 2 ^ (y.toNat % 32))
  | sra => .ofInt 32 (x.toInt / 2 ^ (y.toNat % 32))
  | or => x ||| y
  | and => x &&& y

/-- The condition holds of two words. -/
def Cond.holds (c : Cond) (x y : Word) : Prop :=
  match c with
  | eq => x = y
  | ne => x ≠ y
  | lt => x.toInt < y.toInt
  | ge => y.toInt ≤ x.toInt
  | ltu => x.toNat < y.toNat
  | geu => y.toNat ≤ x.toNat

instance (c : Cond) (x y : Word) : Decidable (c.holds x y) := by
  unfold Cond.holds
  cases c <;> infer_instance

/-- The number of bytes that are accessed. -/
def Width.bytes : Width → ℕ
  | byte => 1
  | half => 2
  | word => 4

/-! ### States -/

/-- The architectural state. -/
@[ext]
structure State where
  pc : Word
  x : Reg → Word
  x0 : x 0 = 0
  mem : Word → BitVec 8

/-- The reasons to trap. -/
inductive Trap
  | misaligned | illegal | breakpoint | call
deriving DecidableEq

namespace State

variable (s : State)

/-- The state with a register set; `x0` stays as it is. -/
def set (rd : Reg) (v : Word) : State where
  pc := s.pc
  x r := if r = rd ∧ r ≠ 0 then v else s.x r
  x0 := by simp [s.x0]
  mem := s.mem

/-- Some bytes of the memory as a number. -/
def bytes (a : Word) (n : ℕ) : ℕ := ∑ i ∈ Finset.range n, (s.mem (a + .ofNat 32 i)).toNat * 256 ^ i

/-- The state with some bytes of the memory set to those of a number. -/
def setBytes (a : Word) (n v : ℕ) : State :=
  { s with mem := fun b =>
      if (b - a).toNat < n then .ofNat 8 (v / 256 ^ (b - a).toNat) else s.mem b }

/-- On to the next instruction. -/
def next : State := { s with pc := s.pc + 4 }

/-- Goes to an address, which has to be aligned. -/
def jump (target : Word) : Except Trap State :=
  if target.toNat % 4 = 0 then .ok { s with pc := target } else .error .misaligned

end State

/-! ### The meaning of an instruction -/

/-- The effect of one instruction. -/
def Instr.exec (i : Instr) (s : State) : Except Trap State :=
  match i with
  | lui rd imm => .ok (s.set rd imm).next
  | auipc rd imm => .ok (s.set rd (s.pc + imm)).next
  | jal rd imm => (s.set rd (s.pc + 4)).jump (s.pc + imm)
  | jalr rd rs1 imm => (s.set rd (s.pc + 4)).jump (.ofNat 32 ((s.x rs1 + imm).toNat / 2 * 2))
  | branch c rs1 rs2 imm => if c.holds (s.x rs1) (s.x rs2) then s.jump (s.pc + imm) else .ok s.next
  | load w signed rd rs1 imm =>
      let v := s.bytes (s.x rs1 + imm) w.bytes
      .ok (s.set rd (.ofInt 32 (if signed then Int.bmod v (256 ^ w.bytes) else v))).next
  | store w rs1 rs2 imm => .ok (s.setBytes (s.x rs1 + imm) w.bytes (s.x rs2).toNat).next
  | opImm f rd rs1 imm => .ok (s.set rd (f.eval (s.x rs1) imm)).next
  | op f rd rs1 rs2 => .ok (s.set rd (f.eval (s.x rs1) (s.x rs2))).next
  | fence | fenceI => .ok s.next
  | ecall => .error .call
  | ebreak => .error .breakpoint

/-- The bytes of the memory that an instruction accesses: an address and a number. -/
def Instr.accesses (i : Instr) (s : State) : Word × ℕ :=
  match i with
  | load w _ _ rs1 imm => (s.x rs1 + imm, w.bytes)
  | store w rs1 _ imm => (s.x rs1 + imm, w.bytes)
  | _ => (0, 0)

/-- An instruction keeps the instruction address a multiple of four. -/
lemma Instr.exec_aligned {i : Instr} {s s' : State} (hpc : s.pc.toNat % 4 = 0)
    (h : i.exec s = .ok s') : s'.pc.toNat % 4 = 0 := by
  have hnext : (s.pc + 4).toNat % 4 = 0 := by
    rw [BitVec.toNat_add, show (4 : Word).toNat = 4 from rfl]
    omega
  have hjump : ∀ {s₁ : State} {target : Word}, s₁.jump target = .ok s' →
      s'.pc.toNat % 4 = 0 := by
    intro s₁ target h
    rw [State.jump] at h
    split at h
    · cases h
      assumption
    · cases h
  cases i with
  | jal | jalr => exact hjump h
  | branch c rs1 rs2 imm =>
    simp only [exec] at h
    split at h
    · exact hjump h
    · cases h
      exact hnext
  | ecall | ebreak => cases h
  | _ =>
    cases h
    exact hnext

/-! ### Runs -/

/-- The word that is the next instruction. -/
def State.fetch (s : State) : Word := .ofNat 32 (s.bytes s.pc 4)

/-- A state, and the exception that the hart has stopped on. -/
structure Hart where
  state : State
  stopped : Option Trap := none

/-- What a hart is after an instruction in the state `s`. -/
def Hart.after (s : State) (x : Except Trap State) : Hart :=
  match x with
  | .ok s' => ⟨s', none⟩
  | .error t => ⟨s, some t⟩

/-- A step of a hart in its environment, for the words that `Spells` gives to the instructions;
with the address and the word of the instruction.  The environment answers a call in `x10`, and may
do so in the memory. -/
inductive Step (Spells : Instr → Word → Prop) : Hart → List (Word × Word) → Hart → Prop
  | insn {s : State} {i : Instr} (h : Spells i s.fetch) :
      Step Spells ⟨s, none⟩ [(s.pc, s.fetch)] (.after s (i.exec s))
  | illegal {s : State} (h : ∀ i, ¬ Spells i s.fetch) :
      Step Spells ⟨s, none⟩ [(s.pc, s.fetch)] ⟨s, some .illegal⟩
  | call {s : State} (v : Word) (mem : Word → BitVec 8) :
      Step Spells ⟨s, some .call⟩ [] ⟨{ (s.set 10 v).next with mem := mem }, none⟩

/-- A run of a hart, with the addresses and the words of its instructions. -/
inductive Run (Spells : Instr → Word → Prop) (x : Hart) : List (Word × Word) → Hart → Prop
  | nil : Run Spells x [] x
  | step {y z : Hart} {l l' : List (Word × Word)} (hrun : Run Spells x l y)
      (hstep : Step Spells y l' z) : Run Spells x (l ++ l') z

variable {Spells : Instr → Word → Prop} {x y z : Hart} {l : List (Word × Word)}

lemma Step.aligned (h : Step Spells x l y) (hpc : x.state.pc.toNat % 4 = 0) :
    y.state.pc.toNat % 4 = 0 := by
  cases h with
  | @insn s i h =>
    cases hx : i.exec s with
    | ok s' => exact Instr.exec_aligned hpc hx
    | error t => exact hpc
  | illegal h => exact hpc
  | @call s v mem =>
    change (s.pc + 4).toNat % 4 = 0
    have hpc : s.pc.toNat % 4 = 0 := hpc
    rw [BitVec.toNat_add, show (4 : Word).toNat = 4 from rfl]
    omega

lemma Run.aligned (h : Run Spells x l y) (hpc : x.state.pc.toNat % 4 = 0) :
    y.state.pc.toNat % 4 = 0 := by
  induction h with
  | nil => exact hpc
  | step _ hstep ih => exact hstep.aligned ih

end Rv32i
