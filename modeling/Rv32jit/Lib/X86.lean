/-
# Jumps and calls of x86-64

The encodings by which patched code passes control on, decoded from bytes, and what they do to the
instruction pointer, `rax` and the stack.  The code is given by offsets from its base, and the
addresses are those of the processor, modulo the range of an address.
-/
import Rv32jit.Lib.ByteMem

namespace X86

/-- The instructions of the subset. -/
inductive Insn
  | movRax (imm : BitVec 64)
  | callRax
  | jmpRax
  | jmpRel (rel : BitVec 32)
deriving DecidableEq

/-- The instruction at an offset, with its length. -/
def decode (code : ByteMem) (o : ℕ) : Option (Insn × ℕ) :=
  if (code.load o 1 : BitVec 8) = 0xE9 then some (.jmpRel (code.load (o + 1) 4), 5)
  else if (code.load o 2 : BitVec 16) = 0xB848 then some (.movRax (code.load (o + 2) 8), 10)
  else if (code.load o 2 : BitVec 16) = 0xD0FF then some (.callRax, 2)
  else if (code.load o 2 : BitVec 16) = 0xE0FF then some (.jmpRax, 2)
  else none

/-- The registers that matter, and the return addresses that have been pushed. -/
structure State where
  rip : BitVec 64
  rax : BitVec 64
  pushed : List (BitVec 64)

/-- The effect of an instruction of a given length. -/
def exec (s : State) (len : ℕ) : Insn → State
  | .movRax imm => { s with rip := s.rip + .ofNat 64 len, rax := imm }
  | .callRax => { s with rip := s.rax, pushed := (s.rip + .ofNat 64 len) :: s.pushed }
  | .jmpRax => { s with rip := s.rax }
  | .jmpRel rel => { s with rip := s.rip + .ofNat 64 len + rel.signExtend 64 }

/-- The instruction at the instruction pointer is executed. -/
def step (code : ByteMem) (base : BitVec 64) (s : State) : Option State :=
  (decode code (s.rip - base).toNat).map fun i => exec s i.2 i.1

variable {code : ByteMem} {base : BitVec 64} {s : State} {o : ℕ}

lemma load_byte (code : ByteMem) (o : ℕ) : (code.load o 1 : BitVec 8) = code o := by
  simp [ByteMem.load]

/-- A step at an offset of which the instruction is known. -/
lemma step_of_decode {i : Insn × ℕ} (hd : decode code o = some i) (ho : o < 2 ^ 64)
    (hs : s.rip = base + .ofNat 64 o) : step code base s = some (exec s i.2 i.1) := by
  have hoff : (s.rip - base).toNat = o := by
    rw [hs, BitVec.add_comm, BitVec.add_sub_cancel, BitVec.toNat_ofNat, Nat.mod_eq_of_lt ho]
  rw [step, hoff, hd]
  rfl

/-- A displacement survives the round trip through 32 bits if and only if it is in their range. -/
lemma signExtend_setWidth_iff (x : BitVec 64) :
    (x.setWidth 32).signExtend 64 = x ↔ -2 ^ 31 ≤ x.toInt ∧ x.toInt < 2 ^ 31 := by
  rw [← BitVec.toInt_inj, BitVec.toInt_signExtend_of_le (by omega), BitVec.toInt_setWidth,
    Int.bmod_def, BitVec.toInt_eq_toNat_cond]
  have hlt := x.isLt
  split <;> split <;> omega

end X86
