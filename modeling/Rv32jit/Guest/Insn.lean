/-
# RV32I instructions

`rv32_ops.h`, `rv32_insn.h` and `rv32_decode.h`: the opcodes with their formats and flags, the
fields of the formats, and the decoder that both engines share.
-/
import Rv32jit.Util.BitField

namespace Rv32jit.Insn

/-- The opcodes, in the order of `RV32_OPCODE_LIST`. -/
inductive Op
  | illegal
  | lui | auipc | jal | jalr
  | beq | bne | blt | bge | bltu | bgeu
  | lb | lh | lw | lbu | lhu
  | sb | sh | sw
  | addi | slti | sltiu | xori | ori | andi
  | slli | srai | srli
  | sub | add | sll | slt | sltu | xor | sra | srl | or | and
  | fence | fencei | ecall | ebreak
deriving DecidableEq, Repr

/-- The instruction formats of `INSN_FORMAT`. -/
inductive Format
  | Base | U | J | I | B | S | IS | R
deriving DecidableEq, Repr

/-- `insn::Flags`. -/
structure Flags where
  Branch : Bool := false
  MayTrap : Bool := false
  Trap : Bool := false
  HasRd : Bool := false
deriving DecidableEq, Repr

namespace Op

/-- The format of an opcode. -/
def format : Op → Format
  | illegal | fence | fencei | ecall | ebreak => .Base
  | lui | auipc => .U
  | jal => .J
  | jalr | lb | lh | lw | lbu | lhu | addi | slti | sltiu | xori | ori | andi => .I
  | beq | bne | blt | bge | bltu | bgeu => .B
  | sb | sh | sw => .S
  | slli | srai | srli => .IS
  | sub | add | sll | slt | sltu | xor | sra | srl | or | and => .R

/-- `gen_flags` of the format. -/
def hasRd (op : Op) : Bool :=
  match op.format with
  | .U | .J | .I | .IS | .R => true
  | .Base | .B | .S => false

/-- `Insn_name::flags`. -/
def flags (op : Op) : Flags :=
  match op with
  | illegal | ecall | ebreak => { Trap := true, HasRd := op.hasRd }
  | jal | jalr | beq | bne | blt | bge | bltu | bgeu => { Branch := true, HasRd := op.hasRd }
  | lb | lh | lw | lbu | lhu | sb | sh | sw => { MayTrap := true, HasRd := op.hasRd }
  | _ => { HasRd := op.hasRd }

end Op

/-! ### Fields -/

section
variable (raw : BitVec 32)

/-- `Base::opcode`. -/
def opcode : BitVec 32 := bfRange 0 6 raw

/-- `funct3`. -/
def funct3 : BitVec 32 := bfRange 12 14 raw

/-- `funct7`. -/
def funct7 : BitVec 32 := bfRange 25 31 raw

/-- `funct12`. -/
def funct12 : BitVec 32 := bfRange 20 31 raw

/-- Register numbers. -/
def rd : ℕ := (bfRange 7 11 raw).toNat

/-- `rs1`. -/
def rs1 : ℕ := (bfRange 15 19 raw).toNat

/-- `rs2`. -/
def rs2 : ℕ := (bfRange 20 24 raw).toNat

/-- The immediates of the formats, converted to `u32` as wherever they are used. -/
def immI : BitVec 32 := (bfSeq 16 [(20, 30), (31, 31)] raw).signExtend 32

/-- The shift amount of format `IS`. -/
def immIS : BitVec 32 := bfRange 20 24 raw

/-- The immediate of format `S`. -/
def immS : BitVec 32 := (bfSeq 16 [(7, 11), (25, 30), (31, 31)] raw).signExtend 32

/-- The immediate of format `B`. -/
def immB : BitVec 32 :=
  (bfSeq 16 [(8, 11), (25, 30), (7, 7), (31, 31)] raw).signExtend 32 <<< 1

/-- The immediate of format `U`. -/
def immU : BitVec 32 := bfRange 12 31 raw <<< 12

/-- The immediate of format `J`. -/
def immJ : BitVec 32 := bfSeq 32 [(21, 30), (20, 20), (12, 19), (31, 31)] raw <<< 1

lemma rd_lt : rd raw < 32 := toNat_bfRange_lt (by norm_num) (by norm_num) raw
lemma rs1_lt : rs1 raw < 32 := toNat_bfRange_lt (by norm_num) (by norm_num) raw
lemma rs2_lt : rs2 raw < 32 := toNat_bfRange_lt (by norm_num) (by norm_num) raw

lemma immIS_lt : (immIS raw).toNat < 32 := toNat_bfRange_lt (by norm_num) (by norm_num) raw

end

/-! ### Decoder -/

/-- `Decoder::Decode`. -/
def decode (raw : BitVec 32) : Op :=
  match (opcode raw).toNat with
  | 0b0110111 => .lui
  | 0b0010111 => .auipc
  | 0b1101111 => .jal
  | 0b1100111 =>
      match (funct3 raw).toNat with
      | 0b000 => .jalr
      | _ => .illegal
  | 0b1100011 =>
      match (funct3 raw).toNat with
      | 0b000 => .beq
      | 0b001 => .bne
      | 0b100 => .blt
      | 0b101 => .bge
      | 0b110 => .bltu
      | 0b111 => .bgeu
      | _ => .illegal
  | 0b0000011 =>
      match (funct3 raw).toNat with
      | 0b000 => .lb
      | 0b001 => .lh
      | 0b010 => .lw
      | 0b100 => .lbu
      | 0b101 => .lhu
      | _ => .illegal
  | 0b0100011 =>
      match (funct3 raw).toNat with
      | 0b000 => .sb
      | 0b001 => .sh
      | 0b010 => .sw
      | _ => .illegal
  | 0b0010011 =>
      match (funct3 raw).toNat with
      | 0b000 => .addi
      | 0b010 => .slti
      | 0b011 => .sltiu
      | 0b100 => .xori
      | 0b110 => .ori
      | 0b111 => .andi
      | 0b001 => .slli
      | 0b101 =>
          match (funct7 raw).toNat with
          | 0b0000000 => .srli
          | 0b0100000 => .srai
          | _ => .illegal
      | _ => .illegal
  | 0b0110011 =>
      match (funct3 raw).toNat with
      | 0b000 =>
          match (funct7 raw).toNat with
          | 0b0000000 => .add
          | 0b0100000 => .sub
          | _ => .illegal
      | 0b001 => .sll
      | 0b010 => .slt
      | 0b011 => .sltu
      | 0b100 => .xor
      | 0b101 =>
          match (funct7 raw).toNat with
          | 0b0000000 => .srl
          | 0b0100000 => .sra
          | _ => .illegal
      | 0b110 => .or
      | 0b111 => .and
      | _ => .illegal
  | 0b0001111 =>
      match (funct3 raw).toNat with
      | 0b000 => .fence
      | 0b001 => .fencei
      | _ => .illegal
  | 0b1110011 =>
      match (funct3 raw ||| bfRange 7 11 raw ||| bfRange 15 19 raw).toNat with
      | 0 =>
          match (funct12 raw).toNat with
          | 0b000000000000 => .ecall
          | 0b000000000001 => .ebreak
          | _ => .illegal
      | _ => .illegal
  | _ => .illegal

example : decode 0x00100073#32 = .ebreak := by decide
example : decode 0xFFF10113#32 = .addi ∧ rd 0xFFF10113#32 = 2 ∧ immI 0xFFF10113#32 = -1#32 := by
  decide

end Rv32jit.Insn
