/-
# The encodings of the ISA

The tables of RV32I with Zifencei, independent of the decoder: the opcode of every instruction,
its function fields, and the layout of its format.  The decoder accepts a word exactly if the
tables do, but for the words of some register operations and of `slli` whose highest seven bits
it does not look at; and it takes back the word that the ISA assigns to an instruction.
-/
import Rv32jit.Guest.Insn

namespace Rv32jit.Insn

/-! ### The tables -/

namespace Isa

/-- The major opcode. -/
def opcode : Op → BitVec 7
  | .lui => 0b0110111
  | .auipc => 0b0010111
  | .jal => 0b1101111
  | .jalr => 0b1100111
  | .beq | .bne | .blt | .bge | .bltu | .bgeu => 0b1100011
  | .lb | .lh | .lw | .lbu | .lhu => 0b0000011
  | .sb | .sh | .sw => 0b0100011
  | .addi | .slti | .sltiu | .xori | .ori | .andi | .slli | .srli | .srai => 0b0010011
  | .add | .sub | .sll | .slt | .sltu | .xor | .srl | .sra | .or | .and => 0b0110011
  | .fence | .fencei => 0b0001111
  | .ecall | .ebreak => 0b1110011
  | .illegal => 0

/-- The minor opcode, zero where the format has none. -/
def funct3 : Op → BitVec 3
  | .bne | .lh | .sh | .slli | .sll | .fencei => 0b001
  | .lw | .sw | .slti | .slt => 0b010
  | .sltiu | .sltu => 0b011
  | .blt | .lbu | .xori | .xor => 0b100
  | .bge | .lhu | .srli | .srai | .srl | .sra => 0b101
  | .bltu | .ori | .or => 0b110
  | .bgeu | .andi | .and => 0b111
  | _ => 0b000

/-- The high bits, zero where the format has none. -/
def funct7 : Op → BitVec 7
  | .sub | .sra | .srai => 0b0100000
  | _ => 0b0000000

/-- The `funct12` field of the system instructions. -/
def funct12 : Op → BitVec 12
  | .ebreak => 1
  | _ => 0

/-- The word is an encoding of the instruction.  The registers and immediates are free, as are
all unused fields of `fence` and `fence.i`. -/
def Encodes (op : Op) (raw : BitVec 32) : Prop :=
  match op.format with
  | .U | .J => raw.extractLsb 6 0 = opcode op
  | .I | .B | .S => raw.extractLsb 6 0 = opcode op ∧ raw.extractLsb 14 12 = funct3 op
  | .IS | .R =>
      raw.extractLsb 6 0 = opcode op ∧ raw.extractLsb 14 12 = funct3 op ∧
        raw.extractLsb 31 25 = funct7 op
  | .Base =>
      match op with
      | .fence | .fencei => raw.extractLsb 6 0 = opcode op ∧ raw.extractLsb 14 12 = funct3 op
      | .ecall | .ebreak => raw = funct12 op ++ 0#13 ++ opcode op
      | _ => False

end Isa

/-- The words of the instructions whose function field the decoder does not look at, with a
value in it that is not theirs. -/
def LooseFunct7 (raw : BitVec 32) : Prop :=
  raw.extractLsb 31 25 ≠ 0#7 ∧
    (raw.extractLsb 6 0 = 0b0010011#7 ∧ raw.extractLsb 14 12 = 0b001#3 ∨
      raw.extractLsb 6 0 = 0b0110011#7 ∧ raw.extractLsb 14 12 ≠ 0b000#3 ∧
        raw.extractLsb 14 12 ≠ 0b101#3)

/-! ### The decoder accepts what the tables do -/

variable {raw : BitVec 32} {op : Op}

lemma opcode_eq_iff {v : BitVec 7} : raw.extractLsb 6 0 = v ↔ (opcode raw).toNat = v.toNat :=
  extractLsb_eq_iff (by norm_num) (by norm_num)

lemma funct3_eq_iff {v : BitVec 3} : raw.extractLsb 14 12 = v ↔ (funct3 raw).toNat = v.toNat :=
  extractLsb_eq_iff (by norm_num) (by norm_num)

lemma funct7_eq_iff {v : BitVec 7} : raw.extractLsb 31 25 = v ↔ (funct7 raw).toNat = v.toNat :=
  extractLsb_eq_iff (by norm_num) (by norm_num)

/-- A system word is known by its fields. -/
lemma eq_system_iff {f12 : BitVec 12} {opc : BitVec 7} : raw = f12 ++ 0#13 ++ opc ↔
    (opcode raw).toNat = opc.toNat ∧
      (funct3 raw ||| bfRange 7 11 raw ||| bfRange 15 19 raw).toNat = 0 ∧
      (funct12 raw).toNat = f12.toNat := by
  have h3 : (funct3 raw).toNat = 0 ↔ raw.extractLsb 14 12 = 0#3 := (funct3_eq_iff (v := 0#3)).symm
  have hrd : (bfRange 7 11 raw).toNat = 0 ↔ raw.extractLsb 11 7 = 0#5 :=
    (extractLsb_eq_iff (l := 7) (h := 11) (v := 0#5) (by norm_num) (by norm_num)).symm
  have hrs1 : (bfRange 15 19 raw).toNat = 0 ↔ raw.extractLsb 19 15 = 0#5 :=
    (extractLsb_eq_iff (l := 15) (h := 19) (v := 0#5) (by norm_num) (by norm_num)).symm
  have h12 : (funct12 raw).toNat = f12.toNat ↔ raw.extractLsb 31 20 = f12 :=
    (extractLsb_eq_iff (by norm_num) (by norm_num)).symm
  rw [BitVec.toNat_or, BitVec.toNat_or, Nat.or_eq_zero_iff, Nat.or_eq_zero_iff, h3, hrd, hrs1, h12,
    ← opcode_eq_iff]
  constructor
  · rintro rfl
    refine ⟨?_, ⟨⟨?_, ?_⟩, ?_⟩, ?_⟩ <;> ext i hi <;> simp <;> grind
  · rintro ⟨h1, ⟨⟨h2, h3⟩, h4⟩, h5⟩
    calc raw = raw.extractLsb 31 20 ++ (raw.extractLsb 19 15 ++ raw.extractLsb 14 12 ++
          raw.extractLsb 11 7) ++ raw.extractLsb 6 0 := by
          ext i hi
          simp
          grind
      _ = f12 ++ 0#13 ++ opc := by
          rw [h1, h2, h3, h4, h5]
          rfl

/-- What the tables accept is decoded as they say. -/
lemma decode_of_encodes (h : Isa.Encodes op raw) : decode raw = op := by
  cases op with
  | illegal => exact h.elim
  | _ =>
    simp only [Isa.Encodes, Op.format, Isa.opcode, Isa.funct3, Isa.funct7, Isa.funct12,
      opcode_eq_iff, funct3_eq_iff, funct7_eq_iff, eq_system_iff] at h
    simp [decode, h]

/-- What is decoded as an instruction is accepted by the tables, if its highest seven bits are
no matter. -/
lemma encodes_of_decode (hop : decode raw = op) (hne : op ≠ .illegal) (hl : ¬ LooseFunct7 raw) :
    Isa.Encodes op raw := by
  simp only [LooseFunct7, opcode_eq_iff, funct3_eq_iff, funct7_eq_iff, ne_eq] at hl
  unfold decode at hop
  -- a case for each branch of the decoder
  repeat' split at hop
  all_goals
    subst hop
    first
    | exact absurd rfl hne
    | simp_all only [Isa.Encodes, Op.format, Isa.opcode, Isa.funct3, Isa.funct7, Isa.funct12,
        opcode_eq_iff, funct3_eq_iff, funct7_eq_iff, eq_system_iff]
      simp_all

/-- What is decoded although its highest seven bits are wrong. -/
lemma decode_of_looseFunct7 (hl : LooseFunct7 raw) :
    decode raw ≠ .illegal ∧ ¬ Isa.Encodes (decode raw) raw := by
  simp only [LooseFunct7, opcode_eq_iff, funct3_eq_iff, funct7_eq_iff, ne_eq] at hl
  obtain ⟨h7, ⟨ho, h3⟩ | ⟨ho, h0, h5⟩⟩ := hl
  · have hd : decode raw = .slli := by simp [decode, ho, h3]
    rw [hd]
    simp only [Isa.Encodes, Op.format, funct7_eq_iff]
    exact ⟨by decide, fun h => h7 h.2.2⟩
  · have hlt : (funct3 raw).toNat < 8 := toNat_bfRange_lt (by norm_num) (by norm_num) raw
    have hd : decode raw ∈ [Op.sll, .slt, .sltu, .xor, .or, .and] := by
      interval_cases h3 : (funct3 raw).toNat <;> simp [decode, ho, h3] at h0 h5 ⊢
    generalize decode raw = op at hd
    simp only [List.mem_cons, List.not_mem_nil, or_false] at hd
    rcases hd with rfl | rfl | rfl | rfl | rfl | rfl
    all_goals
      simp only [Isa.Encodes, Op.format, funct7_eq_iff]
      exact ⟨by decide, fun h => h7 h.2.2⟩

/-- The decoder accepts exactly the encodings of the tables if and only if the word does not have
a wrong value in a function field that the decoder does not look at. -/
theorem decode_eq_iff_encodes (raw : BitVec 32) :
    (∀ op, op ≠ .illegal → (decode raw = op ↔ Isa.Encodes op raw)) ↔ ¬ LooseFunct7 raw := by
  constructor
  · intro h hl
    obtain ⟨hne, henc⟩ := decode_of_looseFunct7 hl
    exact henc ((h _ hne).mp rfl)
  · intro hl op hne
    exact ⟨fun hop => encodes_of_decode hop hne hl, decode_of_encodes⟩

/-- `mulh x1, x2, x3` is decoded as `sll x1, x2, x3`. -/
theorem decode_mulh : decode 0x023110B3#32 = .sll ∧ ¬ Isa.Encodes .sll 0x023110B3#32 :=
  ⟨by decide, fun h => absurd h.2.2 (by decide)⟩

/-! ### Instructions as words -/

namespace Isa

/-- The values that an immediate of the format has. -/
def Admits (f : Format) (imm : BitVec 32) : Prop :=
  match f with
  | .I | .S => -2 ^ 11 ≤ imm.toInt ∧ imm.toInt < 2 ^ 11
  | .B => -2 ^ 12 ≤ imm.toInt ∧ imm.toInt < 2 ^ 12 ∧ imm.toNat % 2 = 0
  | .J => -2 ^ 20 ≤ imm.toInt ∧ imm.toInt < 2 ^ 20 ∧ imm.toNat % 2 = 0
  | .U => imm.toNat % 2 ^ 12 = 0
  | .IS => imm.toNat < 32
  | .R | .Base => True

/-- The word of an instruction; its unused operands are of no matter, and `imm` also fills the
unused fields of `fence` and `fence.i`. -/
def assemble (op : Op) (rd rs1 rs2 : BitVec 5) (imm : BitVec 32) : BitVec 32 :=
  match op.format with
  | .R => funct7 op ++ rs2 ++ rs1 ++ funct3 op ++ rd ++ opcode op
  | .I => imm.extractLsb 11 0 ++ rs1 ++ funct3 op ++ rd ++ opcode op
  | .IS => funct7 op ++ imm.extractLsb 4 0 ++ rs1 ++ funct3 op ++ rd ++ opcode op
  | .S => imm.extractLsb 11 5 ++ rs2 ++ rs1 ++ funct3 op ++ imm.extractLsb 4 0 ++ opcode op
  | .B =>
      imm.extractLsb 12 12 ++ imm.extractLsb 10 5 ++ rs2 ++ rs1 ++ funct3 op ++
        imm.extractLsb 4 1 ++ imm.extractLsb 11 11 ++ opcode op
  | .U => imm.extractLsb 31 12 ++ rd ++ opcode op
  | .J =>
      imm.extractLsb 20 20 ++ imm.extractLsb 10 1 ++ imm.extractLsb 11 11 ++
        imm.extractLsb 19 12 ++ rd ++ opcode op
  | .Base =>
      match op with
      | .fence | .fencei => imm.extractLsb 11 0 ++ rs1 ++ funct3 op ++ rd ++ opcode op
      | _ => funct12 op ++ 0#13 ++ opcode op

end Isa

/-- The accessors of the format give the operands. -/
def Operands (f : Format) (rd' rs1' rs2' : BitVec 5) (imm raw : BitVec 32) : Prop :=
  match f with
  | .R => rd raw = rd'.toNat ∧ rs1 raw = rs1'.toNat ∧ rs2 raw = rs2'.toNat
  | .I => rd raw = rd'.toNat ∧ rs1 raw = rs1'.toNat ∧ immI raw = imm
  | .IS => rd raw = rd'.toNat ∧ rs1 raw = rs1'.toNat ∧ immIS raw = imm
  | .S => rs1 raw = rs1'.toNat ∧ rs2 raw = rs2'.toNat ∧ immS raw = imm
  | .B => rs1 raw = rs1'.toNat ∧ rs2 raw = rs2'.toNat ∧ immB raw = imm
  | .U => rd raw = rd'.toNat ∧ immU raw = imm
  | .J => rd raw = rd'.toNat ∧ immJ raw = imm
  | .Base => True

/-! ### The bits of the immediates -/

lemma getLsbD_immI (raw : BitVec 32) {i : ℕ} (hi : i < 32) :
    (immI raw).getLsbD i = raw.getLsbD (min (20 + i) 31) := by
  rw [immI, getLsbD_signExtend_bfSeq (by norm_num) (by simp) (by decide) (by decide) (by decide)
    raw hi]
  congr 1
  grind [seqBit]

lemma getLsbD_immS (raw : BitVec 32) {i : ℕ} (hi : i < 32) :
    (immS raw).getLsbD i = raw.getLsbD (if i < 5 then 7 + i else min (20 + i) 31) := by
  rw [immS, getLsbD_signExtend_bfSeq (by norm_num) (by simp) (by decide) (by decide) (by decide)
    raw hi]
  congr 1
  grind [seqBit]

lemma getLsbD_immB (raw : BitVec 32) {i : ℕ} (hi : i < 32) :
    (immB raw).getLsbD i = (decide (1 ≤ i) && raw.getLsbD
      (if i < 5 then 7 + i else if i < 11 then 20 + i else if i = 11 then 7 else 31)) := by
  rw [immB, BitVec.getLsbD_shiftLeft]
  by_cases h1 : 1 ≤ i
  · rw [getLsbD_signExtend_bfSeq (by norm_num) (by simp) (by decide) (by decide) (by decide) raw
      (by omega), decide_eq_true hi, decide_eq_true h1, decide_eq_false (by omega)]
    simp only [Bool.not_false, Bool.true_and]
    congr 1
    grind [seqBit]
  · simp [show i = 0 by omega]

lemma getLsbD_immJ (raw : BitVec 32) {i : ℕ} (hi : i < 32) :
    (immJ raw).getLsbD i = (decide (1 ≤ i) && raw.getLsbD
      (if i < 11 then 20 + i else if i = 11 then 20 else if i < 20 then i else 31)) := by
  rw [immJ, BitVec.getLsbD_shiftLeft]
  by_cases h1 : 1 ≤ i
  · rw [getLsbD_bfSeq (by norm_num) (by simp) (by decide) raw (by omega), decide_eq_true hi,
      decide_eq_true h1, decide_eq_false (by omega)]
    simp only [Bool.not_false, Bool.true_and]
    congr 1
    grind [seqBit]
  · simp [show i = 0 by omega]

lemma getLsbD_immU (raw : BitVec 32) {i : ℕ} (hi : i < 32) :
    (immU raw).getLsbD i = (decide (12 ≤ i) && raw.getLsbD i) := by
  rw [immU, BitVec.getLsbD_shiftLeft, getLsbD_bfRange (by norm_num) (by norm_num)]
  by_cases h : 12 ≤ i
  · simp [hi, h, show ¬ i < 12 by omega, show i - 12 < 20 by omega, show 12 + (i - 12) = i by omega]
  · simp [h, show i < 12 by omega]

/-- In the range of `n + 1` bits with sign, the highest bits are copies of bit `n`. -/
lemma signExtend_setWidth_of_range {x : BitVec 32} {n : ℕ} (hn : n < 31)
    (hlo : -2 ^ n ≤ x.toInt) (hhi : x.toInt < 2 ^ n) : (x.setWidth (n + 1)).signExtend 32 = x := by
  apply BitVec.eq_of_toInt_eq
  rw [BitVec.toInt_signExtend_of_le (by omega), BitVec.toInt_setWidth]
  have h : Int.bmod (Int.bmod x.toNat (2 ^ 32)) (2 ^ (n + 1)) = Int.bmod x.toNat (2 ^ (n + 1)) :=
    Int.bmod_bmod_of_dvd (Nat.pow_dvd_pow 2 (by omega))
  rw [← h, ← BitVec.toInt_eq_toNat_bmod]
  refine Int.bmod_eq_of_le ?_ ?_ <;> push_cast <;> rw [pow_succ] <;> omega

lemma getLsbD_of_range {x : BitVec 32} {n i : ℕ} (hn : n < 31) (hlo : -2 ^ n ≤ x.toInt)
    (hhi : x.toInt < 2 ^ n) (hi : i < 32) : x.getLsbD (min i n) = x.getLsbD i := by
  have h := congrArg (fun y => y.getLsbD i) (signExtend_setWidth_of_range hn hlo hhi)
  simp only [BitVec.getLsbD_signExtend, hi, decide_true, Bool.true_and] at h
  rw [← h]
  split
  · rw [BitVec.getLsbD_setWidth, min_eq_left (by omega)]
    simp
    omega
  · rw [min_eq_right (by omega), BitVec.msb_eq_getLsbD_last, BitVec.getLsbD_setWidth]
    simp

lemma getLsbD_of_mod {x : BitVec 32} {n i : ℕ} (h : x.toNat % 2 ^ n = 0) (hi : i < n) :
    x.getLsbD i = false := by
  have hbit := Nat.testBit_mod_two_pow x.toNat n i
  rw [h, Nat.zero_testBit, decide_eq_true hi, Bool.true_and] at hbit
  exact hbit.symm

lemma getLsbD_of_lt {x : BitVec 32} {n i : ℕ} (h : x.toNat < 2 ^ n) (hi : n ≤ i) :
    x.getLsbD i = false :=
  Nat.testBit_lt_two_pow (Nat.lt_of_lt_of_le h (Nat.pow_le_pow_right (by norm_num) hi))

/-! ### The decoder takes back what the ISA assigns -/

variable {imm : BitVec 32} {rd' rs1' rs2' : BitVec 5}

lemma rd_eq_iff : rd raw = rd'.toNat ↔ raw.extractLsb 11 7 = rd' :=
  (extractLsb_eq_iff (l := 7) (h := 11) (v := rd') (by norm_num) (by norm_num)).symm

lemma rs1_eq_iff : rs1 raw = rs1'.toNat ↔ raw.extractLsb 19 15 = rs1' :=
  (extractLsb_eq_iff (l := 15) (h := 19) (v := rs1') (by norm_num) (by norm_num)).symm

lemma rs2_eq_iff : rs2 raw = rs2'.toNat ↔ raw.extractLsb 24 20 = rs2' :=
  (extractLsb_eq_iff (l := 20) (h := 24) (v := rs2') (by norm_num) (by norm_num)).symm

/-- The word of an instruction is one of its encodings. -/
lemma encodes_assemble (hop : op ≠ .illegal) :
    Isa.Encodes op (Isa.assemble op rd' rs1' rs2' imm) := by
  cases hf : op.format with
  | Base =>
    cases op <;> cases hf <;> simp [Isa.Encodes, Isa.assemble, Op.format]
    · exact absurd rfl hop
    -- `fence` and `fence.i`
    all_goals constructor <;> ext i hi <;> simp <;> grind
  | R | IS =>
    simp only [Isa.Encodes, Isa.assemble, hf]
    refine ⟨?_, ?_, ?_⟩ <;> ext i hi <;> simp <;> grind
  | I | S | B =>
    simp only [Isa.Encodes, Isa.assemble, hf]
    constructor <;> ext i hi <;> simp <;> grind
  | U | J =>
    simp only [Isa.Encodes, Isa.assemble, hf]
    ext i hi
    simp
    grind

lemma rd_assemble (h : op.hasRd = true) :
    rd (Isa.assemble op rd' rs1' rs2' imm) = rd'.toNat := by
  rw [rd_eq_iff]
  cases hf : op.format with
  | Base | B | S => simp [Op.hasRd, hf] at h
  | _ =>
    simp only [Isa.assemble, hf]
    ext i hi
    simp
    grind

lemma rs1_assemble (h : op.format = .R ∨ op.format = .I ∨ op.format = .IS ∨ op.format = .S ∨
    op.format = .B) : rs1 (Isa.assemble op rd' rs1' rs2' imm) = rs1'.toNat := by
  rw [rs1_eq_iff]
  rcases h with hf | hf | hf | hf | hf
  all_goals
    simp only [Isa.assemble, hf]
    ext i hi
    simp
    grind

lemma rs2_assemble (h : op.format = .R ∨ op.format = .S ∨ op.format = .B) :
    rs2 (Isa.assemble op rd' rs1' rs2' imm) = rs2'.toNat := by
  rw [rs2_eq_iff]
  rcases h with hf | hf | hf
  all_goals
    simp only [Isa.assemble, hf]
    ext i hi
    simp
    grind

lemma immI_assemble (hf : op.format = .I) (himm : Isa.Admits .I imm) :
    immI (Isa.assemble op rd' rs1' rs2' imm) = imm := by
  ext i hi
  rw [← BitVec.getLsbD_eq_getElem, ← BitVec.getLsbD_eq_getElem, getLsbD_immI _ hi,
    ← getLsbD_of_range (by norm_num) himm.1 himm.2 hi]
  simp only [Isa.assemble, hf]
  simp
  grind

lemma immS_assemble (hf : op.format = .S) (himm : Isa.Admits .S imm) :
    immS (Isa.assemble op rd' rs1' rs2' imm) = imm := by
  ext i hi
  rw [← BitVec.getLsbD_eq_getElem, ← BitVec.getLsbD_eq_getElem, getLsbD_immS _ hi,
    ← getLsbD_of_range (by norm_num) himm.1 himm.2 hi]
  simp only [Isa.assemble, hf]
  simp
  grind

lemma immIS_assemble (hf : op.format = .IS) (himm : Isa.Admits .IS imm) :
    immIS (Isa.assemble op rd' rs1' rs2' imm) = imm := by
  have h5 : ∀ i, 5 ≤ i → imm.getLsbD i = false := fun i => getLsbD_of_lt (n := 5) himm
  ext i hi
  rw [← BitVec.getLsbD_eq_getElem, immIS, getLsbD_bfRange (by norm_num) (by norm_num)]
  simp only [Isa.assemble, hf]
  simp
  grind

lemma immB_assemble (hf : op.format = .B) (himm : Isa.Admits .B imm) :
    immB (Isa.assemble op rd' rs1' rs2' imm) = imm := by
  have h0 : imm.getLsbD 0 = false := getLsbD_of_mod (n := 1) himm.2.2 (by norm_num)
  ext i hi
  rw [← BitVec.getLsbD_eq_getElem, ← BitVec.getLsbD_eq_getElem, getLsbD_immB _ hi,
    ← getLsbD_of_range (by norm_num) himm.1 himm.2.1 hi]
  simp only [Isa.assemble, hf]
  simp
  grind

lemma immJ_assemble (hf : op.format = .J) (himm : Isa.Admits .J imm) :
    immJ (Isa.assemble op rd' rs1' rs2' imm) = imm := by
  have h0 : imm.getLsbD 0 = false := getLsbD_of_mod (n := 1) himm.2.2 (by norm_num)
  ext i hi
  rw [← BitVec.getLsbD_eq_getElem, ← BitVec.getLsbD_eq_getElem, getLsbD_immJ _ hi,
    ← getLsbD_of_range (by norm_num) himm.1 himm.2.1 hi]
  simp only [Isa.assemble, hf]
  simp
  grind

lemma immU_assemble (hf : op.format = .U) (himm : Isa.Admits .U imm) :
    immU (Isa.assemble op rd' rs1' rs2' imm) = imm := by
  have h12 : ∀ i, i < 12 → imm.getLsbD i = false := fun i => getLsbD_of_mod himm
  ext i hi
  rw [← BitVec.getLsbD_eq_getElem, ← BitVec.getLsbD_eq_getElem, getLsbD_immU _ hi]
  simp only [Isa.assemble, hf]
  simp
  grind

/-- The word that the ISA assigns to an instruction is decoded as that instruction, and the
accessors of its format give its operands. -/
theorem decode_assemble (op : Op) (rd' rs1' rs2' : BitVec 5) (imm : BitVec 32)
    (hop : op ≠ .illegal) (himm : Isa.Admits op.format imm) :
    decode (Isa.assemble op rd' rs1' rs2' imm) = op ∧
      Operands op.format rd' rs1' rs2' imm (Isa.assemble op rd' rs1' rs2' imm) := by
  refine ⟨decode_of_encodes (encodes_assemble hop), ?_⟩
  cases hf : op.format with
  | Base => trivial
  | R => exact ⟨rd_assemble (by simp [Op.hasRd, hf]), rs1_assemble (by simp [hf]),
      rs2_assemble (by simp [hf])⟩
  | I => exact ⟨rd_assemble (by simp [Op.hasRd, hf]), rs1_assemble (by simp [hf]),
      immI_assemble hf (hf ▸ himm)⟩
  | IS => exact ⟨rd_assemble (by simp [Op.hasRd, hf]), rs1_assemble (by simp [hf]),
      immIS_assemble hf (hf ▸ himm)⟩
  | S => exact ⟨rs1_assemble (by simp [hf]), rs2_assemble (by simp [hf]),
      immS_assemble hf (hf ▸ himm)⟩
  | B => exact ⟨rs1_assemble (by simp [hf]), rs2_assemble (by simp [hf]),
      immB_assemble hf (hf ▸ himm)⟩
  | U => exact ⟨rd_assemble (by simp [Op.hasRd, hf]), immU_assemble hf (hf ▸ himm)⟩
  | J => exact ⟨rd_assemble (by simp [Op.hasRd, hf]), immJ_assemble hf (hf ▸ himm)⟩

/-- `bne x5, x6, -8`. -/
theorem decode_assemble_bne :
    decode (Isa.assemble .bne 0 5 6 (-8)) = .bne ∧
      Operands .B 0 5 6 (-8) (Isa.assemble .bne 0 5 6 (-8)) :=
  decode_assemble .bne 0 5 6 (-8) (by decide) ⟨by decide, by decide, by decide⟩

end Rv32jit.Insn
