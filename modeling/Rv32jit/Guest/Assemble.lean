/-
# Words and instructions

The instructions of the base set as words.  An instruction has the words that the tables assign to
it, and the decoder with the accessors of the formats takes exactly these back, but for the words
whose highest seven bits it does not look at.
-/
import Rv32jit.Lib.Rv32i
import Rv32jit.Guest.Encoding

namespace Rv32jit.Insn

open Rv32i (Instr Reg)

/-! ### The instruction of a word -/

/-- The instruction of an opcode with its operands. -/
def instrOf (op : Op) (rd rs1 rs2 : Reg) (imm : BitVec 32) : Option Instr :=
  match op with
  | .illegal => none
  | .lui => some (.lui rd imm)
  | .auipc => some (.auipc rd imm)
  | .jal => some (.jal rd imm)
  | .jalr => some (.jalr rd rs1 imm)
  | .beq => some (.branch .eq rs1 rs2 imm)
  | .bne => some (.branch .ne rs1 rs2 imm)
  | .blt => some (.branch .lt rs1 rs2 imm)
  | .bge => some (.branch .ge rs1 rs2 imm)
  | .bltu => some (.branch .ltu rs1 rs2 imm)
  | .bgeu => some (.branch .geu rs1 rs2 imm)
  | .lb => some (.load .byte true rd rs1 imm)
  | .lh => some (.load .half true rd rs1 imm)
  | .lw => some (.load .word true rd rs1 imm)
  | .lbu => some (.load .byte false rd rs1 imm)
  | .lhu => some (.load .half false rd rs1 imm)
  | .sb => some (.store .byte rs1 rs2 imm)
  | .sh => some (.store .half rs1 rs2 imm)
  | .sw => some (.store .word rs1 rs2 imm)
  | .addi => some (.opImm .add rd rs1 imm)
  | .slti => some (.opImm .slt rd rs1 imm)
  | .sltiu => some (.opImm .sltu rd rs1 imm)
  | .xori => some (.opImm .xor rd rs1 imm)
  | .ori => some (.opImm .or rd rs1 imm)
  | .andi => some (.opImm .and rd rs1 imm)
  | .slli => some (.opImm .sll rd rs1 imm)
  | .srai => some (.opImm .sra rd rs1 imm)
  | .srli => some (.opImm .srl rd rs1 imm)
  | .sub => some (.op .sub rd rs1 rs2)
  | .add => some (.op .add rd rs1 rs2)
  | .sll => some (.op .sll rd rs1 rs2)
  | .slt => some (.op .slt rd rs1 rs2)
  | .sltu => some (.op .sltu rd rs1 rs2)
  | .xor => some (.op .xor rd rs1 rs2)
  | .sra => some (.op .sra rd rs1 rs2)
  | .srl => some (.op .srl rd rs1 rs2)
  | .or => some (.op .or rd rs1 rs2)
  | .and => some (.op .and rd rs1 rs2)
  | .fence => some .fence
  | .fencei => some .fenceI
  | .ecall => some .ecall
  | .ebreak => some .ebreak

/-- The immediate of a word of the format; of `fence` and `fence.i`, the bits that are not used. -/
def immOf (f : Format) (raw : BitVec 32) : BitVec 32 :=
  match f with
  | .I => immI raw
  | .IS => immIS raw
  | .S => immS raw
  | .B => immB raw
  | .U => immU raw
  | .J => immJ raw
  | .R => 0
  | .Base => raw >>> 20

/-- The destination of a word as a register of the instruction set. -/
def rdOf (raw : BitVec 32) : Reg := ⟨rd raw, rd_lt raw⟩

/-- The first source of a word. -/
def rs1Of (raw : BitVec 32) : Reg := ⟨rs1 raw, rs1_lt raw⟩

/-- The second source of a word. -/
def rs2Of (raw : BitVec 32) : Reg := ⟨rs2 raw, rs2_lt raw⟩

/-- The instruction that a word is decoded as. -/
def instrAt (raw : BitVec 32) : Option Instr :=
  instrOf (decode raw) (rdOf raw) (rs1Of raw) (rs2Of raw) (immOf (decode raw).format raw)

/-- The word is one of those of the instruction. -/
def Spells (i : Instr) (raw : BitVec 32) : Prop :=
  ∃ op rd rs1 rs2 imm, raw = Isa.assemble op rd rs1 rs2 imm ∧ Isa.Admits op.format imm ∧
    instrOf op rd.toFin rs1.toFin rs2.toFin imm = some i

variable {raw : BitVec 32} {op : Op} {i : Instr}

/-! ### The fields of a word -/

/-- Two fields with the same bits. -/
lemma extractLsb'_congr {x y : BitVec 32} {l l' n : ℕ}
    (h : ∀ i < n, x.getLsbD (l + i) = y.getLsbD (l' + i)) :
    x.extractLsb' l n = y.extractLsb' l' n := by
  ext i hi
  rw [BitVec.getElem_extractLsb', BitVec.getElem_extractLsb', h i hi]

lemma extractLsb_immI (raw : BitVec 32) : (immI raw).extractLsb 11 0 = raw.extractLsb 31 20 := by
  refine extractLsb'_congr fun i hi => ?_
  rw [getLsbD_immI raw (by omega)]
  grind

lemma extractLsb_immIS (raw : BitVec 32) : (immIS raw).extractLsb 4 0 = raw.extractLsb 24 20 := by
  refine extractLsb'_congr fun i hi => ?_
  rw [immIS, getLsbD_bfRange (by norm_num) (by norm_num)]
  grind

lemma extractLsb_immS (raw : BitVec 32) :
    (immS raw).extractLsb 11 5 = raw.extractLsb 31 25 ∧
      (immS raw).extractLsb 4 0 = raw.extractLsb 11 7 := by
  constructor <;> refine extractLsb'_congr fun i hi => ?_ <;>
    rw [getLsbD_immS raw (by omega)] <;> grind

lemma extractLsb_immB (raw : BitVec 32) :
    (immB raw).extractLsb 12 12 = raw.extractLsb 31 31 ∧
      (immB raw).extractLsb 10 5 = raw.extractLsb 30 25 ∧
      (immB raw).extractLsb 4 1 = raw.extractLsb 11 8 ∧
      (immB raw).extractLsb 11 11 = raw.extractLsb 7 7 := by
  refine ⟨?_, ?_, ?_, ?_⟩ <;> refine extractLsb'_congr fun i hi => ?_ <;>
    rw [getLsbD_immB raw (by omega)] <;> grind

lemma extractLsb_immU (raw : BitVec 32) : (immU raw).extractLsb 31 12 = raw.extractLsb 31 12 := by
  refine extractLsb'_congr fun i hi => ?_
  rw [getLsbD_immU raw (by omega)]
  grind

lemma extractLsb_immJ (raw : BitVec 32) :
    (immJ raw).extractLsb 20 20 = raw.extractLsb 31 31 ∧
      (immJ raw).extractLsb 10 1 = raw.extractLsb 30 21 ∧
      (immJ raw).extractLsb 11 11 = raw.extractLsb 20 20 ∧
      (immJ raw).extractLsb 19 12 = raw.extractLsb 19 12 := by
  refine ⟨?_, ?_, ?_, ?_⟩ <;> refine extractLsb'_congr fun i hi => ?_ <;>
    rw [getLsbD_immJ raw (by omega)] <;> grind

/-- A word that the tables accept is that of its fields. -/
lemma assemble_fields (h : Isa.Encodes op raw) :
    Isa.assemble op (raw.extractLsb 11 7) (raw.extractLsb 19 15) (raw.extractLsb 24 20)
      (immOf op.format raw) = raw := by
  cases hf : op.format with
  | R =>
    simp only [Isa.Encodes, hf] at h
    obtain ⟨hop, h3, h7⟩ := h
    simp only [Isa.assemble, hf]
    rw [← hop, ← h3, ← h7]
    ext i hi
    simp
    grind
  | IS =>
    simp only [Isa.Encodes, hf] at h
    obtain ⟨hop, h3, h7⟩ := h
    simp only [Isa.assemble, hf, immOf, extractLsb_immIS]
    rw [← hop, ← h3, ← h7]
    ext i hi
    simp
    grind
  | I =>
    simp only [Isa.Encodes, hf] at h
    obtain ⟨hop, h3⟩ := h
    simp only [Isa.assemble, hf, immOf, extractLsb_immI]
    rw [← hop, ← h3]
    ext i hi
    simp
    grind
  | S =>
    simp only [Isa.Encodes, hf] at h
    obtain ⟨hop, h3⟩ := h
    obtain ⟨himm7, himm5⟩ := extractLsb_immS raw
    simp only [Isa.assemble, hf, immOf, himm7, himm5]
    rw [← hop, ← h3]
    ext i hi
    simp
    grind
  | B =>
    simp only [Isa.Encodes, hf] at h
    obtain ⟨hop, h3⟩ := h
    obtain ⟨h12, h10, h4, h11⟩ := extractLsb_immB raw
    simp only [Isa.assemble, hf, immOf, h12, h10, h4, h11]
    rw [← hop, ← h3]
    ext i hi
    simp
    grind
  | U =>
    simp only [Isa.Encodes, hf] at h
    simp only [Isa.assemble, hf, immOf, extractLsb_immU]
    rw [← h]
    ext i hi
    simp
    grind
  | J =>
    simp only [Isa.Encodes, hf] at h
    obtain ⟨h20, h10, h11, h19⟩ := extractLsb_immJ raw
    simp only [Isa.assemble, hf, immOf, h20, h10, h11, h19]
    rw [← h]
    ext i hi
    simp
    grind
  | Base =>
    cases op <;> cases hf
    · exact h.elim
    -- the unused fields of `fence` and `fence.i`
    iterate 2
      obtain ⟨hop, h3⟩ := h
      simp only [Isa.assemble, Op.format, immOf]
      rw [← hop, ← h3]
      ext i hi
      simp
      grind
    · exact h.symm
    · exact h.symm

/-- A word whose highest bits are copies of bit `n` is in the range of `n + 1` bits with sign. -/
lemma range_of_getLsbD {x : BitVec 32} {n : ℕ} (hn : n < 31)
    (h : ∀ i, n ≤ i → i < 32 → x.getLsbD i = x.getLsbD n) :
    -2 ^ n ≤ x.toInt ∧ x.toInt < 2 ^ n := by
  have hx : (x.setWidth (n + 1)).signExtend 32 = x := by
    ext i hi
    rw [← BitVec.getLsbD_eq_getElem, ← BitVec.getLsbD_eq_getElem, BitVec.getLsbD_signExtend,
      decide_eq_true hi, Bool.true_and]
    split
    · rw [BitVec.getLsbD_setWidth, decide_eq_true (by omega), Bool.true_and]
    · rw [BitVec.msb_eq_getLsbD_last, BitVec.getLsbD_setWidth, h i (by omega) hi]
      simp
  have hint : (x.setWidth (n + 1)).toInt = x.toInt := by
    rw [← BitVec.toInt_signExtend_of_le (x := x.setWidth (n + 1)) (v := 32) (by omega), hx]
  rw [← hint]
  exact ⟨BitVec.le_toInt _, BitVec.toInt_lt⟩

lemma mod_of_getLsbD {x : BitVec 32} {n : ℕ} (h : ∀ i < n, x.getLsbD i = false) :
    x.toNat % 2 ^ n = 0 := by
  refine Nat.eq_of_testBit_eq fun i => ?_
  rw [Nat.testBit_mod_two_pow, Nat.zero_testBit]
  by_cases hi : i < n
  · have := h i hi
    rw [BitVec.getLsbD] at this
    simp [this]
  · simp [hi]

/-- The immediate of a word is one of its format. -/
lemma admits_immOf (f : Format) (raw : BitVec 32) : Isa.Admits f (immOf f raw) := by
  cases f with
  | R | Base => trivial
  | IS => exact immIS_lt raw
  | I =>
    refine range_of_getLsbD (by norm_num) fun i hn hi => ?_
    simp only [immOf]
    rw [getLsbD_immI raw hi, getLsbD_immI raw (by norm_num)]
    grind
  | S =>
    refine range_of_getLsbD (by norm_num) fun i hn hi => ?_
    simp only [immOf]
    rw [getLsbD_immS raw hi, getLsbD_immS raw (by norm_num)]
    grind
  | B =>
    have hrange := range_of_getLsbD (x := immB raw) (n := 12) (by norm_num) fun i hn hi => by
      rw [getLsbD_immB raw hi, getLsbD_immB raw (by norm_num)]
      grind
    exact ⟨hrange.1, hrange.2, mod_of_getLsbD (x := immB raw) (n := 1) fun i hi => by
      rw [getLsbD_immB raw (by omega), decide_eq_false (by omega), Bool.false_and]⟩
  | J =>
    have hrange := range_of_getLsbD (x := immJ raw) (n := 20) (by norm_num) fun i hn hi => by
      rw [getLsbD_immJ raw hi, getLsbD_immJ raw (by norm_num)]
      grind
    exact ⟨hrange.1, hrange.2, mod_of_getLsbD (x := immJ raw) (n := 1) fun i hi => by
      rw [getLsbD_immJ raw (by omega), decide_eq_false (by omega), Bool.false_and]⟩
  | U =>
    refine mod_of_getLsbD fun i hi => ?_
    simp only [immOf]
    rw [getLsbD_immU raw (by omega), decide_eq_false (by omega), Bool.false_and]

/-! ### The words of an instruction -/

variable {rd' rs1' rs2' : BitVec 5} {imm : BitVec 32}

lemma rdOf_eq (h : rd raw = rd'.toNat) : rdOf raw = rd'.toFin := Fin.ext h
lemma rs1Of_eq (h : rs1 raw = rs1'.toNat) : rs1Of raw = rs1'.toFin := Fin.ext h
lemma rs2Of_eq (h : rs2 raw = rs2'.toNat) : rs2Of raw = rs2'.toFin := Fin.ext h

/-- A word that the decoder takes back is one of the instruction's. -/
lemma spells_of_instrAt (hl : ¬ LooseFunct7 raw) (h : instrAt raw = some i) : Spells i raw := by
  have hne : decode raw ≠ .illegal := by
    intro hill
    rw [instrAt, hill] at h
    cases h
  refine ⟨decode raw, raw.extractLsb 11 7, raw.extractLsb 19 15, raw.extractLsb 24 20,
    immOf (decode raw).format raw, (assemble_fields (encodes_of_decode rfl hne hl)).symm,
    admits_immOf _ _, ?_⟩
  rw [← h, instrAt, rdOf_eq (rd_eq_iff.mpr rfl), rs1Of_eq (rs1_eq_iff.mpr rfl),
    rs2Of_eq (rs2_eq_iff.mpr rfl)]

/-- An instruction has no operands but those of its format. -/
lemma instrOf_congr {rd₁ rd₂ rs1₁ rs1₂ rs2₁ rs2₂ : Reg} {imm₁ imm₂ : BitVec 32}
    (hrd : op.hasRd = true → rd₁ = rd₂)
    (hrs1 : op.format = .R ∨ op.format = .I ∨ op.format = .IS ∨ op.format = .S ∨ op.format = .B →
      rs1₁ = rs1₂)
    (hrs2 : op.format = .R ∨ op.format = .S ∨ op.format = .B → rs2₁ = rs2₂)
    (himm : op.format ≠ .R → op.format ≠ .Base → imm₁ = imm₂) :
    instrOf op rd₁ rs1₁ rs2₁ imm₁ = instrOf op rd₂ rs1₂ rs2₂ imm₂ := by
  cases op <;> simp_all [instrOf, Op.hasRd, Op.format]

lemma immOf_assemble (hR : op.format ≠ .R) (hBase : op.format ≠ .Base)
    (himm : Isa.Admits op.format imm) :
    immOf op.format (Isa.assemble op rd' rs1' rs2' imm) = imm := by
  cases hf : op.format with
  | R => exact absurd hf hR
  | Base => exact absurd hf hBase
  | I => exact immI_assemble hf (hf ▸ himm)
  | IS => exact immIS_assemble hf (hf ▸ himm)
  | S => exact immS_assemble hf (hf ▸ himm)
  | B => exact immB_assemble hf (hf ▸ himm)
  | U => exact immU_assemble hf (hf ▸ himm)
  | J => exact immJ_assemble hf (hf ▸ himm)

/-- The decoder takes an instruction back from each of its words. -/
lemma instrAt_of_spells (h : Spells i raw) : instrAt raw = some i := by
  obtain ⟨op, rd', rs1', rs2', imm, rfl, himm, hi⟩ := h
  have hop : op ≠ .illegal := by
    rintro rfl
    cases hi
  rw [instrAt, decode_of_encodes (encodes_assemble hop), ← hi]
  exact instrOf_congr (fun h => rdOf_eq (rd_assemble h)) (fun h => rs1Of_eq (rs1_assemble h))
    (fun h => rs2Of_eq (rs2_assemble h)) fun hR hBase => immOf_assemble hR hBase himm

/-- The words of the instructions that are decoded as what they are not. -/
lemma not_looseFunct7_of_spells (h : Spells i raw) : ¬ LooseFunct7 raw := by
  obtain ⟨op, rd', rs1', rs2', imm, rfl, himm, hi⟩ := h
  have hop : op ≠ .illegal := by
    rintro rfl
    cases hi
  intro hl
  have henc : Isa.Encodes op (Isa.assemble op rd' rs1' rs2' imm) := encodes_assemble hop
  refine (decode_of_looseFunct7 hl).2 ?_
  rw [decode_of_encodes henc]
  exact henc

/-- The instructions are read off their words: the words of an instruction are those that are
decoded as it, but for the ones with a wrong value in a function field that the decoder does not
look at, which are the words of no instruction. -/
theorem spells_iff (i : Instr) (raw : BitVec 32) :
    Spells i raw ↔ instrAt raw = some i ∧ ¬ LooseFunct7 raw := by
  constructor
  · intro h
    exact ⟨instrAt_of_spells h, not_looseFunct7_of_spells h⟩
  · rintro ⟨h, hl⟩
    exact spells_of_instrAt hl h

end Rv32jit.Insn
