/-
# Bit fields of instruction words

`util/bitfield.h`, on 32-bit words.  A field is cut out by two shifts, as in the source; a
sequence of ranges is put together least significant first, and its last range is the signed
one.
-/
import Mathlib.Tactic

namespace Rv32jit

/-- `bf_range<T, l, h>::decode` for an unsigned `T`. -/
def bfRange (l h : ℕ) (c : BitVec 32) : BitVec 32 := (c <<< (31 - h)) >>> (31 - h + l)

/-- `bf_range<T, l, h>::decode` for a signed `T`. -/
def bfRangeSigned (l h : ℕ) (c : BitVec 32) : BitVec 32 :=
  (c <<< (31 - h)).sshiftRight (31 - h + l)

/-- `bf_seq<T, ...>::decode` for a signed `T` of `w` bits. -/
def bfSeq (w : ℕ) : List (ℕ × ℕ) → BitVec 32 → BitVec w
  | [], _ => 0
  | [(l, h)], c => (bfRangeSigned l h c).setWidth w
  | (l, h) :: rest, c =>
      (bfRange l h c ||| ((bfSeq w rest c).signExtend 32 <<< (h - l + 1))).setWidth w

/-- A field of bits `l` to `h` is that narrow. -/
lemma toNat_bfRange_lt {l h : ℕ} (hl : l ≤ h) (hh : h ≤ 31) (c : BitVec 32) :
    (bfRange l h c).toNat < 2 ^ (h + 1 - l) := by
  rw [bfRange, BitVec.toNat_ushiftRight, Nat.shiftRight_eq_div_pow]
  refine Nat.div_lt_of_lt_mul ?_
  rw [← pow_add, show 31 - h + l + (h + 1 - l) = 32 by omega]
  exact (c <<< (31 - h)).isLt

/-! ### The bits of a field -/

/-- The bit of the word that becomes bit `i` of a sequence of ranges; the last range is extended
by its sign. -/
def seqBit : List (ℕ × ℕ) → ℕ → ℕ
  | [], i => i
  | [(l, h)], i => min (l + i) h
  | (l, h) :: rest, i => if i < h - l + 1 then l + i else seqBit rest (i - (h - l + 1))

/-- The number of bits of a sequence of ranges. -/
def seqSize (parts : List (ℕ × ℕ)) : ℕ := (parts.map fun p => p.2 - p.1 + 1).sum

lemma getLsbD_bfRange {l h : ℕ} (hl : l ≤ h) (hh : h ≤ 31) (c : BitVec 32) (i : ℕ) :
    (bfRange l h c).getLsbD i = (decide (i < h - l + 1) && c.getLsbD (l + i)) := by
  simp only [bfRange, BitVec.getLsbD_ushiftRight, BitVec.getLsbD_shiftLeft]
  rw [show 31 - h + l + i - (31 - h) = l + i by omega,
    decide_eq_false (show ¬ 31 - h + l + i < 31 - h by omega),
    show decide (31 - h + l + i < 32) = decide (i < h - l + 1) from
      decide_eq_decide.mpr (by omega)]
  simp

lemma getLsbD_bfRangeSigned {l h : ℕ} (hl : l ≤ h) (hh : h ≤ 31) (c : BitVec 32) {i : ℕ}
    (hi : i < 32) : (bfRangeSigned l h c).getLsbD i = c.getLsbD (min (l + i) h) := by
  simp only [bfRangeSigned, BitVec.getLsbD_sshiftRight, BitVec.getLsbD_shiftLeft,
    BitVec.msb_eq_getLsbD_last]
  rw [decide_eq_false (show ¬ 32 ≤ i by omega)]
  split
  · rw [show 31 - h + l + i - (31 - h) = l + i by omega, min_eq_left (show l + i ≤ h by omega),
      decide_eq_false (show ¬ 31 - h + l + i < 31 - h by omega),
      decide_eq_true (show 31 - h + l + i < 32 by omega)]
    simp
  · rw [show 32 - 1 - (31 - h) = h by omega, min_eq_right (show h ≤ l + i by omega),
      decide_eq_false (show ¬ 32 - 1 < 31 - h by omega)]
    simp

lemma bfSeq_cons {w : ℕ} (p : ℕ × ℕ) {rest : List (ℕ × ℕ)} (hrest : rest ≠ []) (c : BitVec 32) :
    bfSeq w (p :: rest) c =
      (bfRange p.1 p.2 c ||| ((bfSeq w rest c).signExtend 32 <<< (p.2 - p.1 + 1))).setWidth w := by
  obtain ⟨q, rest, rfl⟩ := List.exists_cons_of_ne_nil hrest
  rw [bfSeq]
  simp

lemma seqBit_cons (p : ℕ × ℕ) {rest : List (ℕ × ℕ)} (hrest : rest ≠ []) (i : ℕ) :
    seqBit (p :: rest) i =
      if i < p.2 - p.1 + 1 then p.1 + i else seqBit rest (i - (p.2 - p.1 + 1)) := by
  obtain ⟨q, rest, rfl⟩ := List.exists_cons_of_ne_nil hrest
  rw [seqBit]
  simp

/-- The recursion over a sequence of ranges, bit by bit. -/
lemma getLsbD_bfSeq {w : ℕ} (hw : w ≤ 32) {parts : List (ℕ × ℕ)} (hne : parts ≠ [])
    (hparts : ∀ p ∈ parts, p.1 ≤ p.2 ∧ p.2 ≤ 31) (c : BitVec 32) {i : ℕ} (hi : i < w) :
    (bfSeq w parts c).getLsbD i = c.getLsbD (seqBit parts i) := by
  induction parts generalizing i with
  | nil => exact absurd rfl hne
  | cons p rest ih =>
    obtain ⟨hl, hh⟩ := hparts p List.mem_cons_self
    by_cases hrest : rest = []
    · subst hrest
      rw [bfSeq, seqBit, BitVec.getLsbD_setWidth, getLsbD_bfRangeSigned hl hh c (by omega),
        decide_eq_true hi, Bool.true_and]
    · rw [bfSeq_cons p hrest, seqBit_cons p hrest]
      simp only [BitVec.getLsbD_setWidth, BitVec.getLsbD_or, getLsbD_bfRange hl hh,
        BitVec.getLsbD_shiftLeft, BitVec.getLsbD_signExtend]
      by_cases hlt : i < p.2 - p.1 + 1
      · simp [hlt, hi]
      · have hi' : i - (p.2 - p.1 + 1) < w := by omega
        have ih' := ih hrest (fun p hp => hparts p (List.mem_cons_of_mem _ hp)) hi'
        rw [if_neg hlt, if_pos hi', ih', decide_eq_true hi, decide_eq_false hlt,
          decide_eq_true (show i < 32 by omega),
          decide_eq_true (show i - (p.2 - p.1 + 1) < 32 by omega)]
        simp

/-- Behind its last bit a sequence goes on with its sign. -/
lemma seqBit_of_le {parts : List (ℕ × ℕ)} (hne : parts ≠ []) (hparts : ∀ p ∈ parts, p.1 ≤ p.2)
    {i j : ℕ} (hi : seqSize parts ≤ i + 1) (hj : seqSize parts ≤ j + 1) :
    seqBit parts i = seqBit parts j := by
  induction parts generalizing i j with
  | nil => exact absurd rfl hne
  | cons p rest ih =>
    have hl := hparts p List.mem_cons_self
    have hsize : seqSize (p :: rest) = p.2 - p.1 + 1 + seqSize rest := by simp [seqSize]
    rw [hsize] at hi hj
    by_cases hrest : rest = []
    · subst hrest
      have : seqSize [] = 0 := rfl
      simp only [seqBit]
      omega
    · obtain ⟨q, rest, rfl⟩ := List.exists_cons_of_ne_nil hrest
      have hpos : 1 ≤ seqSize (q :: rest) := by
        simp only [seqSize, List.map_cons, List.sum_cons]
        omega
      rw [seqBit_cons p hrest, seqBit_cons p hrest, if_neg (by omega), if_neg (by omega)]
      exact ih hrest (fun p hp => hparts p (List.mem_cons_of_mem _ hp)) (by omega) (by omega)

/-- A sequence of ranges as a signed value. -/
lemma getLsbD_signExtend_bfSeq {w : ℕ} (hw : w ≤ 32) {parts : List (ℕ × ℕ)} (hne : parts ≠ [])
    (hparts : ∀ p ∈ parts, p.1 ≤ p.2 ∧ p.2 ≤ 31) (hsize : seqSize parts ≤ w) (hpos : 0 < w)
    (c : BitVec 32) {i : ℕ} (hi : i < 32) :
    ((bfSeq w parts c).signExtend 32).getLsbD i = c.getLsbD (seqBit parts i) := by
  rw [BitVec.getLsbD_signExtend, decide_eq_true hi, Bool.true_and]
  split
  · exact getLsbD_bfSeq hw hne hparts c (by assumption)
  · rw [BitVec.msb_eq_getLsbD_last, getLsbD_bfSeq hw hne hparts c (by omega),
      seqBit_of_le hne (fun p hp => (hparts p hp).1) (j := i) (by omega) (by omega)]

/-- A field is the range of bits of its word. -/
lemma bfRange_eq_extractLsb {l h : ℕ} (hl : l ≤ h) (hh : h ≤ 31) (c : BitVec 32) :
    bfRange l h c = (c.extractLsb h l).setWidth 32 := by
  ext i hi
  rw [← BitVec.getLsbD_eq_getElem, getLsbD_bfRange hl hh]
  simp

lemma extractLsb_eq_iff {l h : ℕ} (hl : l ≤ h) (hh : h ≤ 31) {c : BitVec 32}
    {v : BitVec (h - l + 1)} : c.extractLsb h l = v ↔ (bfRange l h c).toNat = v.toNat := by
  have hlt : (c.extractLsb h l).toNat < 2 ^ 32 :=
    Nat.lt_of_lt_of_le (c.extractLsb h l).isLt (Nat.pow_le_pow_right (by norm_num) (by omega))
  rw [bfRange_eq_extractLsb hl hh, BitVec.toNat_setWidth, Nat.mod_eq_of_lt hlt, BitVec.toNat_inj]

example : bfSeq 16 [(20, 30), (31, 31)] 0xFFF00000#32 = -1#16 := by decide
example : bfRange 7 11 0x00000F80#32 = 31#32 := by decide

end Rv32jit
