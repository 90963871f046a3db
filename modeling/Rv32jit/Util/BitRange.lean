/-
# Bit fields of a container

`bf_range` of `util/bitfield.h`, for a field type and a container of any width and sign.  A field
is read by a shift to the top and one back down, arithmetic if its type is signed, and written
under a mask.  Both are described bit by bit, and from that follow the round trip and that
fields which do not overlap do not disturb each other.
-/
import Mathlib.Tactic

namespace Rv32jit

/-- An integer type. -/
structure IntType where
  width : ℕ
  signed : Bool
deriving DecidableEq, Repr

/-- A value of the type, in two's complement. -/
abbrev IntType.Val (T : IntType) := BitVec T.width

/-- The conversion to an integer type of `n` bits. -/
def IntType.convert (T : IntType) (n : ℕ) (t : T.Val) : BitVec n :=
  if T.signed then t.signExtend n else t.setWidth n

/-- `bf_range<T, l, h>`, with its static assertions. -/
structure BfRange (T : IntType) where
  l : ℕ
  h : ℕ
  le : l ≤ h
  size_le : h - l + 1 ≤ T.width

namespace BfRange

variable {T T' C : IntType}

/-- The number of bits of the field. -/
def size (f : BfRange T) : ℕ := f.h - f.l + 1

/-- The bits of the field in the container. -/
def mask (f : BfRange T) : BitVec 64 := ((1#64 <<< f.size) - 1#64) <<< f.l

/-- `decode_bits`; the container has been cast to the sign of the field's type. -/
def decode_bits (f : BfRange T) (c : C.Val) : C.Val :=
  let u_msb := C.width - 1
  if T.signed then (c <<< (u_msb - f.h)).sshiftRight (u_msb - f.h + f.l)
  else (c <<< (u_msb - f.h)) >>> (u_msb - f.h + f.l)

/-- `decode`: the field as a value of its own type. -/
def decode (f : BfRange T) (c : C.Val) : T.Val := (f.decode_bits c).setWidth T.width

/-- `encode`.  The mask is a `size_t`, and so is the union before it is cut to the container. -/
def encode (f : BfRange T) (c : C.Val) (t : T.Val) : C.Val :=
  let u_msb := C.width - 1
  let fval : C.Val := (T.convert C.width t <<< (u_msb - f.h + f.l)) >>> (u_msb - f.h)
  ((C.convert 64 c &&& ~~~f.mask) ||| fval.setWidth 64).setWidth C.width

/-- The static assertions on the container, which is one of the two that the shifts are right
for: a narrower one is promoted. -/
structure In (f : BfRange T) (C : IntType) : Prop where
  width : C.width = 32 ∨ C.width = 64
  h_lt : f.h < C.width
  type_le : T.width ≤ C.width

/-- The value cut to the bits of the field, and extended again. -/
def reduce (f : BfRange T) (t : T.Val) : T.Val :=
  if T.signed then (t.setWidth f.size).signExtend T.width else (t.setWidth f.size).setWidth T.width

variable {f : BfRange T} {g : BfRange T'}

lemma In.width_le (h : f.In C) : C.width ≤ 64 := by rcases h.width with h | h <;> omega

lemma size_pos : 0 < f.size := Nat.succ_pos _

lemma l_add_size : f.l + f.size = f.h + 1 := by
  have := f.le
  rw [size]
  omega

lemma size_le_width : f.size ≤ T.width := f.size_le

/-! ### Bit by bit -/

lemma getLsbD_convert (t : T.Val) {n i : ℕ} (hi : i < n) (ht : i < T.width) :
    (T.convert n t).getLsbD i = t.getLsbD i := by
  rw [IntType.convert]
  split
  · rw [BitVec.getLsbD_signExtend, decide_eq_true hi, if_pos ht, Bool.true_and]
  · rw [BitVec.getLsbD_setWidth, decide_eq_true hi, Bool.true_and]

lemma getLsbD_mask (hsize : f.size < 64) {i : ℕ} (hi : i < 64) :
    f.mask.getLsbD i = decide (f.l ≤ i ∧ i ≤ f.h) := by
  have hle := f.le
  have hones : 1#64 <<< f.size - 1#64 = BitVec.ofNat 64 (2 ^ f.size - 1) := by
    have hlt : 2 ^ f.size < 2 ^ 64 := Nat.pow_lt_pow_right (by norm_num) hsize
    have hpos : 0 < 2 ^ f.size := Nat.two_pow_pos _
    refine BitVec.eq_of_toNat_eq ?_
    rw [BitVec.toNat_sub, BitVec.toNat_shiftLeft, Nat.shiftLeft_eq, BitVec.toNat_ofNat,
      BitVec.toNat_ofNat, Nat.one_mod_two_pow (by norm_num), one_mul, Nat.mod_eq_of_lt hlt]
    omega
  rw [mask, hones, BitVec.getLsbD_shiftLeft, BitVec.getLsbD_ofNat, Nat.testBit_two_pow_sub_one,
    decide_eq_true hi, Bool.true_and, ← decide_not, ← Bool.decide_and, ← Bool.decide_and]
  refine decide_eq_decide.mpr ?_
  rw [size]
  omega

/-- What a written field holds: the value's bits in it, and the container's elsewhere. -/
lemma getLsbD_encode (hC : f.In C) (hsize : f.size < 64) (c : C.Val) (t : T.Val) {i : ℕ}
    (hi : i < C.width) :
    (f.encode c t).getLsbD i = if f.l ≤ i ∧ i ≤ f.h then t.getLsbD (i - f.l) else c.getLsbD i := by
  have hh := hC.h_lt
  have h64 := hC.width_le
  have hT := size_le_width (f := f)
  have hsz := l_add_size (f := f)
  rw [encode, BitVec.getLsbD_setWidth, decide_eq_true hi, Bool.true_and, BitVec.getLsbD_or,
    BitVec.getLsbD_and, BitVec.getLsbD_not, getLsbD_mask hsize (by omega),
    getLsbD_convert c (by omega) hi, BitVec.getLsbD_setWidth, BitVec.getLsbD_ushiftRight,
    BitVec.getLsbD_shiftLeft]
  by_cases hin : f.l ≤ i ∧ i ≤ f.h
  · rw [if_pos hin, show C.width - 1 - f.h + i - (C.width - 1 - f.h + f.l) = i - f.l by omega,
      getLsbD_convert t (by omega) (by omega)]
    simp [hin, show i < 64 by omega, show C.width - 1 - f.h + i < C.width by omega]
  · rw [if_neg hin]
    rcases not_and_or.mp hin with hlo | hhi
    · simp [hin, show i < 64 by omega,
        show C.width - 1 - f.h + i < C.width - 1 - f.h + f.l by omega]
    · simp [hin, show i < 64 by omega, show ¬ C.width - 1 - f.h + i < C.width by omega]

/-- What a field reads: its bits, and above them zeros or copies of its last. -/
lemma getLsbD_decode_bits (hC : f.In C) (c : C.Val) {i : ℕ} (hi : i < C.width) :
    (f.decode_bits c).getLsbD i =
      if i < f.size then c.getLsbD (f.l + i) else (T.signed && c.getLsbD f.h) := by
  have hh := hC.h_lt
  have hsz := l_add_size (f := f)
  rw [decode_bits]
  by_cases hs : T.signed
  · rw [if_pos hs, BitVec.getLsbD_sshiftRight, BitVec.getLsbD_shiftLeft, hs,
      decide_eq_false (show ¬ C.width ≤ i by omega)]
    by_cases hlt : i < f.size
    · rw [if_pos hlt, if_pos (by omega),
        show C.width - 1 - f.h + f.l + i - (C.width - 1 - f.h) = f.l + i by omega]
      simp [show C.width - 1 - f.h + f.l + i < C.width by omega,
        show ¬ C.width - 1 - f.h + f.l + i < C.width - 1 - f.h by omega]
    · rw [if_neg hlt, if_neg (by omega), BitVec.msb_eq_getLsbD_last, BitVec.getLsbD_shiftLeft,
        show C.width - 1 - (C.width - 1 - f.h) = f.h by omega]
      simp [show C.width - 1 < C.width by omega, show ¬ C.width - 1 < C.width - 1 - f.h by omega]
  · rw [if_neg hs, BitVec.getLsbD_ushiftRight, BitVec.getLsbD_shiftLeft]
    simp only [hs]
    by_cases hlt : i < f.size
    · rw [if_pos hlt, show C.width - 1 - f.h + f.l + i - (C.width - 1 - f.h) = f.l + i by omega]
      simp [show C.width - 1 - f.h + f.l + i < C.width by omega,
        show ¬ C.width - 1 - f.h + f.l + i < C.width - 1 - f.h by omega]
    · rw [if_neg hlt]
      simp [show ¬ C.width - 1 - f.h + f.l + i < C.width by omega]

lemma getLsbD_decode (hC : f.In C) (c : C.Val) {i : ℕ} (hi : i < T.width) :
    (f.decode c).getLsbD i =
      if i < f.size then c.getLsbD (f.l + i) else (T.signed && c.getLsbD f.h) := by
  have hT := hC.type_le
  rw [decode, BitVec.getLsbD_setWidth, decide_eq_true hi, Bool.true_and,
    getLsbD_decode_bits hC c (by omega)]

lemma getLsbD_reduce (t : T.Val) {i : ℕ} (hi : i < T.width) :
    (f.reduce t).getLsbD i =
      if i < f.size then t.getLsbD i else (T.signed && t.getLsbD (f.size - 1)) := by
  have hpos := size_pos (f := f)
  have hT := size_le_width (f := f)
  rw [reduce]
  by_cases hs : T.signed
  · rw [if_pos hs, BitVec.getLsbD_signExtend, decide_eq_true hi, Bool.true_and, hs, Bool.true_and,
      BitVec.msb_eq_getLsbD_last, BitVec.getLsbD_setWidth, BitVec.getLsbD_setWidth]
    split
    · simp_all
    · simp [show f.size - 1 < f.size by omega]
  · rw [if_neg hs, BitVec.getLsbD_setWidth, BitVec.getLsbD_setWidth, decide_eq_true hi,
      Bool.true_and]
    split <;> simp_all

/-! ### Reading what has been written -/

/-- A field reads back what has been written to it. -/
lemma decode_encode (hC : f.In C) (hsize : f.size < 64) (c : C.Val) (t : T.Val) :
    f.decode (f.encode c t) = f.reduce t := by
  have hh := hC.h_lt
  have hsz := l_add_size (f := f)
  refine BitVec.eq_of_getLsbD_eq fun i hi => ?_
  rw [getLsbD_decode hC _ hi, getLsbD_reduce t hi]
  split
  · rw [getLsbD_encode hC hsize c t (by omega), if_pos (by omega), Nat.add_sub_cancel_left]
  · rw [getLsbD_encode hC hsize c t hh, if_pos ⟨f.le, le_rfl⟩,
      show f.h - f.l = f.size - 1 by omega]

/-- Writing a field leaves a field on other bits alone. -/
lemma decode_encode_of_disjoint (hf : f.In C) (hg : g.In C) (hsize : g.size < 64)
    (hdisj : f.h < g.l ∨ g.h < f.l) (c : C.Val) (t : T'.Val) :
    f.decode (g.encode c t) = f.decode c := by
  have hh := hf.h_lt
  have hle := f.le
  have hsz := l_add_size (f := f)
  refine BitVec.eq_of_getLsbD_eq fun i hi => ?_
  rw [getLsbD_decode hf _ hi, getLsbD_decode hf _ hi]
  split
  · rw [getLsbD_encode hg hsize c t (by omega), if_neg (by omega)]
  · rw [getLsbD_encode hg hsize c t hh, if_neg (by omega)]

/-- Of an unsigned field nothing is lost in the conversion to its type. -/
lemma decode_bits_eq (hC : f.In C) (hs : T.signed = false) (c : C.Val) :
    f.decode_bits c = (f.decode c).setWidth C.width := by
  have hT := size_le_width (f := f)
  refine BitVec.eq_of_getLsbD_eq fun i hi => ?_
  rw [getLsbD_decode_bits hC c hi, BitVec.getLsbD_setWidth, decide_eq_true hi, Bool.true_and, hs]
  by_cases hlt : i < T.width
  · rw [getLsbD_decode hC c hlt, hs]
  · rw [if_neg (show ¬ i < f.size by omega), Bool.false_and, BitVec.getLsbD_of_ge _ _ (by omega)]

lemma decode_zero (hC : f.In C) : f.decode (0 : C.Val) = 0 := by
  refine BitVec.eq_of_getLsbD_eq fun i hi => ?_
  rw [getLsbD_decode hC _ hi]
  simp

/-- A value as wide as its field is not cut. -/
lemma reduce_of_size_eq (hs : T.signed = false) (t : T.Val) (ht : t.toNat < 2 ^ f.size) :
    f.reduce t = t := by
  refine BitVec.eq_of_toNat_eq ?_
  rw [reduce, hs, if_neg (by decide), BitVec.toNat_setWidth, BitVec.toNat_setWidth,
    Nat.mod_eq_of_lt ht, Nat.mod_eq_of_lt t.isLt]

end BfRange

end Rv32jit
