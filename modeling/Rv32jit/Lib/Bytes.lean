/-
# Byte strings in memory

Copying a list of bytes into a memory, what the memory then holds, and null-terminated strings.
-/
import Rv32jit.Lib.ByteMem

namespace ByteMem

variable {m m' : ByteMem} {a x : ℕ} {l l' : List (BitVec 8)}

/-- Copies the bytes to address `a`. -/
def storeBytes (m : ByteMem) (a : ℕ) (l : List (BitVec 8)) : ByteMem := fun x =>
  if a ≤ x then (l[x - a]?).getD (m x) else m x

/-- The bytes lie at address `a`. -/
def HasBytes (m : ByteMem) (a : ℕ) (l : List (BitVec 8)) : Prop :=
  ∀ i (h : i < l.length), m (a + i) = l[i]

/-- The words lie at address `a`. -/
def HasWords (m : ByteMem) (a : ℕ) (l : List (BitVec 32)) : Prop :=
  ∀ i (h : i < l.length), m.load (a + 4 * i) 4 = l[i]

lemma storeBytes_of_notMem (m : ByteMem) (h : x < a ∨ a + l.length ≤ x) :
    m.storeBytes a l x = m x := by
  rw [storeBytes]
  split
  · rw [List.getElem?_eq_none (by omega), Option.getD_none]
  · rfl

lemma hasBytes_storeBytes (m : ByteMem) (a : ℕ) (l : List (BitVec 8)) :
    (m.storeBytes a l).HasBytes a l := by
  intro i h
  rw [storeBytes, if_pos (Nat.le_add_right a i), Nat.add_sub_cancel_left,
    List.getElem?_eq_getElem h, Option.getD_some]

lemma HasBytes.congr (h : m.HasBytes a l) (heq : ∀ x, a ≤ x → x < a + l.length → m' x = m x) :
    m'.HasBytes a l := by
  intro i hi
  rw [heq (a + i) (Nat.le_add_right a i) (by omega), h i hi]

lemma HasWords.congr {l : List (BitVec 32)} (h : m.HasWords a l)
    (heq : ∀ x, a ≤ x → x < a + 4 * l.length → m' x = m x) : m'.HasWords a l := by
  intro i hi
  rw [← h i hi]
  exact load_congr fun x h1 h2 => heq x (by omega) (by omega)

lemma hasWords_append {l l' : List (BitVec 32)} :
    m.HasWords a (l ++ l') ↔ m.HasWords a l ∧ m.HasWords (a + 4 * l.length) l' := by
  constructor
  · intro h
    refine ⟨fun i hi => ?_, fun i hi => ?_⟩
    · rw [h i (by rw [List.length_append]; omega), List.getElem_append_left hi]
    · have := h (l.length + i) (by rw [List.length_append]; omega)
      rw [List.getElem_append_right (Nat.le_add_right _ _)] at this
      simpa [Nat.mul_add, Nat.add_assoc] using this
  · rintro ⟨h1, h2⟩ i hi
    by_cases hlt : i < l.length
    · rw [List.getElem_append_left hlt, h1 i hlt]
    · rw [List.getElem_append_right (by omega)]
      rw [List.length_append] at hi
      have := h2 (i - l.length) (by omega)
      rwa [show a + 4 * l.length + 4 * (i - l.length) = a + 4 * i by omega] at this

end ByteMem

/-- A string of the host: bytes of which none is zero. -/
structure CString where
  chars : List (BitVec 8)
  noNul : 0 ∉ chars

namespace CString

/-- The string with its terminator. -/
def bytes (s : CString) : List (BitVec 8) := s.chars ++ [0]

/-- `strlen`. -/
def strlen (s : CString) : ℕ := s.chars.length

lemma length_bytes (s : CString) : s.bytes.length = s.strlen + 1 := by
  simp [bytes, strlen]

/-- The terminator is the first null byte. -/
lemma getElem_bytes_ne_zero (s : CString) {i : ℕ} (h : i < s.strlen)
    (hi : i < s.bytes.length) : s.bytes[i] ≠ 0 := by
  intro h0
  simp only [bytes] at h0
  rw [List.getElem_append_left h] at h0
  exact s.noNul (h0 ▸ List.getElem_mem h)

end CString
