/-
# Little-endian byte memories

A memory is a function from addresses to bytes.  A load of `n` bytes assembles them, least
significant first, into a word of `w` bits; a store writes the low `n` bytes of a word.  The
file gives the bit-level meaning of both, from which follow the rules a program proof uses: a
load of what was stored, a load away from what was stored, and narrower loads of a wider one.
-/
import Mathlib.Tactic

/-- A byte memory. -/
abbrev ByteMem : Type := ℕ → BitVec 8

namespace ByteMem

variable {w : ℕ}

/-- The low `n` bytes of a word, zero-extended. -/
def lowBytes (n : ℕ) (v : BitVec w) : BitVec w := (v.setWidth (8 * n)).setWidth w

/-- `old` with its low `n` bytes replaced by those of `v`. -/
def setLow (n : ℕ) (old v : BitVec w) : BitVec w :=
  ((old >>> (8 * n)) <<< (8 * n)) ||| lowBytes n v

/-- The word whose low `n` bytes are read from address `a` on, the others being zero. -/
def load (m : ByteMem) (a : ℕ) : ℕ → BitVec w
  | 0 => 0
  | n + 1 => (m a).setWidth w ||| (load m (a + 1) n <<< 8)

/-- Writes the low `n` bytes of `v` from address `a` on. -/
def store (m : ByteMem) (a n : ℕ) (v : BitVec w) : ByteMem :=
  fun x => if a ≤ x ∧ x < a + n then v.extractLsb' (8 * (x - a)) 8 else m x

/-! ### The bits of each operation -/

lemma getLsbD_lowBytes (n : ℕ) (v : BitVec w) (k : ℕ) :
    (lowBytes n v).getLsbD k = (decide (k < 8 * n) && v.getLsbD k) := by
  by_cases hk : k < w
  · simp [lowBytes, hk]
  · simp [lowBytes, hk, BitVec.getLsbD_of_ge v k (by omega)]

lemma getLsbD_setLow (n : ℕ) (old v : BitVec w) (k : ℕ) :
    (setLow n old v).getLsbD k = if k < 8 * n then v.getLsbD k else old.getLsbD k := by
  simp only [setLow, BitVec.getLsbD_or, BitVec.getLsbD_shiftLeft, BitVec.getLsbD_ushiftRight,
    getLsbD_lowBytes]
  by_cases hk : k < 8 * n
  · simp [hk]
  · by_cases hw : k < w
    · simp [hk, hw, show 8 * n + (k - 8 * n) = k by omega]
    · simp [hk, hw, BitVec.getLsbD_of_ge old k (by omega)]

lemma getLsbD_load (m : ByteMem) (a n k : ℕ) :
    (load m a n : BitVec w).getLsbD k =
      (decide (k < w) && decide (k < 8 * n) && (m (a + k / 8)).getLsbD (k % 8)) := by
  induction n generalizing a k with
  | zero => simp [load]
  | succ n ih =>
    simp only [load, BitVec.getLsbD_or, BitVec.getLsbD_setWidth, BitVec.getLsbD_shiftLeft, ih]
    by_cases hw : k < w
    · by_cases h8 : k < 8
      · simp [hw, h8, show k < 8 * (n + 1) by omega, Nat.div_eq_of_lt h8, Nat.mod_eq_of_lt h8]
      · have hdiv : a + 1 + (k - 8) / 8 = a + k / 8 := by omega
        have hmod : (k - 8) % 8 = k % 8 := by omega
        have hlt : (k - 8 < 8 * n) ↔ (k < 8 * (n + 1)) := by omega
        simp [hw, h8, hdiv, hmod, hlt, show k - 8 < w by omega,
          BitVec.getLsbD_of_ge (m a) k (by omega)]
    · simp [hw]

lemma getLsbD_store (m : ByteMem) (a n : ℕ) (v : BitVec w) (x k : ℕ) (hk : k < 8) :
    (store m a n v x).getLsbD k =
      if a ≤ x ∧ x < a + n then v.getLsbD (8 * (x - a) + k) else (m x).getLsbD k := by
  by_cases hx : a ≤ x ∧ x < a + n
  · simp [store, hx, hk]
  · simp [store, hx]

/-! ### Narrowing -/

@[simp] lemma lowBytes_lowBytes (i j : ℕ) (v : BitVec w) :
    lowBytes i (lowBytes j v) = lowBytes (min i j) v := by
  apply BitVec.eq_of_getLsbD_eq
  intro k hk
  simp only [getLsbD_lowBytes]
  by_cases hi : k < 8 * i <;> by_cases hj : k < 8 * j <;> simp [hi, hj] <;> omega

lemma setWidth_lowBytes {u n : ℕ} (h : u ≤ 8 * n) (v : BitVec w) :
    (lowBytes n v).setWidth u = v.setWidth u := by
  apply BitVec.eq_of_getLsbD_eq
  intro k hk
  simp [getLsbD_lowBytes, hk, show k < 8 * n by omega]

lemma lowBytes_of_le {n : ℕ} (h : w ≤ 8 * n) (v : BitVec w) : lowBytes n v = v := by
  apply BitVec.eq_of_getLsbD_eq
  intro k hk
  simp [getLsbD_lowBytes, show k < 8 * n by omega]

lemma lowBytes_load (m : ByteMem) (a i n : ℕ) :
    lowBytes i (load m a n : BitVec w) = load m a (min i n) := by
  apply BitVec.eq_of_getLsbD_eq
  intro k hk
  simp only [getLsbD_lowBytes, getLsbD_load]
  by_cases hi : k < 8 * i <;> by_cases hn : k < 8 * n <;> simp [hi, hn, hk] <;> omega

/-- A load at another width, if nothing is cut off. -/
lemma setWidth_load {u : ℕ} (m : ByteMem) (a : ℕ) {n : ℕ} (h : 8 * n ≤ w ∨ u ≤ w) :
    (load m a n : BitVec w).setWidth u = load m a n := by
  apply BitVec.eq_of_getLsbD_eq
  intro k hk
  simp only [BitVec.getLsbD_setWidth, getLsbD_load, hk, decide_true, Bool.true_and]
  by_cases hn : k < 8 * n
  · simp [hn, show k < w by omega]
  · simp [hn]

lemma lowBytes_setLow {i n : ℕ} (h : i ≤ n) (old v : BitVec w) :
    lowBytes i (setLow n old v) = lowBytes i v := by
  apply BitVec.eq_of_getLsbD_eq
  intro k hk
  simp only [getLsbD_lowBytes, getLsbD_setLow]
  by_cases hi : k < 8 * i
  · simp [hi, show k < 8 * n by omega]
  · simp [hi]

lemma setLow_of_le {n : ℕ} (h : w ≤ 8 * n) (old v : BitVec w) : setLow n old v = v := by
  apply BitVec.eq_of_getLsbD_eq
  intro k hk
  simp [getLsbD_setLow, show k < 8 * n by omega]

lemma setLow_setLow (n : ℕ) (old u v : BitVec w) :
    setLow n (setLow n old u) v = setLow n old v := by
  apply BitVec.eq_of_getLsbD_eq
  intro k hk
  simp only [getLsbD_setLow]
  split <;> rfl

lemma setLow_lowBytes (n : ℕ) (old v : BitVec w) :
    setLow n old (lowBytes n v) = setLow n old v := by
  apply BitVec.eq_of_getLsbD_eq
  intro k hk
  simp only [getLsbD_setLow, getLsbD_lowBytes]
  by_cases hn : k < 8 * n <;> simp [hn]

lemma setWidth_setLow {u : ℕ} (n : ℕ) (old v : BitVec w) :
    (setLow n old v).setWidth u = setLow n (old.setWidth u) (v.setWidth u) := by
  apply BitVec.eq_of_getLsbD_eq
  intro k hk
  simp only [getLsbD_setLow, BitVec.getLsbD_setWidth, hk, decide_true, Bool.true_and]

/-! ### Loads and stores -/

lemma load_congr {m m' : ByteMem} {a n : ℕ} (h : ∀ x, a ≤ x → x < a + n → m x = m' x) :
    (load m a n : BitVec w) = load m' a n := by
  apply BitVec.eq_of_getLsbD_eq
  intro k hk
  simp only [getLsbD_load]
  by_cases hn : k < 8 * n
  · rw [h (a + k / 8) (by omega) (by omega)]
  · simp [hn]

/-- Loads at two places that hold the same bytes. -/
lemma load_congr_at {m m' : ByteMem} {a b n : ℕ} (h : ∀ i < n, m (a + i) = m' (b + i)) :
    (load m a n : BitVec w) = load m' b n := by
  apply BitVec.eq_of_getLsbD_eq
  intro k hk
  simp only [getLsbD_load]
  by_cases hn : k < 8 * n
  · rw [h (k / 8) (by omega)]
  · simp [hn]

lemma store_apply_of_notMem {m : ByteMem} {a n x : ℕ} (v : BitVec w) (h : x < a ∨ a + n ≤ x) :
    store m a n v x = m x := by
  have hx : ¬ (a ≤ x ∧ x < a + n) := by omega
  simp [store, hx]

lemma load_store_of_le (m : ByteMem) (a : ℕ) {i n : ℕ} (h : i ≤ n) (v : BitVec w) :
    load (store m a n v) a i = lowBytes i v := by
  apply BitVec.eq_of_getLsbD_eq
  intro k hk
  simp only [getLsbD_load, getLsbD_lowBytes]
  by_cases hi : k < 8 * i
  · rw [getLsbD_store _ _ _ _ _ _ (by omega)]
    have hin : a ≤ a + k / 8 ∧ a + k / 8 < a + n := by omega
    simp [hk, hi, hin, show 8 * (k / 8) + k % 8 = k by omega]
  · simp [hi]

@[simp] lemma load_store (m : ByteMem) (a n : ℕ) (v : BitVec w) :
    load (store m a n v) a n = lowBytes n v :=
  load_store_of_le m a le_rfl v

lemma load_store_disjoint (m : ByteMem) {u a n b k : ℕ} (v : BitVec u)
    (h : b + k ≤ a ∨ a + n ≤ b) : (load (store m a n v) b k : BitVec w) = load m b k :=
  load_congr fun x hx hx' => store_apply_of_notMem v (by omega)

lemma store_store (m : ByteMem) (a n : ℕ) (u v : BitVec w) :
    store (store m a n u) a n v = store m a n v := by
  funext x
  simp only [store]
  split <;> rfl

/-- Storing back what is there changes nothing. -/
lemma store_load_same {n : ℕ} (h : 8 * n ≤ w) (m : ByteMem) (a : ℕ) :
    store m a n (load m a n : BitVec w) = m := by
  funext x
  apply BitVec.eq_of_getLsbD_eq
  intro k hk
  rw [getLsbD_store _ _ _ _ _ _ hk]
  by_cases hx : a ≤ x ∧ x < a + n
  · rw [if_pos hx, getLsbD_load]
    have h1 : 8 * (x - a) + k < w := by omega
    have h2 : 8 * (x - a) + k < 8 * n := by omega
    have h3 : a + (8 * (x - a) + k) / 8 = x := by omega
    have h4 : (8 * (x - a) + k) % 8 = k := by omega
    simp [h1, h2, h3, h4]
  · rw [if_neg hx]

/-- What a store writes depends on the low bytes of the word only. -/
lemma store_lowBytes (m : ByteMem) (a n : ℕ) (v : BitVec w) :
    store m a n (lowBytes n v) = store m a n v := by
  funext x
  apply BitVec.eq_of_getLsbD_eq
  intro k hk
  rw [getLsbD_store _ _ _ _ _ _ hk, getLsbD_store _ _ _ _ _ _ hk]
  by_cases hx : a ≤ x ∧ x < a + n
  · simp [hx, getLsbD_lowBytes, show 8 * (x - a) + k < 8 * n by omega]
  · simp [hx]

/-- A store of a word at another width, if none of the bytes is cut off. -/
lemma store_setWidth {u n : ℕ} (h : 8 * n ≤ u) (m : ByteMem) (a : ℕ) (v : BitVec w) :
    store m a n (v.setWidth u) = store m a n v := by
  funext x
  apply BitVec.eq_of_getLsbD_eq
  intro k hk
  rw [getLsbD_store _ _ _ _ _ _ hk, getLsbD_store _ _ _ _ _ _ hk]
  by_cases hx : a ≤ x ∧ x < a + n
  · simp [hx, show 8 * (x - a) + k < u by omega]
  · simp [hx]

/-- Storing a word whose low bytes are those of another memory copies that memory's bytes. -/
lemma store_apply_of_load_eq {n : ℕ} (h : 8 * n ≤ w) {m m' : ByteMem} {a x : ℕ} {v : BitVec w}
    (hv : lowBytes n v = load m a n) (hx : a ≤ x ∧ x < a + n) : store m' a n v x = m x := by
  have hm : store m a n v x = m x := by
    rw [← store_lowBytes, hv, store_load_same h]
  rw [← hm]
  simp [store, hx]

end ByteMem
