/-
# Arenas

`arena.h`: a pool that is handed out from its start on.  What has been handed out lies below
`used`, in the order of the requests.
-/
import Mathlib.Tactic

namespace Rv32jit.Runtime

/-- `roundup` on `size_t`. -/
def roundup (x y : ℕ) : ℕ := ((x + (y - 1)) % 2 ^ 64) / y * y

/-- `MemArena`: a pool and the part of it that is in use. -/
structure MemArena where
  pool : ℕ
  pool_sz : ℕ
  used : ℕ
deriving Repr

namespace MemArena

/-- `Init`, where the host has put the pool. -/
def init (pool size : ℕ) : MemArena := ⟨pool, roundup size 4096, 0⟩

/-- `Reset`. -/
def reset (a : MemArena) : MemArena := { a with used := 0 }

/-- `Allocate`; nothing for the null pointer. -/
def allocate (a : MemArena) (alloc_sz align : ℕ) : Option (ℕ × MemArena) :=
  let alloc_start := roundup a.used align
  if (alloc_start + alloc_sz) % 2 ^ 64 > a.pool_sz then none
  else some (a.pool + alloc_start, { a with used := (alloc_start + alloc_sz) % 2 ^ 64 })

/-- The bytes have been handed out. -/
def Allocated (a : MemArena) (ptr size : ℕ) : Prop := a.pool ≤ ptr ∧ ptr + size ≤ a.pool + a.used

/-- The request fits behind what has been handed out. -/
def HasRoom (a : MemArena) (alloc_sz align : ℕ) : Prop :=
  roundup a.used align + alloc_sz ≤ a.pool_sz

variable {a a' : MemArena} {ptr size align : ℕ}

lemma le_roundup {x : ℕ} (hx : x + align ≤ 2 ^ 64) (hy : 0 < align) : x ≤ roundup x align := by
  rw [roundup, Nat.mod_eq_of_lt (by omega)]
  have hdiv := Nat.div_add_mod (x + (align - 1)) align
  have hmod := Nat.mod_lt (x + (align - 1)) hy
  rw [Nat.mul_comm] at hdiv
  omega

lemma roundup_lt {x : ℕ} (hy : 0 < align) : roundup x align < x + align := by
  rw [roundup]
  have hdiv := Nat.div_mul_le_self ((x + (align - 1)) % 2 ^ 64) align
  have hmod := Nat.mod_le (x + (align - 1)) (2 ^ 64)
  omega

lemma Allocated.mono (h : a.Allocated ptr size) (hpool : a'.pool = a.pool)
    (hused : a.used ≤ a'.used) : a'.Allocated ptr size := by
  obtain ⟨h1, h2⟩ := h
  exact ⟨by omega, by omega⟩

/-- A request is served if it fits, and only then. -/
lemma allocate_isSome (hused : a.used ≤ a.pool_sz) (hsz : a.pool_sz < 2 ^ 62)
    (hsize : size < 2 ^ 62) (halign : align < 2 ^ 62) (hpos : 0 < align) :
    (∃ r, a.allocate size align = some r) ↔ a.HasRoom size align := by
  have hlt := roundup_lt (x := a.used) hpos
  rw [allocate, HasRoom, Nat.mod_eq_of_lt (by omega)]
  split
  · rename_i h
    simp only [reduceCtorEq, exists_false, false_iff]
    omega
  · rename_i h
    exact ⟨fun _ => by omega, fun _ => ⟨_, rfl⟩⟩

/-- What is handed out is new, and what has been handed out before stays. -/
lemma allocate_eq_some (hused : a.used ≤ a.pool_sz) (hsz : a.pool_sz < 2 ^ 62)
    (hsize : size < 2 ^ 62) (halign : align < 2 ^ 62) (hpos : 0 < align)
    (h : a.allocate size align = some (ptr, a')) :
    a'.pool = a.pool ∧ a'.pool_sz = a.pool_sz ∧ a'.used ≤ a'.pool_sz ∧ a.used ≤ a'.used ∧
      a.pool + a.used ≤ ptr ∧ a'.Allocated ptr size := by
  have hle : a.used ≤ roundup a.used align := le_roundup (by omega) hpos
  have hlt := roundup_lt (x := a.used) hpos
  rw [allocate, Nat.mod_eq_of_lt (by omega)] at h
  split at h
  · cases h
  · cases h
    simp only [Allocated]
    refine ⟨trivial, trivial, ?_, ?_, ?_, ?_, ?_⟩ <;> omega

end MemArena

end Rv32jit.Runtime
