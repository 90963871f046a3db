/-
# Indirect branches

The sequence that `QEmit::Emit_gbrind` puts in place of a look-up in `l1_brind_cache`, and the slow
path behind it.  The sequence scales the target itself and takes an entry for valid if its address
is the target, so the empty entries look like entries for address 0.
-/
import Rv32jit.Runtime.InvalidatePage

namespace Rv32jit.Runtime

open TCache

/-- `lea tmp0, [ptgt * 4]` and `and tmp0, mask << 4`: the offset of the entry in the cache. -/
def brindOffset (target : BitVec 32) : BitVec 32 := (target <<< 2) &&& 0xFFF0#32

/-- The entry at an offset; an entry has 16 bytes. -/
def brindEntry (cache : BitVec 12 → BrindCacheEntry) (offset : BitVec 32) : BrindCacheEntry :=
  cache ((offset >>> 4).setWidth 12)

/-- Where the emitted sequence goes: to the code of the entry, or on to the slow path. -/
inductive BrindJump
  | code (ptr : Option ℕ)
  | slowpath
deriving DecidableEq

/-- The sequence of `Emit_gbrind`. -/
def emitGBrind (c : TCache) (target : BitVec 32) : BrindJump :=
  let entry := brindEntry c.l1_brind_cache (brindOffset target)
  if entry.gip = target then .code entry.code else .slowpath

/-- `qcgstub_brind`: the code to go on at, or nothing for the escape stub. -/
def qcgstubBrind (c : TCache) (gip : BitVec 32) : Option ℕ × TCache :=
  match c.lookup gip with
  | (some found, c) => (some found.tcode.ptr, c.cacheBrind found)
  | (none, c) => (none, c)

variable {c : TCache} {s : Slots} {target : BitVec 32}

lemma brindOffset_eq_shift (target : BitVec 32) :
    brindOffset target = (l1hash target).setWidth 32 <<< 4 := by
  have hmask : ∀ i, (hi : i < 32) → (0xFFF0#32)[i] = decide (4 ≤ i ∧ i < 16) := by decide
  ext i hi
  simp only [brindOffset, l1hash, BitVec.getElem_and, hmask i hi]
  simp
  grind

/-- The machine arithmetic computes the place of the entry. -/
lemma brindOffset_eq (target : BitVec 32) :
    (brindOffset target).toNat = 16 * (l1hash target).toNat := by
  rw [brindOffset_eq_shift, BitVec.toNat_shiftLeft, BitVec.toNat_setWidth]
  have := (l1hash target).isLt
  omega

lemma brindEntry_eq (cache : BitVec 12 → BrindCacheEntry) (target : BitVec 32) :
    brindEntry cache (brindOffset target) = cache (l1hash target) := by
  rw [brindEntry]
  congr 1
  rw [brindOffset_eq_shift]
  ext i hi
  simp
  grind

/-- The sequence addresses the entry of the hash, and jumps only to the code of the block that a
look-up of the target returns; what else there is goes on to the slow path. -/
def BrindAgrees (c : TCache) (target : BitVec 32) : Prop :=
  (brindOffset target).toNat = 16 * (l1hash target).toNat ∧
    brindEntry c.l1_brind_cache (brindOffset target) = c.l1_brind_cache (l1hash target) ∧
    ∀ ptr, emitGBrind c target = .code ptr →
      ∃ tb, (c.lookup target).1 = some tb ∧ c.Live tb ∧ ptr = some tb.tcode.ptr

/-- The inlined look-up agrees with the slow path if and only if the target is not address 0 or
the entry of address 0 is not empty. -/
theorem brindAgrees_iff (h : Reachable c s) (target : BitVec 32) :
    BrindAgrees c target ↔ target ≠ 0 ∨ (c.l1_brind_cache 0).code ≠ none := by
  constructor
  · rintro ⟨-, -, hjump⟩
    by_contra hnot
    obtain ⟨rfl, hcode⟩ : target = 0 ∧ (c.l1_brind_cache 0).code = none := by
      simpa [not_or] using hnot
    have hempty : c.l1_brind_cache (l1hash 0) = ⟨0, none⟩ := by
      rcases h.wf.brind 0 with he | ⟨tb, -, -, he⟩
      · exact he
      · rw [he] at hcode
        cases hcode
    obtain ⟨tb, -, -, hptr⟩ := hjump none (by
      rw [emitGBrind, brindEntry_eq, hempty]
      rfl)
    cases hptr
  · intro hne
    refine ⟨brindOffset_eq target, brindEntry_eq _ target, fun ptr hjump => ?_⟩
    rw [emitGBrind, brindEntry_eq] at hjump
    split at hjump
    · rename_i hgip
      rcases h.wf.brind (l1hash target) with he | ⟨tb, hlive, -, he⟩
      · -- an empty entry is one for address 0
        rw [he] at hgip hjump
        obtain rfl : 0 = target := hgip
        rcases hne with hne | hne
        · exact absurd rfl hne
        · exact absurd (congrArg BrindCacheEntry.code he) hne
      · rw [he] at hgip hjump
        obtain rfl : tb.ip = target := hgip
        cases hjump
        exact ⟨tb, by rw [h.wf.lookup_fst]; exact hlive, hlive, rfl⟩
    · cases hjump

/-- With an empty cache an indirect branch to address 0 jumps to the null pointer. -/
theorem not_brindAgrees_init : Reachable init (fun _ => none) ∧ ¬ BrindAgrees init 0 := by
  refine ⟨.init, ?_⟩
  rintro ⟨-, -, hjump⟩
  obtain ⟨tb, -, -, hptr⟩ := hjump none (by decide)
  cases hptr

/-- A block at address 0x1000. -/
def brindBlock : TBlock := ⟨0, ⟨0x10, 0x20⟩, 0x1000⟩

/-- The cache after the first indirect branch to the block. -/
def brindCache : TCache := (((init.lookup 0x1000).2.insert brindBlock).cacheBrind brindBlock)

/-- The entry is taken for the address of the block, and not for another address of its hash. -/
theorem brindAgrees_iff_brindCache :
    emitGBrind brindCache 0x1000 = .code (some 0x10) ∧ BrindAgrees brindCache 0x1000 ∧
      l1hash 0x5000 = l1hash 0x1000 ∧ emitGBrind brindCache 0x5000 = .slowpath ∧
      BrindAgrees brindCache 0x5000 := by
  have hmiss : (init.lookup brindBlock.ip).1 = none := by decide
  have hlive : ((init.lookup brindBlock.ip).2.insert brindBlock).Live brindBlock := by
    rw [TCache.Live]
    decide
  have hreach : Reachable brindCache fun _ => none :=
    (Reachable.init.insert hmiss).cacheBrind hlive
  exact ⟨by decide, (brindAgrees_iff hreach 0x1000).mpr (Or.inl (by decide)), by decide, by decide,
    (brindAgrees_iff hreach 0x5000).mpr (Or.inl (by decide))⟩

end Rv32jit.Runtime
