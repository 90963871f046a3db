/-
# The page bitmap

`mmu::Init` and the calls of `mmu::mmap` after it, in any order.  The pages that the calls map are
recorded as they do, and the bitmap is compared with them.
-/
import Rv32jit.Env.Search

namespace Rv32jit.Env

/-- The arguments of `mmu::mmap`. -/
structure MmapCall where
  vaddr : BitVec 32
  len : BitVec 32
  prot : BitVec 32
  flags : BitVec 32
  fd : BitVec 32
  offs : ℕ

/-- A page is in one of the ranges, of which the first page and the number of pages is given. -/
def Mapped (maps : List (ℕ × ℕ)) (p : ℕ) : Prop := ∃ r ∈ maps, r.1 ≤ p ∧ p < r.1 + r.2

/-- The bitmap has exactly the lowest pages, which are never mapped, and those that are mapped. -/
def RecordsMapped (used_pages : ℕ → Bool) (maps : List (ℕ × ℕ)) : Prop :=
  ∀ p < PAGES, used_pages p = true ↔ p < MIN_MMAP_ADDR / PAGE_SIZE ∨ Mapped maps p

/-- The pages whose numbers are addresses below `MIN_MMAP_ADDR` are mapped, and every other page
that is mapped is in a range of more pages than its number tells. -/
def MarkedIsMapped (maps : List (ℕ × ℕ)) : Prop :=
  (∀ p, MIN_MMAP_ADDR / PAGE_SIZE ≤ p → p < MIN_MMAP_ADDR → Mapped maps p) ∧
    ∀ p, MIN_MMAP_ADDR ≤ p → p < PAGES → Mapped maps p → ∃ r ∈ maps, r.1 ≤ p ∧ p < r.2

namespace Mmu

/-- The range that a call has mapped, in pages. -/
def newPages (len : BitVec 32) : Option ℕ → List (ℕ × ℕ)
  | none => []
  | some hptr => [(hptr / PAGE_SIZE, (roundupPage len).toNat / PAGE_SIZE)]

/-- Calls of `mmap` one after the other, and the ranges that they have mapped; nothing if one of
them aborts. -/
def run : Mmu → List MmapCall → Option (Mmu × List (ℕ × ℕ))
  | m, [] => some (m, [])
  | m, c :: calls => do
      let (r, m) ← m.mmap c.vaddr c.len c.prot c.flags c.fd c.offs
      let (m, maps) ← run m calls
      some (m, newPages c.len r ++ maps)

variable {m m' : Mmu} {vaddr len prot flags fd : BitVec 32} {offs : ℕ} {r : Option ℕ}
  {maps : List (ℕ × ℕ)} {calls : List MmapCall}

/-- What `MarkUsedPages` is given is the first page and the number of pages, and what it marks are
the pages between these two numbers. -/
lemma used_pages_markUsedPages (m : Mmu) (pvaddr plen : BitVec 32) (p : ℕ) :
    (m.markUsedPages pvaddr plen).used_pages p = true ↔
      m.used_pages p = true ∨ pvaddr.toNat ≤ p ∧ p < plen.toNat := by
  show (decide (pvaddr.toNat ≤ p ∧ p < plen.toNat) || m.used_pages p) = true ↔ _
  rw [Bool.or_eq_true, decide_eq_true_eq]
  exact or_comm

lemma used_pages_mmapFixed
    (hm : m.mmapFixed vaddr (roundupPage len) prot flags fd offs = (r, m')) (p : ℕ) :
    m'.used_pages p = true ↔
      m.used_pages p = true ∨ ∃ q ∈ newPages len r, q.1 ≤ p ∧ p < q.2 := by
  have hfixed := hm
  rw [mmapFixed] at hm
  rcases heq : m.host.mmap (some vaddr.toNat) (roundupPage len).toNat prot flags fd offs
    with ⟨_ | hptr, host⟩
  · rw [heq] at hm
    cases hm
    simp [newPages]
  · rw [heq] at hm
    cases hm
    rw [used_pages_markUsedPages, toNat_pageNumber, toNat_pageNumber, ← (mmapFixed_some hfixed).1]
    simp [newPages]

/-- A call marks, of the pages up to the number of pages that it maps, those from its first page
on. -/
lemma used_pages_mmap (hm : m.mmap vaddr len prot flags fd offs = some (r, m')) (p : ℕ) :
    m'.used_pages p = true ↔
      m.used_pages p = true ∨ ∃ q ∈ newPages len r, q.1 ≤ p ∧ p < q.2 := by
  by_cases hflags : flags &&& MAP_FIXED = 0
  · have hin : InAspace vaddr len := by
      rw [mmap] at hm
      split at hm
      · rename_i hin
        exact inAspace_iff.mp hin
      · cases hm
    have hdone := mmap_done m vaddr len prot flags fd offs hin hflags
    rw [hm] at hdone
    cases hdone with
    | failed hl hstop hpages hsame hhint =>
      rw [hsame]
      simp [newPages]
    | landed hland =>
      rw [hland.told, used_pages_markUsedPages, toNat_pageNumber, toNat_pageNumber,
        BitVec.toNat_ofNat]
      have hlen := ne_zero_iff.mp hland.nonempty
      have hin := hland.inside
      rw [Nat.mod_eq_of_lt (by simp only [ASPACE_SIZE] at hin; omega)]
      simp [newPages]
  · rw [mmap] at hm
    split at hm
    · exact used_pages_mmapFixed (Option.some.inj hm) p
    · cases hm

/-- The bitmap after a run. -/
lemma used_pages_run (hrun : m.run calls = some (m', maps)) (p : ℕ) :
    m'.used_pages p = true ↔ m.used_pages p = true ∨ ∃ q ∈ maps, q.1 ≤ p ∧ p < q.2 := by
  induction calls generalizing m maps with
  | nil =>
    cases hrun
    simp
  | cons c calls ih =>
    rw [run] at hrun
    obtain ⟨⟨r, m1⟩, hm, hrest⟩ := Option.bind_eq_some_iff.mp hrun
    obtain ⟨⟨m2, maps'⟩, hrun', hlast⟩ := Option.bind_eq_some_iff.mp hrest
    cases hlast
    rw [ih hrun', used_pages_mmap hm, or_assoc]
    simp only [List.mem_append, or_and_right, exists_or]

/-- The bitmap after `Init` and any calls of `mmap` has exactly the pages that it should have, if
and only if the pages that are marked by mistake happen to be mapped, and the pages that are
forgotten happen to be marked. -/
theorem recordsMapped_iff (files : BitVec 32 → Option HostFile) (answers : ℕ → Answer)
    (base : BitVec 20) (calls : List MmapCall) (hrun : (init files answers base).run calls =
      some (m', maps)) : RecordsMapped m'.used_pages maps ↔ MarkedIsMapped maps := by
  have hused : ∀ p, m'.used_pages p = true ↔
      p < MIN_MMAP_ADDR ∨ ∃ q ∈ maps, q.1 ≤ p ∧ p < q.2 := by
    intro p
    rw [used_pages_run hrun, used_pages_init, decide_eq_true_eq]
  -- what is marked on behalf of a range is in it
  have hmapped : ∀ p, (∃ q ∈ maps, q.1 ≤ p ∧ p < q.2) → Mapped maps p :=
    fun p ⟨q, hq, h1, h2⟩ => ⟨q, hq, h1, by omega⟩
  have hmin : MIN_MMAP_ADDR = 2 ^ 16 := rfl
  have hpages : PAGES = 2 ^ 20 := rfl
  have hdiv : MIN_MMAP_ADDR / PAGE_SIZE ≤ MIN_MMAP_ADDR := Nat.div_le_self _ _
  constructor
  · intro hrec
    refine ⟨fun p h1 h2 => ?_, fun p h1 h2 hp => ?_⟩
    · rcases (hrec p (by omega)).mp ((hused p).mpr (Or.inl h2)) with hlt | hp
      · exact absurd hlt (Nat.not_lt.mpr h1)
      · exact hp
    · rcases (hused p).mp ((hrec p h2).mpr (Or.inr hp)) with hlt | hq
      · exact absurd hlt (Nat.not_lt.mpr h1)
      · exact hq
  · rintro ⟨hlow, hhigh⟩ p hp
    rw [hused]
    constructor
    · rintro (hlt | hq)
      · rcases Nat.lt_or_ge p (MIN_MMAP_ADDR / PAGE_SIZE) with h1 | h1
        · exact Or.inl h1
        · exact Or.inr (hlow p h1 hlt)
      · exact Or.inr (hmapped p hq)
    · rintro (hlt | hq)
      · exact Or.inl (by omega)
      · rcases Nat.lt_or_ge p MIN_MMAP_ADDR with h1 | h1
        · exact Or.inl h1
        · exact Or.inr (hhigh p h1 hp hq)

/-- The pages from `0x10000` to `0x10000000` are mapped, and with them all that `Init` has marked:
the bitmap is right. -/
theorem recordsMapped_iff_low : ∃ m', Mmu.run initMmu
      [⟨0x10000, 0xFFF0000, 3, MAP_ANON ||| MAP_PRIVATE ||| MAP_FIXED, -1, 0⟩] =
        some (m', [(16, 0xFFF0)]) ∧ RecordsMapped m'.used_pages [(16, 0xFFF0)] := by
  have hsome : (Mmu.run initMmu
      [⟨0x10000, 0xFFF0000, 3, MAP_ANON ||| MAP_PRIVATE ||| MAP_FIXED, -1, 0⟩]).map (·.2) =
        some [(16, 0xFFF0)] := by decide +kernel
  obtain ⟨⟨m', maps⟩, hrun, hmaps⟩ := Option.map_eq_some_iff.mp hsome
  simp only at hmaps
  subst hmaps
  refine ⟨m', hrun, (recordsMapped_iff _ _ _ _ hrun).mpr ⟨fun p h1 h2 => ?_, fun p h1 h2 h3 => ?_⟩⟩
  · exact ⟨(16, 0xFFF0), List.mem_singleton_self _, h1, h2⟩
  · obtain ⟨q, hq, -, h4⟩ := h3
    rw [List.mem_singleton.mp hq] at h4
    exact absurd h4 (Nat.not_lt.mpr h1)

/-- A page is mapped at `0x20000000`: it is not in the bitmap, but page 16 is. -/
theorem not_recordsMapped_high : ∃ m', Mmu.run initMmu
      [⟨0x20000000, 0x1000, 3, MAP_ANON ||| MAP_PRIVATE ||| MAP_FIXED, -1, 0⟩] =
        some (m', [(0x20000, 1)]) ∧ ¬ RecordsMapped m'.used_pages [(0x20000, 1)] := by
  have hsome : (Mmu.run initMmu
      [⟨0x20000000, 0x1000, 3, MAP_ANON ||| MAP_PRIVATE ||| MAP_FIXED, -1, 0⟩]).map
        (fun r => (r.2, r.1.used_pages 16, r.1.used_pages 0x20000)) =
      some ([(0x20000, 1)], true, false) := by decide +kernel
  obtain ⟨⟨m', maps⟩, hrun, hmaps⟩ := Option.map_eq_some_iff.mp hsome
  simp only [Prod.mk.injEq] at hmaps
  obtain ⟨rfl, -, hhigh⟩ := hmaps
  refine ⟨m', hrun, fun hrec => ?_⟩
  have hmapped : Mapped [(0x20000, 1)] 0x20000 :=
    ⟨_, List.mem_singleton_self _, le_rfl, Nat.lt_succ_self _⟩
  have hused := (hrec 0x20000 (by decide)).mpr (Or.inr hmapped)
  rw [hhigh] at hused
  cases hused

end Mmu

end Rv32jit.Env
