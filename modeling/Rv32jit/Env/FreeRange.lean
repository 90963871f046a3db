/-
# The search for free pages

`LookupFreeRange` against the page bitmap: where the first `plen` pages that are all free begin, and
where the countdown of the source finds them.
-/
import Rv32jit.Env.Mmu
import Mathlib.Order.Bounds.Basic

namespace Rv32jit.Env

/-- The number of pages that the bitmap has. -/
def PAGES : ℕ := ASPACE_SIZE / PAGE_SIZE

section

variable (used_pages : ℕ → Bool) (s n : ℕ)

/-- The `n` pages from `s` on exist, and all are free. -/
def FreeRange : Prop := s + n ≤ PAGES ∧ ∀ p, s ≤ p → p < s + n → used_pages p = false

/-- The `n` pages from `s` on exist, and all but the last one are free. -/
def Candidate : Prop := s + n ≤ PAGES ∧ ∀ p, s ≤ p → p + 1 < s + n → used_pages p = false

/-- A candidate whose last page is used. -/
def EndsUsed : Prop := Candidate used_pages s n ∧ used_pages (s + n - 1) = true

/-- `r` is the least start, from `pvaddr` on, of `plen` free pages, and 0 if and only if there is
none. -/
def IsFirstFree (pvaddr plen r : ℕ) : Prop :=
  (∀ s, IsLeast {s | pvaddr ≤ s ∧ FreeRange used_pages s plen} s → r = s) ∧
    (r = 0 ↔ ∀ s, pvaddr ≤ s → ¬ FreeRange used_pages s plen)

/-- A candidate that ends at a used page comes only after free pages, and the free pages do not
start at page 0; or page 0 is the start of the first candidate, and there are no free pages. -/
def UsedEndsLate (pvaddr plen : ℕ) : Prop :=
  (∀ s, pvaddr ≤ s → EndsUsed used_pages s plen →
      ∃ t, pvaddr ≤ t ∧ t < s ∧ FreeRange used_pages t plen) ∧
    ¬ (pvaddr = 0 ∧ FreeRange used_pages 0 plen) ∨
  pvaddr = 0 ∧ EndsUsed used_pages 0 plen ∧ ∀ s, ¬ FreeRange used_pages s plen

end

variable {used_pages : ℕ → Bool} {s n pvaddr r : ℕ} {plen : BitVec 32}

/-- The last page decides. -/
lemma freeRange_iff (hn : 1 ≤ n) :
    FreeRange used_pages s n ↔ Candidate used_pages s n ∧ used_pages (s + n - 1) = false := by
  constructor
  · rintro ⟨hle, hfree⟩
    exact ⟨⟨hle, fun p h1 h2 => hfree p h1 (by omega)⟩, hfree _ (by omega) (by omega)⟩
  · rintro ⟨⟨hle, hfree⟩, hlast⟩
    refine ⟨hle, fun p h1 h2 => ?_⟩
    rcases Nat.lt_or_ge (p + 1) (s + n) with hlt | hge
    · exact hfree p h1 hlt
    · rw [show p = s + n - 1 by omega]
      exact hlast

lemma Candidate.free_or_endsUsed (hn : 1 ≤ n) (hc : Candidate used_pages s n) :
    FreeRange used_pages s n ∨ EndsUsed used_pages s n := by
  cases hlast : used_pages (s + n - 1) with
  | false => exact Or.inl ((freeRange_iff hn).mpr ⟨hc, hlast⟩)
  | true => exact Or.inr ⟨hc, hlast⟩

lemma EndsUsed.not_freeRange (hn : 1 ≤ n) (he : EndsUsed used_pages s n) :
    ¬ FreeRange used_pages s n := by
  intro hf
  have hlast := ((freeRange_iff hn).mp hf).2
  rw [he.2] at hlast
  cases hlast

/-- `r` is the least candidate from `s` on, and 0 if there is none. -/
def FirstCandidate (used_pages : ℕ → Bool) (s plen r : ℕ) : Prop :=
  IsLeast {t | s ≤ t ∧ Candidate used_pages t plen} r ∨
    r = 0 ∧ ∀ t, s ≤ t → ¬ Candidate used_pages t plen

/-- A first candidate that is free is the right answer, unless it starts at page 0. -/
lemma isFirstFree_of_freeRange (hn : 1 ≤ n)
    (hr : IsLeast {t | pvaddr ≤ t ∧ Candidate used_pages t n} r)
    (hf : FreeRange used_pages r n) :
    (IsFirstFree used_pages pvaddr n r ↔ r ≠ 0) ∧ (UsedEndsLate used_pages pvaddr n ↔ r ≠ 0) := by
  obtain ⟨⟨hle, hc⟩, hleast⟩ := hr
  have hfirst : ∀ t, pvaddr ≤ t → FreeRange used_pages t n → r ≤ t :=
    fun t ht hf => hleast ⟨ht, ((freeRange_iff hn).mp hf).1⟩
  refine ⟨⟨?_, ?_⟩, ⟨?_, ?_⟩⟩
  · rintro ⟨-, hzero⟩ h0
    exact hzero.mp h0 r hle hf
  · intro h0
    refine ⟨fun s hs => ?_, fun h => absurd h h0, fun hnone => absurd hf (hnone r hle)⟩
    exact le_antisymm (hfirst s hs.1.1 hs.1.2) (hs.2 ⟨hle, hf⟩)
  · rintro (⟨-, hz⟩ | ⟨-, -, hnone⟩) rfl
    · exact hz ⟨Nat.le_zero.mp hle, hf⟩
    · exact hnone 0 hf
  · intro h0
    refine Or.inl ⟨fun s hs he => ⟨r, hle, ?_, hf⟩, fun ⟨hp, hf0⟩ => ?_⟩
    · refine lt_of_le_of_ne (hleast ⟨hs, he.1⟩) ?_
      rintro rfl
      exact he.not_freeRange hn hf
    · exact h0 (Nat.le_zero.mp (hfirst 0 hp.le hf0))

/-- A first candidate that ends at a used page is a wrong answer; only 0 can be right, by accident,
if there are no free pages. -/
lemma isFirstFree_of_endsUsed (hn : 1 ≤ n)
    (hr : IsLeast {t | pvaddr ≤ t ∧ Candidate used_pages t n} r)
    (he : EndsUsed used_pages r n) :
    IsFirstFree used_pages pvaddr n r ↔ UsedEndsLate used_pages pvaddr n := by
  obtain ⟨⟨hle, hc⟩, hleast⟩ := hr
  constructor
  · rintro ⟨hmin, hzero⟩
    have hnone : ∀ t, pvaddr ≤ t → ¬ FreeRange used_pages t n := by
      intro t ht hf
      obtain ⟨s, hs⟩ : ∃ s, IsLeast {s | pvaddr ≤ s ∧ FreeRange used_pages s n} s := by
        classical
        exact ⟨_, Nat.find_spec ⟨t, ht, hf⟩, fun u hu => Nat.find_min' _ hu⟩
      rw [← hmin s hs] at hs
      exact he.not_freeRange hn hs.1.2
    have h0 := hzero.mpr hnone
    subst h0
    have hp := Nat.le_zero.mp hle
    exact Or.inr ⟨hp, he, fun t => hnone t (hp ▸ Nat.zero_le t)⟩
  · rintro (⟨hlate, -⟩ | ⟨hp, he0, hnone⟩)
    · obtain ⟨t, ht, hlt, hf⟩ := hlate r hle he
      exact absurd (hleast ⟨ht, ((freeRange_iff hn).mp hf).1⟩) (Nat.not_le.mpr hlt)
    · have h0 : r = 0 := Nat.le_zero.mp (hleast ⟨hp.le, he0.1⟩)
      exact ⟨fun s hs => absurd hs.1.2 (hnone s), fun _ t _ => hnone t, fun _ => h0⟩

lemma FirstCandidate.isFirstFree_iff (hn : 1 ≤ n) (hr : FirstCandidate used_pages pvaddr n r) :
    IsFirstFree used_pages pvaddr n r ↔ UsedEndsLate used_pages pvaddr n := by
  rcases hr with hr | ⟨rfl, hnone⟩
  · rcases hr.1.2.free_or_endsUsed hn with hf | he
    · obtain ⟨h1, h2⟩ := isFirstFree_of_freeRange hn hr hf
      exact h1.trans h2.symm
    · exact isFirstFree_of_endsUsed hn hr he
  · have hnone' : ∀ t, pvaddr ≤ t → ¬ FreeRange used_pages t n :=
      fun t ht hf => hnone t ht ((freeRange_iff hn).mp hf).1
    refine iff_of_true ⟨fun s hs => absurd hs.1.2 (hnone' s hs.1.1), fun _ => hnone', fun _ => rfl⟩
      (Or.inl ⟨fun s hs he => absurd he.1 (hnone s hs), fun ⟨h0, hf⟩ => hnone' 0 h0.le hf⟩)

namespace Mmu

/-- The countdown tells how many pages before `p` belong to the run of free pages that is being
counted: no candidate starts before that run. -/
lemma lookupLoop_spec {k p j : ℕ} {count : BitVec 32} (hk : k = PAGES - p)
    (hcount : count.toNat + j = plen.toNat) (hpos : 1 ≤ count.toNat) (hj : j ≤ p)
    (hrun : ∀ q, p - j ≤ q → q < p → used_pages q = false) :
    FirstCandidate used_pages (p - j) plen.toNat
      (lookupLoop used_pages plen k p count).toNat := by
  have hpages : PAGES = 2 ^ 20 := rfl
  have hplen := plen.isLt
  induction k generalizing p j count with
  | zero =>
    refine Or.inr ⟨rfl, fun t ht hc => ?_⟩
    have hle := hc.1
    omega
  | succ k ih =>
    have hsub : (count - 1).toNat = count.toNat - 1 := by
      rw [BitVec.toNat_sub_of_le (by rw [BitVec.le_def]; exact hpos)]
      rfl
    rw [lookupLoop]
    split
    · -- the run has `plen - 1` pages, and `p` is not looked at
      rename_i hzero
      have hone : count.toNat = 1 := by
        have h0 := congrArg BitVec.toNat hzero
        rw [hsub, toNat_zero32] at h0
        omega
      have hr : (BitVec.ofNat 32 p + 1 - plen).toNat = p - j := by
        have hp : (BitVec.ofNat 32 p + 1).toNat = p + 1 := by
          rw [BitVec.toNat_add, BitVec.toNat_ofNat, show (1 : BitVec 32).toNat = 1 from rfl]
          omega
        rw [BitVec.toNat_sub_of_le (by rw [BitVec.le_def, hp]; omega), hp]
        omega
      rw [hr]
      refine Or.inl ⟨⟨le_rfl, by omega, fun q h1 h2 => hrun q h1 (by omega)⟩, fun t ht => ht.1⟩
    · rename_i hne
      have hge : 2 ≤ count.toNat := by
        have h0 := ne_zero_iff.mp hne
        rw [hsub] at h0
        omega
      split
      · -- the run ends: whatever starts in it has the used page `p` before its last page
        rename_i hused
        have hnext := @ih (p + 1) 0 plen (by omega) (by omega) (by omega) (by omega)
          (fun _ _ h2 => absurd h2 (by omega))
        have hsame : ∀ t, p - j ≤ t → Candidate used_pages t plen.toNat → p + 1 ≤ t := by
          intro t ht hc
          by_contra hlt
          have hfree := hc.2 p (by omega) (by omega)
          rw [hused] at hfree
          cases hfree
        rcases hnext with ⟨⟨hle, hc⟩, hleast⟩ | ⟨hzero, hnone⟩
        · refine Or.inl ⟨⟨by omega, hc⟩, fun t ht => hleast ⟨?_, ht.2⟩⟩
          exact hsame t ht.1 ht.2
        · exact Or.inr ⟨hzero, fun t ht hc => hnone t (hsame t ht hc) hc⟩
      · rename_i hfree
        have hnext := @ih (p + 1) (j + 1) (count - 1) (by omega) (by omega) (by omega) (by omega)
          (by
            intro q h1 h2
            rcases Nat.lt_or_ge q p with hlt | hge
            · exact hrun q (by omega) hlt
            · rw [show q = p by omega]
              exact Bool.eq_false_iff.mpr hfree)
        rwa [show p + 1 - (j + 1) = p - j by omega] at hnext

/-- What the search finds: the last page of the range is not looked at. -/
lemma lookupFreeRange_spec (m : Mmu) (pvaddr : BitVec 32) (hplen : 1 ≤ plen.toNat) :
    FirstCandidate m.used_pages pvaddr.toNat plen.toNat (m.lookupFreeRange pvaddr plen).toNat :=
  @lookupLoop_spec m.used_pages plen (PAGES - pvaddr.toNat) pvaddr.toNat 0 plen rfl rfl hplen
    (Nat.zero_le _) fun _ h1 h2 => absurd h2 (Nat.not_lt.mpr h1)

/-- The search is right about the free pages if and only if candidates that end at a used page do
not come before them. -/
theorem lookupFreeRange_iff (m : Mmu) (pvaddr plen : BitVec 32) (hplen : 1 ≤ plen.toNat) :
    IsFirstFree m.used_pages pvaddr.toNat plen.toNat (m.lookupFreeRange pvaddr plen).toNat ↔
      UsedEndsLate m.used_pages pvaddr.toNat plen.toNat :=
  (lookupFreeRange_spec m pvaddr hplen).isFirstFree_iff hplen

/-- `Init` gives a number of bytes where a number of pages is expected. -/
lemma used_pages_init (files : BitVec 32 → Option HostFile) (answers : ℕ → Answer)
    (base : BitVec 20) (p : ℕ) :
    (init files answers base).used_pages p = decide (p < MIN_MMAP_ADDR) := by
  show (decide (0 ≤ p ∧ p < MIN_MMAP_ADDR) || false) = decide (p < MIN_MMAP_ADDR)
  rw [Bool.or_false, decide_eq_decide]
  exact and_iff_right (Nat.zero_le p)

/-- The state after `Init`. -/
def initMmu : Mmu := .init (fun _ => none) (fun _ => .placed 0x10000) 0

/-- Above the pages that `Init` has marked. -/
theorem lookupFreeRange_iff_beyond :
    IsFirstFree initMmu.used_pages 0x10000 2 (initMmu.lookupFreeRange 0x10000 2).toNat := by
  refine (lookupFreeRange_iff initMmu 0x10000 2 (by decide)).mpr (Or.inl ⟨fun s hs he => ?_, ?_⟩)
  · have hused := he.2
    rw [initMmu, used_pages_init, decide_eq_true_eq] at hused
    exact absurd (hs.trans_lt ((Nat.lt_succ_self s).trans hused)) (lt_irrefl _)
  · rintro ⟨h0, -⟩
    exact absurd h0 (by decide)

/-- One page is asked for: the search returns the page it starts at, which is used. -/
theorem not_isFirstFree_one :
    ¬ IsFirstFree initMmu.used_pages 16 1 (initMmu.lookupFreeRange 16 1).toNat := by
  have hr : (initMmu.lookupFreeRange 16 1).toNat = 16 := by decide +kernel
  rw [hr]
  rintro ⟨hmin, -⟩
  have hleast : IsLeast {s | 16 ≤ s ∧ FreeRange initMmu.used_pages s 1} 0x10000 := by
    refine ⟨⟨by decide, by decide, fun p h1 _ => ?_⟩, fun s hs => ?_⟩
    · rw [initMmu, used_pages_init, decide_eq_false_iff_not]
      exact Nat.not_lt.mpr h1
    · have hfree := hs.2.2 s le_rfl (Nat.lt_succ_self s)
      rw [initMmu, used_pages_init, decide_eq_false_iff_not] at hfree
      exact Nat.not_lt.mp hfree
  exact absurd (hmin _ hleast) (by decide)

end Mmu

end Rv32jit.Env
