/-
# The host's memory

The mappings of the simulator's process as far as the guest's memory is concerned.  An address of
the host is given by its distance from `mmu::base`, modulo the range of an address.  The host is
asked for mappings one request after the other; what it answers is left open.
-/
import Rv32jit.Env.ElfImage

namespace Rv32jit.Env

/-- `mmu::PAGE_SIZE`. -/
def PAGE_SIZE : ℕ := 4096

/-- `PROT_READ`. -/
def PROT_READ : BitVec 32 := 1

/-- `PROT_WRITE`. -/
def PROT_WRITE : BitVec 32 := 2

/-- `PROT_EXEC`. -/
def PROT_EXEC : BitVec 32 := 4

/-- `MAP_PRIVATE`. -/
def MAP_PRIVATE : BitVec 32 := 0x02

/-- `MAP_FIXED`. -/
def MAP_FIXED : BitVec 32 := 0x10

/-- `MAP_ANON`. -/
def MAP_ANON : BitVec 32 := 0x20

/-- `MAP_NORESERVE`. -/
def MAP_NORESERVE : BitVec 32 := 0x4000

/-- `EBADF`. -/
def EBADF : BitVec 32 := 9

/-- `ENOMEM`. -/
def ENOMEM : BitVec 32 := 12

/-- `EINVAL`. -/
def EINVAL : BitVec 32 := 22

/-- A mapped page: its protection, and the request that it was mapped by. -/
structure Page where
  prot : BitVec 32
  born : ℕ
deriving DecidableEq

/-- The answer to a proper request: an error, or a place for it, which counts only if the caller
has not fixed one. -/
inductive Answer
  | refused (errno : BitVec 32)
  | placed (addr : ℕ)

/-- The host process: its mapped pages, its memory, its files and its answers to requests. -/
structure Host where
  /-- The mapped pages, by number. -/
  pages : ℕ → Option Page
  mem : ByteMem
  files : BitVec 32 → Option HostFile
  answers : ℕ → Answer
  /-- The number of requests so far. -/
  calls : ℕ
  errno : BitVec 32
  past : ∀ p pg, pages p = some pg → pg.born < calls

namespace Host

/-- Maps pages of the given contents, over what there is. -/
def place (h : Host) (addr len : ℕ) (prot : BitVec 32) (content : ByteMem) : Host :=
  { h with
    pages := fun p =>
      if addr / PAGE_SIZE ≤ p ∧ p < (addr + len) / PAGE_SIZE then some ⟨prot, h.calls⟩
      else h.pages p
    mem := fun x => if addr ≤ x ∧ x < addr + len then content (x - addr) else h.mem x
    calls := h.calls + 1
    past := by
      intro p pg hpg
      split at hpg
      · cases hpg
        exact Nat.lt_succ_self _
      · exact Nat.lt_succ_of_lt (h.past p pg hpg) }

/-- The contents of a new mapping; nothing for a bad descriptor. -/
def content (h : Host) (flags fd : BitVec 32) (offs : ℕ) : Option ByteMem :=
  if flags &&& MAP_ANON ≠ 0 then some fun _ => 0
  else (h.files fd).map fun f i => if offs + i < f.size then f.byte (offs + i) else 0

/-- A request that has failed. -/
def fail (h : Host) (errno : BitVec 32) : Host :=
  { h with
    calls := h.calls + 1
    errno := errno
    past := fun p pg hpg => Nat.lt_succ_of_lt (h.past p pg hpg) }

/-- Nothing is mapped in the range. -/
def free (h : Host) (addr len : ℕ) : Bool :=
  (List.range' (addr / PAGE_SIZE) ((addr + len) / PAGE_SIZE - addr / PAGE_SIZE)).all
    fun p => (h.pages p).isNone

/-- `::mmap` of whole pages, at a fixed address or where the host puts them; nothing for
`MAP_FAILED`.  The host itself chooses free pages only, and none across `mmu::base`, where `Init`
has left a mapping. -/
def mmap (h : Host) (fixed : Option ℕ) (len : ℕ) (prot flags fd : BitVec 32) (offs : ℕ) :
    Option ℕ × Host :=
  if len = 0 ∨ offs % PAGE_SIZE ≠ 0 ∨ (fixed.getD 0) % PAGE_SIZE ≠ 0 then (none, h.fail EINVAL)
  else
    match h.content flags fd offs with
    | none => (none, h.fail EBADF)
    | some content =>
        match h.answers h.calls with
        | .refused errno => (none, h.fail errno)
        | .placed a =>
            match fixed with
            | some addr => (some addr, h.place addr len prot content)
            | none =>
                if a % PAGE_SIZE = 0 ∧ a + len ≤ 2 ^ 64 ∧ h.free a len then
                  (some a, h.place a len prot content)
                else (none, h.fail ENOMEM)

/-- The pages of the range are no longer mapped. -/
def unplace (h : Host) (addr len : ℕ) : Host :=
  { h with
    pages := fun p =>
      if addr / PAGE_SIZE ≤ p ∧ p < (addr + len + (PAGE_SIZE - 1)) / PAGE_SIZE then none
      else h.pages p
    calls := h.calls + 1
    past := by
      intro p pg hpg
      split at hpg
      · cases hpg
      · exact Nat.lt_succ_of_lt (h.past p pg hpg) }

/-- `::munmap`, and whether it has been done. -/
def munmap (h : Host) (addr len : ℕ) : Bool × Host :=
  if addr % PAGE_SIZE ≠ 0 ∨ len = 0 then (false, h.fail EINVAL)
  else
    match h.answers h.calls with
    | .refused errno => (false, h.fail errno)
    | .placed _ => (true, h.unplace addr len)

/-- The page can be written. -/
def writable (h : Host) (p : ℕ) : Bool :=
  match h.pages p with
  | some pg => pg.prot &&& PROT_WRITE ≠ 0
  | none => false

/-- The bytes of a range set to zero. -/
def clear (h : Host) (addr n : ℕ) : Host :=
  { h with mem := fun x => if addr ≤ x ∧ x < addr + n then 0 else h.mem x }

/-- `memset` to zero; nothing for a memory fault. -/
def memset (h : Host) (addr n : ℕ) : Option Host :=
  if n = 0 then some h
  else if (List.range' (addr / PAGE_SIZE)
      ((addr + n - 1) / PAGE_SIZE + 1 - addr / PAGE_SIZE)).all h.writable then
    some (h.clear addr n)
  else none

/-! ### What requests change -/

variable {h h' h'' : Host} {P Q : ℕ → Prop}

/-- From `h` to `h'` the host has been asked for mappings, and they have changed no pages but
those of `P`. -/
structure Asked (P : ℕ → Prop) (h h' : Host) : Prop where
  files : h'.files = h.files
  answers : h'.answers = h.answers
  calls : h.calls ≤ h'.calls
  pages : ∀ p, h'.pages p = h.pages p ∨
    P p ∧ ∃ pg, h'.pages p = some pg ∧ h.calls ≤ pg.born ∧ pg.born < h'.calls

namespace Asked

lemma refl (P : ℕ → Prop) (h : Host) : Asked P h h := ⟨rfl, rfl, le_rfl, fun _ => Or.inl rfl⟩

lemma mono (ha : Asked P h h') (hPQ : ∀ p, P p → Q p) : Asked Q h h' :=
  ⟨ha.files, ha.answers, ha.calls, fun p => (ha.pages p).imp_right fun hp => ⟨hPQ p hp.1, hp.2⟩⟩

lemma trans (ha : Asked P h h') (hb : Asked P h' h'') : Asked P h h'' := by
  have hc := ha.calls
  have hc' := hb.calls
  refine ⟨hb.files.trans ha.files, hb.answers.trans ha.answers, hc.trans hc', fun p => ?_⟩
  rcases hb.pages p with heq | ⟨hp, pg, hpg, h1, h2⟩
  · rcases ha.pages p with heq' | ⟨hp, pg, hpg, h1, h2⟩
    · exact Or.inl (heq.trans heq')
    · exact Or.inr ⟨hp, pg, heq.trans hpg, h1, by omega⟩
  · exact Or.inr ⟨hp, pg, hpg, by omega, h2⟩

/-- A page that was mapped earlier still is, unless it has been mapped anew. -/
lemma born (ha : Asked P h h') {p : ℕ} {pg : Page} (hpg : h'.pages p = some pg)
    (hlt : pg.born < h.calls) : h.pages p = some pg := by
  rcases ha.pages p with heq | ⟨-, pg', hpg', hle, -⟩
  · rw [← heq, hpg]
  · rw [hpg, Option.some.injEq] at hpg'
    subst hpg'
    omega

end Asked

variable {addr len : ℕ} {prot flags fd : BitVec 32} {offs : ℕ}

/-- The pages of a range. -/
def InPages (addr len p : ℕ) : Prop := addr / PAGE_SIZE ≤ p ∧ p < (addr + len) / PAGE_SIZE

lemma asked_place (h : Host) (addr len : ℕ) (prot : BitVec 32) (content : ByteMem) :
    Asked (InPages addr len) h (h.place addr len prot content) := by
  refine ⟨rfl, rfl, Nat.le_succ _, fun p => ?_⟩
  by_cases hp : addr / PAGE_SIZE ≤ p ∧ p < (addr + len) / PAGE_SIZE
  · exact Or.inr ⟨hp, ⟨prot, h.calls⟩, if_pos hp, le_rfl, Nat.lt_succ_self _⟩
  · exact Or.inl (if_neg hp)

lemma asked_fail (h : Host) (errno : BitVec 32) : Asked P h (h.fail errno) :=
  ⟨rfl, rfl, Nat.le_succ _, fun _ => Or.inl rfl⟩

variable (h addr len prot flags fd offs) in
/-- A request at a fixed address fails or maps the pages there. -/
lemma mmap_fixed_cases :
    ((h.mmap (some addr) len prot flags fd offs).1 = none ∧
        ∃ errno, (h.mmap (some addr) len prot flags fd offs).2 = h.fail errno) ∨
      ∃ content, h.content flags fd offs = some content ∧ addr % PAGE_SIZE = 0 ∧
        h.mmap (some addr) len prot flags fd offs =
          (some addr, h.place addr len prot content) := by
  rw [mmap]
  split
  · exact Or.inl ⟨rfl, _, rfl⟩
  · rename_i hbad
    have haddr : addr % PAGE_SIZE = 0 := not_not.mp fun hne => hbad (Or.inr (Or.inr hne))
    cases hc : h.content flags fd offs with
    | none => exact Or.inl ⟨rfl, _, rfl⟩
    | some content =>
      cases h.answers h.calls with
      | refused errno => exact Or.inl ⟨rfl, _, rfl⟩
      | placed a => exact Or.inr ⟨content, rfl, haddr, rfl⟩

variable (h addr len prot flags fd offs) in
lemma asked_mmap_fixed :
    Asked (InPages addr len) h (h.mmap (some addr) len prot flags fd offs).2 := by
  rcases mmap_fixed_cases h addr len prot flags fd offs with ⟨-, errno, heq⟩ | ⟨content, -, -, heq⟩
  · rw [heq]
    exact asked_fail h errno
  · rw [heq]
    exact asked_place h addr len prot content

/-- A proper request that is granted. -/
lemma mmap_fixed_placed {content : ByteMem} (hlen : len ≠ 0) (haddr : addr % PAGE_SIZE = 0)
    (hoffs : offs % PAGE_SIZE = 0) (hc : h.content flags fd offs = some content)
    (hans : ∃ a, h.answers h.calls = .placed a) :
    h.mmap (some addr) len prot flags fd offs = (some addr, h.place addr len prot content) := by
  obtain ⟨a, ha⟩ := hans
  rw [mmap, if_neg (by simp [hlen, haddr, hoffs]), hc, ha]

instance (addr len p : ℕ) : Decidable (InPages addr len p) :=
  inferInstanceAs (Decidable (_ ∧ _))

variable (h addr len prot fd) in
/-- A mapping of anonymous pages that is granted; nothing happens if there are none. -/
lemma mmap_anon_granted (hflags : flags &&& MAP_ANON ≠ 0) (haddr : addr % PAGE_SIZE = 0)
    (hans : ∃ a, h.answers h.calls = .placed a) :
    let h' := (h.mmap (some addr) len prot flags fd 0).2
    h'.calls = h.calls + 1 ∧ h'.answers = h.answers ∧ h'.files = h.files ∧
      (∀ p, h'.pages p = if InPages addr len p then some ⟨prot, h.calls⟩ else h.pages p) ∧
      ∀ x, h'.mem x = if addr ≤ x ∧ x < addr + len then 0 else h.mem x := by
  by_cases hlen : len = 0
  · subst hlen
    rw [mmap, if_pos (Or.inl rfl)]
    refine ⟨rfl, rfl, rfl, fun p => ?_, fun x => ?_⟩
    · rw [if_neg]
      · rfl
      · rintro ⟨h1, h2⟩
        rw [Nat.add_zero] at h2
        omega
    · rw [if_neg (by omega)]
      rfl
  · rw [mmap_fixed_placed hlen haddr rfl (show h.content flags fd 0 = some fun _ => 0 from
      if_pos hflags) hans]
    exact ⟨rfl, rfl, rfl, fun p => rfl, fun x => rfl⟩

/-- Clearing memory changes no mapping. -/
lemma asked_memset {n : ℕ} (hm : h.memset addr n = some h') : Asked P h h' := by
  rw [memset] at hm
  split at hm
  · cases hm
    exact .refl P h
  · split at hm
    · cases hm
      exact ⟨rfl, rfl, le_rfl, fun _ => Or.inl rfl⟩
    · cases hm

/-- Clearing memory inside one page. -/
lemma memset_eq {n p : ℕ} (hn : n ≠ 0) (h1 : p * PAGE_SIZE ≤ addr)
    (h2 : addr + n ≤ (p + 1) * PAGE_SIZE) :
    h.memset addr n = if h.writable p then some (h.clear addr n) else none := by
  simp only [PAGE_SIZE] at h1 h2
  have hfirst : addr / PAGE_SIZE = p := by
    simp only [PAGE_SIZE]
    omega
  have hlast : (addr + n - 1) / PAGE_SIZE + 1 - p = 1 := by
    simp only [PAGE_SIZE]
    omega
  rw [memset, if_neg hn, hfirst, hlast]
  simp

end Host

end Rv32jit.Env
