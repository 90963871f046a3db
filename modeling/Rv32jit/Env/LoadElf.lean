/-
# Loading an executable

`env::LoadElf`: each segment is mapped from the file, and the part of it that the file does not
have is cleared up to the end of its page and mapped anonymously from there on.  The size of the
anonymous part is computed from the start of the page instead of the start of the segment, so the
last page may be missing, and the sums wrap around in the last page of the guest's memory.
-/
import Rv32jit.Env.Mmu
import Rv32jit.Lib.FoldM

namespace Rv32jit.Env

/-- `PF_X`. -/
def PF_X : BitVec 32 := 1

/-- `PF_W`. -/
def PF_W : BitVec 32 := 2

/-- `PF_R`. -/
def PF_R : BitVec 32 := 4

namespace Elf32Phdr

variable (ph : Elf32Phdr)

/-- The protection that the flags of the segment ask for. -/
def prot : BitVec 32 :=
  (if ph.p_flags &&& PF_R ≠ 0 then PROT_READ else 0) |||
    (if ph.p_flags &&& PF_W ≠ 0 then PROT_WRITE else 0) |||
    (if ph.p_flags &&& PF_X ≠ 0 then PROT_EXEC else 0)

/-- The page of the first byte. -/
def vaddr_ps : BitVec 32 := rounddownPage ph.p_vaddr

/-- The place of the first byte in its page. -/
def vaddr_po : BitVec 32 := ph.p_vaddr - ph.vaddr_ps

/-- `len` of the mapping of the file. -/
def fileLen : BitVec 32 := roundupPage (ph.p_filesz + ph.vaddr_po)

/-- The end of the bytes from the file. -/
def bss_start : BitVec 32 := ph.p_vaddr + ph.p_filesz

/-- The end of the segment, counted from the start of its page as the source does. -/
def bss_end : BitVec 32 := ph.vaddr_ps + ph.p_memsz

/-- The first page boundary from there on. -/
def bss_start_nextp : BitVec 32 := roundupPage32 ph.bss_start

/-- `len` of the mapping behind the file. -/
def bss_len : BitVec 32 := roundupPage32 (ph.bss_end - ph.bss_start)

/-- `len` of the mapping of a segment without contents in the file. -/
def zeroLen : BitVec 32 := roundupPage32 (ph.p_memsz + ph.vaddr_po)

end Elf32Phdr

namespace Mmu

/-- The part of a segment that the file does not have. -/
def mapBss (m : Mmu) (ph : Elf32Phdr) : Option Mmu := do
  let (_, m) ← m.mmap ph.bss_start_nextp ph.bss_len ph.prot
    (MAP_FIXED ||| MAP_PRIVATE ||| MAP_ANON) (-1) 0
  let prev_sz := ph.bss_start_nextp - ph.bss_start
  if prev_sz ≠ 0 then do
    let host ← m.host.memset ph.bss_start.toNat prev_sz.toNat
    some { m with host := host }
  else some m

/-- The mappings of a segment. -/
def mapSegment (fd : BitVec 32) (m : Mmu) (ph : Elf32Phdr) : Option Mmu :=
  if ph.p_filesz ≠ 0 then do
    let (_, m) ← m.mmap ph.vaddr_ps ph.fileLen ph.prot (MAP_FIXED ||| MAP_PRIVATE) fd
      (ph.p_offset - ph.vaddr_po).toNat
    if ph.p_filesz < ph.p_memsz then m.mapBss ph else some m
  else if ph.p_memsz ≠ 0 then do
    let (_, m) ← m.mmap ph.vaddr_ps ph.zeroLen ph.prot (MAP_FIXED ||| MAP_PRIVATE ||| MAP_ANON)
      (-1) 0
    some m
  else some m

end Mmu

/-- One round of the loop of `LoadElf`. -/
def loadPhdr (fd : BitVec 32) (s : Mmu × ElfImage) (ph : Elf32Phdr) : Option (Mmu × ElfImage) :=
  if ph.p_type ≠ PT_LOAD then some s
  else do
    let m ← s.1.mapSegment fd ph
    some (m, { s.2 with
      load_addr := if ph.p_vaddr - ph.p_offset < s.2.load_addr then ph.p_vaddr - ph.p_offset
        else s.2.load_addr
      brk := if s.2.brk < ph.p_vaddr + ph.p_memsz then ph.p_vaddr + ph.p_memsz else s.2.brk })

/-- The loop over the program headers. -/
def loadPhdrs (fd : BitVec 32) (s : Mmu × ElfImage) (phtab : List Elf32Phdr) :
    Option (Mmu × ElfImage) := phtab.foldlM (loadPhdr fd) s

/-- What `LoadElf` knows of the executable before its loop. -/
def startImage (f : HostFile) (elf : ElfImage) : ElfImage :=
  { elf with ehdr := f.ehdr, load_addr := -1, brk := 0, entry := f.ehdr.e_entry }

/-- `env::LoadElf`; nothing for a panic, a failed assertion and a memory fault. -/
def loadElf (fd : BitVec 32) (f : HostFile) (m : Mmu) (elf : ElfImage) :
    Option (Mmu × ElfImage) :=
  let ehdr := f.ehdr
  if f.pread sizeofEhdr 0 ≠ sizeofEhdr then none
  else if ehdr.e_ident ≠ ELFMAG then none
  else if ehdr.e_machine ≠ EM_RISCV then none
  else if ehdr.e_type ≠ ET_EXEC then none
  else if f.pread (sizeofPhdr * ehdr.e_phnum.toNat) ehdr.e_phoff.toNat ≠
      sizeofPhdr * ehdr.e_phnum.toNat then none
  else loadPhdrs fd (m, startImage f elf) f.phtab

/-! ### What is expected of it -/

/-- The segments of a file. -/
def HostFile.segments (f : HostFile) : List Elf32Phdr :=
  f.phtab.filter fun ph => ph.p_type = PT_LOAD

/-- A segment that lies in its file and in the guest's memory. -/
structure ProperSegment (f : HostFile) (ph : Elf32Phdr) : Prop where
  filesz_le : ph.p_filesz.toNat ≤ ph.p_memsz.toNat
  congruent : ph.p_vaddr.toNat % PAGE_SIZE = ph.p_offset.toNat % PAGE_SIZE
  inGuest : ph.p_vaddr.toNat + ph.p_memsz.toNat ≤ ASPACE_SIZE
  inFile : ph.p_offset.toNat + ph.p_filesz.toNat ≤ f.size

/-- The segment `ph` ends before the first page of `ph'`. -/
def PagesBefore (ph ph' : Elf32Phdr) : Prop :=
  (ph.p_vaddr.toNat + ph.p_memsz.toNat + (PAGE_SIZE - 1)) / PAGE_SIZE ≤
    ph'.p_vaddr.toNat / PAGE_SIZE

/-- A well-formed executable. -/
structure WellFormed (f : HostFile) : Prop where
  size : sizeofEhdr ≤ f.size
  ident : f.ehdr.e_ident = ELFMAG
  machine : f.ehdr.e_machine = EM_RISCV
  type : f.ehdr.e_type = ET_EXEC
  phtab : f.ehdr.e_phoff.toNat + sizeofPhdr * f.ehdr.e_phnum.toNat ≤ f.size
  proper : ∀ ph ∈ f.segments, ProperSegment f ph
  ascending : f.segments.Pairwise PagesBefore

/-- In `h` the segment is in memory: it lies in mappings that were made for it, by the requests
from `lo` to `hi`, and its bytes are those of the file, followed by zeros. -/
def SegmentLoaded (f : HostFile) (ph : Elf32Phdr) (lo hi : ℕ) (h : Host) : Prop :=
  ∀ a, ph.p_vaddr.toNat ≤ a → a < ph.p_vaddr.toNat + ph.p_memsz.toNat →
    (∃ pg, h.pages (a / PAGE_SIZE) = some pg ∧ pg.prot = ph.prot ∧ lo ≤ pg.born ∧ pg.born < hi) ∧
      h.mem a = if a < ph.p_vaddr.toNat + ph.p_filesz.toNat then
        f.byte (ph.p_offset.toNat + (a - ph.p_vaddr.toNat)) else 0

/-- The executable is in memory: no round has spoilt what another one has mapped, and the break is
the end of the last segment. -/
def Loaded (fd : BitVec 32) (f : HostFile) (m : Mmu) (elf : ElfImage) : Prop :=
  ∃ m' elf', loadElf fd f m elf = some (m', elf') ∧
    (∀ pre ph post s1 s2, f.phtab = pre ++ ph :: post → ph.p_type = PT_LOAD →
      loadPhdrs fd (m, startImage f elf) pre = some s1 →
      loadPhdr fd s1 ph = some s2 →
      SegmentLoaded f ph s1.1.host.calls s2.1.host.calls m'.host) ∧
    elf'.brk.toNat = (f.segments.map fun ph => ph.p_vaddr.toNat + ph.p_memsz.toNat).foldr max 0

/-! ### Sizes and places -/

section
variable {f : HostFile} {ph : Elf32Phdr}

lemma toNat_vaddr_ps (ph : Elf32Phdr) :
    ph.vaddr_ps.toNat = ph.p_vaddr.toNat / 4096 * 4096 := toNat_rounddownPage _

lemma toNat_vaddr_po (ph : Elf32Phdr) : ph.vaddr_po.toNat = ph.p_vaddr.toNat % 4096 :=
  toNat_sub_rounddownPage _

/-- The sum of a size and the offset in the page, rounded up, is too large only for a segment that
fills the whole of the guest's memory. -/
lemma toNat_roundup_add (ph : Elf32Phdr) (sz : BitVec 32)
    (h : ph.p_vaddr.toNat + sz.toNat < 2 ^ 32) :
    (roundupPage (sz + ph.vaddr_po)).toNat =
      if sz.toNat + ph.p_vaddr.toNat % 4096 ≤ 2 ^ 32 - 4096 then
        (sz.toNat + ph.p_vaddr.toNat % 4096 + 4095) / 4096 * 4096 else 0 := by
  have hsum : (sz + ph.vaddr_po).toNat = sz.toNat + ph.p_vaddr.toNat % 4096 := by
    rw [BitVec.toNat_add, toNat_vaddr_po]
    exact Nat.mod_eq_of_lt (by omega)
  rw [toNat_roundupPage, hsum]

lemma toNat_bss_start (ph : Elf32Phdr) (h : ph.p_vaddr.toNat + ph.p_filesz.toNat < 2 ^ 32) :
    ph.bss_start.toNat = ph.p_vaddr.toNat + ph.p_filesz.toNat := by
  rw [Elf32Phdr.bss_start, BitVec.toNat_add]
  exact Nat.mod_eq_of_lt h

lemma toNat_bss_start_nextp (ph : Elf32Phdr)
    (h : ph.p_vaddr.toNat + ph.p_filesz.toNat < 2 ^ 32) :
    ph.bss_start_nextp.toNat =
      if ph.p_vaddr.toNat + ph.p_filesz.toNat ≤ 2 ^ 32 - 4096 then
        (ph.p_vaddr.toNat + ph.p_filesz.toNat + 4095) / 4096 * 4096 else 0 := by
  rw [Elf32Phdr.bss_start_nextp, roundupPage32_eq, toNat_roundupPage, toNat_bss_start ph h]

lemma bss_len_dvd (ph : Elf32Phdr) : ph.bss_len.toNat % 4096 = 0 := by
  rw [Elf32Phdr.bss_len, roundupPage32_eq]
  exact roundupPage_dvd _

lemma prot_writable (ph : Elf32Phdr) :
    (ph.prot &&& PROT_WRITE ≠ 0) ↔ ph.p_flags &&& PF_W ≠ 0 := by
  have key : ∀ (a b c : Prop) [Decidable a] [Decidable b] [Decidable c],
      ((if a then PROT_READ else 0) ||| (if b then PROT_WRITE else 0) |||
        (if c then PROT_EXEC else 0)) &&& PROT_WRITE ≠ 0 ↔ b := by
    intro a b c _ _ _
    by_cases ha : a <;> by_cases hb : b <;> by_cases hc : c <;>
      simp [ha, hb, hc, PROT_READ, PROT_WRITE, PROT_EXEC]
  exact key _ _ _

lemma fileLen_dvd (ph : Elf32Phdr) : ph.fileLen.toNat % 4096 = 0 := roundupPage_dvd _

lemma zeroLen_dvd (ph : Elf32Phdr) : ph.zeroLen.toNat % 4096 = 0 := by
  rw [Elf32Phdr.zeroLen, roundupPage32_eq]
  exact roundupPage_dvd _

/-! ### What a round changes -/

/-- The pages that a segment is mapped to. -/
def StepPage (ph : Elf32Phdr) (p : ℕ) : Prop :=
  (ph.p_filesz ≠ 0 ∧ Host.InPages ph.vaddr_ps.toNat ph.fileLen.toNat p) ∨
    (ph.p_filesz ≠ 0 ∧ ph.p_filesz < ph.p_memsz ∧
      Host.InPages ph.bss_start_nextp.toNat ph.bss_len.toNat p) ∨
    (ph.p_filesz = 0 ∧ ph.p_memsz ≠ 0 ∧ Host.InPages ph.vaddr_ps.toNat ph.zeroLen.toNat p)

variable {m m' : Mmu} {fd : BitVec 32} {s s' : Mmu × ElfImage} {l : List Elf32Phdr}

lemma anon_fixed : (MAP_FIXED ||| MAP_PRIVATE ||| MAP_ANON) &&& MAP_FIXED ≠ 0 := by decide

lemma file_fixed : (MAP_FIXED ||| MAP_PRIVATE) &&& MAP_FIXED ≠ 0 := by decide

/-- The memory after the anonymous mapping of a segment. -/
def afterBss (m : Mmu) (ph : Elf32Phdr) : Host :=
  (m.host.mmap (some ph.bss_start_nextp.toNat) ph.bss_len.toNat ph.prot
    (MAP_FIXED ||| MAP_PRIVATE ||| MAP_ANON) (-1) 0).2

lemma asked_afterBss (m : Mmu) (ph : Elf32Phdr) :
    Host.Asked (Host.InPages ph.bss_start_nextp.toNat ph.bss_len.toNat) m.host (afterBss m ph) :=
  Host.asked_mmap_fixed ..

lemma mapBss_eq_some (h : m.mapBss ph = some m') :
    Mmu.InAspace ph.bss_start_nextp ph.bss_len ∧
      Host.Asked (fun _ => False) (afterBss m ph) m'.host ∧
      (ph.bss_start_nextp ≠ ph.bss_start → ∃ h', (afterBss m ph).memset ph.bss_start.toNat
        (ph.bss_start_nextp - ph.bss_start).toNat = some h') := by
  rw [Mmu.mapBss, Option.bind_eq_bind, Option.bind_eq_some_iff] at h
  obtain ⟨⟨r, m1⟩, h1, h2⟩ := h
  obtain ⟨hin, hhost⟩ := Mmu.mmap_fixed_eq_some anon_fixed (bss_len_dvd ph) h1
  rw [← afterBss] at hhost
  rw [← hhost]
  refine ⟨hin, ?_, fun hne => ?_⟩
  · simp only at h2
    split at h2
    · obtain ⟨host, h3, h4⟩ := Option.bind_eq_some_iff.mp h2
      cases h4
      exact Host.asked_memset h3
    · cases h2
      exact .refl _ _
  · have hsub : ph.bss_start_nextp - ph.bss_start ≠ 0 := by
      intro h0
      exact hne (BitVec.sub_eq_iff_eq_add.mp h0 |>.trans (by simp))
    simp only [hsub, ne_eq, not_false_eq_true, if_true] at h2
    obtain ⟨host, h3, -⟩ := Option.bind_eq_some_iff.mp h2
    exact ⟨host, h3⟩

lemma asked_mapBss (h : m.mapBss ph = some m') :
    Host.Asked (Host.InPages ph.bss_start_nextp.toNat ph.bss_len.toNat) m.host m'.host :=
  (asked_afterBss m ph).trans ((mapBss_eq_some h).2.1.mono fun _ hp => hp.elim)

lemma asked_mapSegment (h : m.mapSegment fd ph = some m') :
    Host.Asked (StepPage ph) m.host m'.host := by
  rw [Mmu.mapSegment] at h
  split at h
  · rename_i hf
    obtain ⟨⟨r, m1⟩, h1, h2⟩ := Option.bind_eq_some_iff.mp h
    obtain ⟨-, hhost⟩ := Mmu.mmap_fixed_eq_some file_fixed (fileLen_dvd ph) h1
    have hasked : Host.Asked (StepPage ph) m.host m1.host := by
      rw [hhost]
      exact (Host.asked_mmap_fixed ..).mono fun p hp => Or.inl ⟨hf, hp⟩
    simp only at h2
    split at h2
    · rename_i hlt
      exact hasked.trans ((asked_mapBss h2).mono fun p hp => Or.inr (Or.inl ⟨hf, hlt, hp⟩))
    · cases h2
      exact hasked
  · rename_i hf
    split at h
    · rename_i hm
      obtain ⟨⟨r, m1⟩, h1, h2⟩ := Option.bind_eq_some_iff.mp h
      obtain ⟨-, hhost⟩ := Mmu.mmap_fixed_eq_some anon_fixed (zeroLen_dvd ph) h1
      cases h2
      rw [hhost]
      exact (Host.asked_mmap_fixed ..).mono fun p hp => Or.inr (Or.inr ⟨not_not.mp hf, hm, hp⟩)
    · cases h
      exact .refl _ _

lemma asked_loadPhdr (h : loadPhdr fd s ph = some s') :
    Host.Asked (fun p => ph.p_type = PT_LOAD ∧ StepPage ph p) s.1.host s'.1.host := by
  rw [loadPhdr] at h
  split at h
  · cases h
    exact .refl _ _
  · rename_i ht
    obtain ⟨m1, h1, h2⟩ := Option.bind_eq_some_iff.mp h
    cases h2
    exact (asked_mapSegment h1).mono fun p hp => ⟨not_not.mp ht, hp⟩

lemma asked_loadPhdrs (h : loadPhdrs fd s l = some s') :
    Host.Asked (fun p => ∃ ph ∈ l, ph.p_type = PT_LOAD ∧ StepPage ph p) s.1.host s'.1.host := by
  induction l generalizing s with
  | nil =>
    cases h
    exact .refl _ _
  | cons ph l ih =>
    obtain ⟨s1, h1, h2⟩ := FoldM.foldlM_cons_eq_some.mp h
    exact ((asked_loadPhdr h1).mono fun p hp => ⟨ph, List.mem_cons_self, hp⟩).trans
      ((ih h2).mono fun p ⟨ph', hm, hp⟩ => ⟨ph', List.mem_cons_of_mem _ hm, hp⟩)

/-! ### A segment that is loaded as it should be -/

/-- The part that the file does not have is mapped up to its end, inside the guest's memory, and
can be cleared. -/
def BssOk (ph : Elf32Phdr) : Prop :=
  if ph.bss_start_nextp = 0 then ph.bss_len ≠ 0 ∧ ph.p_flags &&& PF_W ≠ 0
  else
    ph.p_vaddr.toNat + ph.p_memsz.toNat ≤ ph.bss_start_nextp.toNat + ph.bss_len.toNat ∧
      ph.bss_start_nextp.toNat + ph.bss_len.toNat ≤ ASPACE_SIZE ∧
      (ph.bss_start_nextp = ph.bss_start ∨ ph.p_flags &&& PF_W ≠ 0)

/-- The sizes that are computed for a segment are those that it needs. -/
structure SegmentOk (ph : Elf32Phdr) : Prop where
  brk : ph.p_vaddr.toNat + ph.p_memsz.toNat < ASPACE_SIZE
  file : ph.p_filesz ≠ 0 → ph.fileLen ≠ 0
  zero : ph.p_filesz = 0 → ph.p_memsz ≠ 0 → ph.zeroLen ≠ 0
  bss : ph.p_filesz ≠ 0 → ph.p_filesz < ph.p_memsz → BssOk ph

/-- The host grants every request, and `fd` is the file. -/
structure Grants (fd : BitVec 32) (f : HostFile) (h : Host) : Prop where
  file : h.files fd = some f
  all : ∀ n, ∃ a, h.answers n = .placed a

lemma Grants.asked {h h' : Host} {P : ℕ → Prop} (hg : Grants fd f h) (ha : Host.Asked P h h') :
    Grants fd f h' :=
  ⟨by rw [ha.files, hg.file], fun n => by rw [ha.answers]; exact hg.all n⟩

/-- The memory and the mappings after the part of a segment that comes from the file. -/
structure FileMapped (f : HostFile) (ph : Elf32Phdr) (h h' : Host) : Prop where
  calls : h'.calls = h.calls + 1
  pages : ∀ p, h'.pages p = if Host.InPages ph.vaddr_ps.toNat ph.fileLen.toNat p then
    some ⟨ph.prot, h.calls⟩ else h.pages p
  bytes : ∀ a, ph.p_vaddr.toNat ≤ a → a < ph.p_vaddr.toNat + ph.p_filesz.toNat →
    h'.mem a = f.byte (ph.p_offset.toNat + (a - ph.p_vaddr.toNat))
  frame : ∀ x, ¬ Host.InPages ph.vaddr_ps.toNat ph.fileLen.toNat (x / PAGE_SIZE) →
    h'.mem x = h.mem x

/-- The mapping of the file ends at the end of its last page. -/
lemma fileLen_end (hp : ProperSegment f ph)
    (hbrk : ph.p_vaddr.toNat + ph.p_memsz.toNat < ASPACE_SIZE) (hne : ph.fileLen ≠ 0) :
    ph.vaddr_ps.toNat + ph.fileLen.toNat =
      (ph.p_vaddr.toNat + ph.p_filesz.toNat + 4095) / 4096 * 4096 ∧
      ph.vaddr_ps.toNat + ph.fileLen.toNat ≤ 2 ^ 32 := by
  have hle := hp.filesz_le
  simp only [ASPACE_SIZE] at hbrk
  have hlen := toNat_roundup_add ph ph.p_filesz (by omega)
  rw [ne_zero_iff, Elf32Phdr.fileLen, hlen] at hne
  rw [toNat_vaddr_ps, Elf32Phdr.fileLen, hlen]
  split at hne
  · rename_i hsmall
    rw [if_pos hsmall]
    omega
  · exact absurd rfl hne

lemma file_granted (hp : ProperSegment f ph)
    (hbrk : ph.p_vaddr.toNat + ph.p_memsz.toNat < ASPACE_SIZE) (hne : ph.fileLen ≠ 0)
    (hg : Grants fd f m.host) :
    ∃ r m', m.mmap ph.vaddr_ps ph.fileLen ph.prot (MAP_FIXED ||| MAP_PRIVATE) fd
        (ph.p_offset - ph.vaddr_po).toNat = some (r, m') ∧ FileMapped f ph m.host m'.host := by
  obtain ⟨hend, htop⟩ := fileLen_end hp hbrk hne
  have hne := ne_zero_iff.mp hne
  have hcong := hp.congruent
  have hfile := hp.inFile
  have hps := toNat_vaddr_ps ph
  simp only [PAGE_SIZE] at hcong
  obtain ⟨r, m', heq, hhost⟩ := Mmu.mmap_fixed_of_inAspace m ph.prot fd
    (ph.p_offset - ph.vaddr_po).toNat file_fixed (fileLen_dvd ph) ⟨by omega, htop⟩
  refine ⟨r, m', heq, ?_⟩
  have hpo : (ph.p_offset - ph.vaddr_po).toNat =
      ph.p_offset.toNat - ph.p_vaddr.toNat % 4096 := by
    have := toNat_vaddr_po ph
    rw [BitVec.toNat_sub_of_le (by rw [BitVec.le_def]; omega), this]
  have hcontent : m.host.content (MAP_FIXED ||| MAP_PRIVATE) fd
      (ph.p_offset - ph.vaddr_po).toNat = some fun i =>
        if (ph.p_offset - ph.vaddr_po).toNat + i < f.size then
          f.byte ((ph.p_offset - ph.vaddr_po).toNat + i) else 0 := by
    rw [Host.content, if_neg (by decide), hg.file]
    rfl
  rw [Host.mmap_fixed_placed hne (by rw [hps, PAGE_SIZE]; omega) (by rw [hpo, PAGE_SIZE]; omega)
    hcontent (hg.all _)] at hhost
  rw [hhost]
  refine ⟨rfl, fun p => rfl, fun a h1 h2 => ?_, fun x hx => ?_⟩
  · simp only [Host.place]
    rw [if_pos (by omega), hpo, if_pos (by omega)]
    exact congrArg f.byte (by omega)
  · simp only [Host.place]
    rw [if_neg]
    intro hin
    refine hx ⟨?_, ?_⟩ <;> simp only [PAGE_SIZE] <;> omega

/-- The end of the part of the last page that is cleared. -/
def clearEnd (ph : Elf32Phdr) : ℕ :=
  if ph.bss_start_nextp = 0 then 2 ^ 32 else ph.bss_start_nextp.toNat

/-- The numbers of a segment of which a part is not in the file. -/
structure BssNumbers (ph : Elf32Phdr) : Prop where
  start : ph.bss_start.toNat = ph.p_vaddr.toNat + ph.p_filesz.toNat
  clear_end : clearEnd ph = (ph.p_vaddr.toNat + ph.p_filesz.toNat + 4095) / 4096 * 4096
  prev_sz : (ph.bss_start_nextp - ph.bss_start).toNat = clearEnd ph - ph.bss_start.toNat
  prev_zero : ph.bss_start_nextp - ph.bss_start = 0 ↔ ph.bss_start_nextp = ph.bss_start
  nextp : ph.bss_start_nextp = 0 → 2 ^ 32 - 4096 < ph.bss_start.toNat ∧
    ph.bss_len.toNat ≤ 4096
  next_dvd : ph.bss_start_nextp.toNat % 4096 = 0
  len_dvd : ph.bss_len.toNat % 4096 = 0

lemma bssNumbers (hle : ph.p_vaddr.toNat + ph.p_memsz.toNat < 2 ^ 32)
    (hf : ph.p_filesz ≠ 0) (hlt : ph.p_filesz < ph.p_memsz) : BssNumbers ph := by
  have hf0 := ne_zero_iff.mp hf
  have hlt' := BitVec.lt_def.mp hlt
  have hstart := toNat_bss_start ph (by omega)
  have hnext := toNat_bss_start_nextp ph (by omega)
  have hzero : ph.bss_start_nextp = 0 ↔ ph.bss_start_nextp.toNat = 0 := by
    rw [← not_iff_not]
    exact ne_zero_iff
  have hend : clearEnd ph = (ph.p_vaddr.toNat + ph.p_filesz.toNat + 4095) / 4096 * 4096 := by
    simp only [clearEnd, hzero, hnext]
    split <;> split <;> omega
  have hprev : (ph.bss_start_nextp - ph.bss_start).toNat = clearEnd ph - ph.bss_start.toNat := by
    rw [BitVec.toNat_sub, hnext, hend, hstart]
    split <;> omega
  refine ⟨hstart, hend, hprev, ?_, fun h0 => ?_, ?_, bss_len_dvd ph⟩
  · rw [← BitVec.toNat_inj, hprev, ← BitVec.toNat_inj, hnext, hend, hstart, toNat_zero32]
    split <;> omega
  · rw [hzero, hnext] at h0
    rw [hstart]
    split at h0
    · omega
    · rename_i hbig
      refine ⟨by omega, ?_⟩
      have hdiff : (ph.bss_end - ph.bss_start).toNat =
          (ph.p_memsz.toNat + 2 ^ 32 - ph.p_filesz.toNat - ph.p_vaddr.toNat % 4096) % 2 ^ 32 := by
        have hbend : ph.bss_end.toNat = ph.p_vaddr.toNat / 4096 * 4096 + ph.p_memsz.toNat := by
          rw [Elf32Phdr.bss_end, BitVec.toNat_add, toNat_vaddr_ps]
          exact Nat.mod_eq_of_lt (by omega)
        rw [BitVec.toNat_sub, hbend, hstart]
        omega
      rw [Elf32Phdr.bss_len, roundupPage32_eq, toNat_roundupPage, hdiff]
      split <;> omega
  · rw [hnext]
    split <;> omega

/-- The part that the file does not have is mapped, and the rest of its first page is cleared. -/
structure BssMapped (ph : Elf32Phdr) (h h' : Host) : Prop where
  calls : h'.calls = h.calls + 1
  pages : ∀ p, h'.pages p =
    if Host.InPages ph.bss_start_nextp.toNat ph.bss_len.toNat p then some ⟨ph.prot, h.calls⟩
    else h.pages p
  mem : ∀ x, h'.mem x =
    if ph.bss_start.toNat ≤ x ∧ x < clearEnd ph then 0
    else if ph.bss_start_nextp.toNat ≤ x ∧
      x < ph.bss_start_nextp.toNat + ph.bss_len.toNat then 0 else h.mem x

lemma BssNumbers.not_inPages (hn : BssNumbers ph) (hne : ph.bss_start_nextp ≠ ph.bss_start) :
    ¬ Host.InPages ph.bss_start_nextp.toNat ph.bss_len.toNat
      (ph.bss_start.toNat / PAGE_SIZE) := by
  rintro ⟨h1, h2⟩
  have hdvd := hn.next_dvd
  have hE := ph.bss_start.isLt
  have hsz := hn.prev_sz
  have hce := hn.clear_end
  have hnz : (ph.bss_start_nextp - ph.bss_start).toNat ≠ 0 :=
    ne_zero_iff.mp fun h0 => hne (hn.prev_zero.mp h0)
  simp only [PAGE_SIZE] at h1 h2
  by_cases h0 : ph.bss_start_nextp = 0
  · obtain ⟨h3, h4⟩ := hn.nextp h0
    rw [h0, toNat_zero32] at h2
    omega
  · rw [clearEnd, if_neg h0] at hce hsz
    omega

/-- What is cleared lies in one page. -/
lemma BssNumbers.memset_eq (hn : BssNumbers ph) (hne : ph.bss_start_nextp ≠ ph.bss_start)
    (h : Host) :
    h.memset ph.bss_start.toNat (ph.bss_start_nextp - ph.bss_start).toNat =
      if h.writable (ph.bss_start.toNat / PAGE_SIZE) then
        some (h.clear ph.bss_start.toNat (ph.bss_start_nextp - ph.bss_start).toNat)
      else none := by
  have hsz := hn.prev_sz
  have hce := hn.clear_end
  have hstart := hn.start
  have hnz : (ph.bss_start_nextp - ph.bss_start).toNat ≠ 0 :=
    ne_zero_iff.mp fun h0 => hne (hn.prev_zero.mp h0)
  exact Host.memset_eq hnz (by simp only [PAGE_SIZE]; omega) (by simp only [PAGE_SIZE]; omega)

lemma mapBss_granted (hn : BssNumbers ph)
    (hin : Mmu.InAspace ph.bss_start_nextp ph.bss_len)
    (hw : ph.bss_start_nextp ≠ ph.bss_start → ph.p_flags &&& PF_W ≠ 0)
    (hpage : ph.bss_start_nextp ≠ ph.bss_start →
      m.host.pages (ph.bss_start.toNat / PAGE_SIZE) = some ⟨ph.prot, m.host.calls - 1⟩)
    (hg : ∃ a, m.host.answers m.host.calls = .placed a) :
    ∃ m', m.mapBss ph = some m' ∧ BssMapped ph m.host m'.host := by
  obtain ⟨r, m1, heq, hhost⟩ := Mmu.mmap_fixed_of_inAspace m ph.prot (-1) 0 anon_fixed hn.len_dvd
    hin
  obtain ⟨c1, -, -, c4, c5⟩ := Host.mmap_anon_granted m.host ph.bss_start_nextp.toNat
    ph.bss_len.toNat ph.prot (-1)
    (show (MAP_FIXED ||| MAP_PRIVATE ||| MAP_ANON) &&& MAP_ANON ≠ 0 by decide) hn.next_dvd hg
  rw [← hhost] at c1 c4 c5
  have hsz := hn.prev_sz
  have hce := hn.clear_end
  have hstart := hn.start
  simp only [Mmu.mapBss, heq, Option.bind_eq_bind, Option.bind_some]
  by_cases hne : ph.bss_start_nextp = ph.bss_start
  · -- there is nothing to clear
    rw [if_neg (not_not.mpr (hn.prev_zero.mpr hne))]
    refine ⟨m1, rfl, c1, c4, fun x => ?_⟩
    rw [hn.prev_zero.mpr hne, toNat_zero32] at hsz
    rw [if_neg (by omega)]
    exact c5 x
  · rw [if_pos (fun h0 => hne (hn.prev_zero.mp h0))]
    have hnz : (ph.bss_start_nextp - ph.bss_start).toNat ≠ 0 :=
      ne_zero_iff.mp fun h0 => hne (hn.prev_zero.mp h0)
    have hout := hn.not_inPages hne
    have hwr : m1.host.writable (ph.bss_start.toNat / PAGE_SIZE) = true := by
      rw [Host.writable, c4, if_neg hout, hpage hne]
      exact decide_eq_true ((prot_writable ph).mpr (hw hne))
    rw [hn.memset_eq hne, hwr, if_pos rfl]
    refine ⟨_, rfl, c1, c4, fun x => ?_⟩
    simp only [Host.clear]
    rw [c5 x, hsz, show ph.bss_start.toNat + (clearEnd ph - ph.bss_start.toNat) = clearEnd ph by
      omega]

/-- The page of an address. -/
lemma inPages_div {addr len a : ℕ} (h1 : addr % 4096 = 0) (h2 : len % 4096 = 0) :
    Host.InPages addr len (a / PAGE_SIZE) ↔ addr ≤ a ∧ a < addr + len := by
  simp only [Host.InPages, PAGE_SIZE]
  omega

/-- What the wrap-around of the end of the file's part implies. -/
lemma wrapped_apart (hp : ProperSegment f ph) (ho : SegmentOk ph) (hn : BssNumbers ph)
    (hf : ph.p_filesz ≠ 0) (h0 : ph.bss_start_nextp = 0) : 4096 ≤ ph.p_vaddr.toNat := by
  obtain ⟨hend, htop⟩ := fileLen_end hp ho.brk (ho.file hf)
  obtain ⟨h1, -⟩ := hn.nextp h0
  have hstart := hn.start
  have hps := toNat_vaddr_ps ph
  have hle := ho.brk
  have hF := hp.filesz_le
  have hlt := ph.fileLen.isLt
  simp only [ASPACE_SIZE] at hle
  omega

/-- The mapping behind the file lies in the address space; it holds the bytes of the segment from
where the clearing ends on, and none before. -/
structure BssPlaced (ph : Elf32Phdr) : Prop where
  inAspace : Mmu.InAspace ph.bss_start_nextp ph.bss_len
  writable : ph.bss_start_nextp ≠ ph.bss_start → ph.p_flags &&& PF_W ≠ 0
  clears : ph.bss_start_nextp ≠ ph.bss_start → ph.bss_start.toNat < clearEnd ph
  covers : ∀ a, clearEnd ph ≤ a → a < ph.p_vaddr.toNat + ph.p_memsz.toNat →
    ph.bss_start_nextp.toNat ≤ a ∧ a < ph.bss_start_nextp.toNat + ph.bss_len.toNat
  apart : ∀ a, ph.p_vaddr.toNat ≤ a → a < clearEnd ph →
    ¬ (ph.bss_start_nextp.toNat ≤ a ∧ a < ph.bss_start_nextp.toNat + ph.bss_len.toNat)

lemma bssPlaced (hp : ProperSegment f ph) (ho : SegmentOk ph) (hf : ph.p_filesz ≠ 0)
    (hlt : ph.p_filesz < ph.p_memsz) : BssPlaced ph := by
  have hbss := ho.bss hf hlt
  have hbrk := ho.brk
  simp only [ASPACE_SIZE] at hbrk
  have hn := bssNumbers hbrk hf hlt
  have hstart := hn.start
  rw [BssOk] at hbss
  by_cases h0 : ph.bss_start_nextp = 0
  · -- the part in the file ends in the last page
    rw [if_pos h0] at hbss
    have hend : clearEnd ph = 2 ^ 32 := by rw [clearEnd, if_pos h0]
    have hnext : ph.bss_start_nextp.toNat = 0 := by rw [h0]; rfl
    have hlow := wrapped_apart hp ho hn hf h0
    have hlen := (hn.nextp h0).2
    have hlen0 := ne_zero_iff.mp hbss.1
    have hlt32 := ph.bss_start.isLt
    exact ⟨⟨by omega, by omega⟩, fun _ => hbss.2, fun _ => by omega, fun a h1 h2 => by omega,
      fun a h1 h2 => by omega⟩
  · rw [if_neg h0] at hbss
    have hend : clearEnd ph = ph.bss_start_nextp.toNat := by rw [clearEnd, if_neg h0]
    have hpos := ne_zero_iff.mp h0
    have hce := hn.clear_end
    simp only [ASPACE_SIZE] at hbss
    refine ⟨⟨by omega, hbss.2.1⟩, hbss.2.2.resolve_left, fun hne => ?_, fun a h1 h2 => by omega,
      fun a h1 h2 => by omega⟩
    have hne' : ph.bss_start_nextp.toNat ≠ ph.bss_start.toNat :=
      fun h1 => hne (BitVec.eq_of_toNat_eq h1)
    omega

lemma mapBss_ok (hp : ProperSegment f ph) (ho : SegmentOk ph) (hf : ph.p_filesz ≠ 0)
    (hlt : ph.p_filesz < ph.p_memsz) {h : Host} (hm : FileMapped f ph h m.host)
    (hg : Grants fd f m.host) :
    ∃ m', m.mapBss ph = some m' ∧ SegmentLoaded f ph h.calls m'.host.calls m'.host ∧
      ∀ x, ¬ StepPage ph (x / PAGE_SIZE) → m'.host.mem x = h.mem x := by
  have hbrk := ho.brk
  simp only [ASPACE_SIZE] at hbrk
  have hn := bssNumbers hbrk hf hlt
  have hplaced := bssPlaced hp ho hf hlt
  obtain ⟨hend, htop⟩ := fileLen_end hp ho.brk (ho.file hf)
  have hce := hn.clear_end
  have hstart := hn.start
  have hps := toNat_vaddr_ps ph
  have hf0 := ne_zero_iff.mp hf
  have hpsdvd : ph.vaddr_ps.toNat % 4096 = 0 := by omega
  obtain ⟨m', heq, hb⟩ := mapBss_granted hn hplaced.inAspace hplaced.writable (fun hne => by
    have hE := hplaced.clears hne
    rw [hm.pages, if_pos ((inPages_div hpsdvd (fileLen_dvd ph)).mpr (by omega)), hm.calls]
    rfl) (hg.all _)
  have hc := hm.calls
  have hc' := hb.calls
  refine ⟨m', heq, fun a h1 h2 => ?_, fun x hx => ?_⟩
  · by_cases ha : a < clearEnd ph
    · have hapart := hplaced.apart a h1 ha
      refine ⟨⟨⟨ph.prot, h.calls⟩, ?_, rfl, le_rfl, by simp only; omega⟩, ?_⟩
      · rw [hb.pages, if_neg (fun hi => hapart ((inPages_div hn.next_dvd hn.len_dvd).mp hi)),
          hm.pages, if_pos ((inPages_div hpsdvd (fileLen_dvd ph)).mpr (by omega))]
      · rw [hb.mem, if_neg hapart]
        by_cases hfile : a < ph.p_vaddr.toNat + ph.p_filesz.toNat
        · rw [if_neg (by omega), if_pos hfile, hm.bytes a h1 hfile]
        · rw [if_pos (by omega), if_neg hfile]
    · have hco := hplaced.covers a (by omega) h2
      refine ⟨⟨⟨ph.prot, m.host.calls⟩, ?_, rfl, by simp only; omega, by simp only; omega⟩, ?_⟩
      · rw [hb.pages, if_pos ((inPages_div hn.next_dvd hn.len_dvd).mpr hco)]
      · rw [hb.mem, if_neg (by omega), if_pos hco, if_neg (by omega)]
  · have hx1 : ¬ Host.InPages ph.vaddr_ps.toNat ph.fileLen.toNat (x / PAGE_SIZE) :=
      fun hi => hx (Or.inl ⟨hf, hi⟩)
    have hx2 : ¬ Host.InPages ph.bss_start_nextp.toNat ph.bss_len.toNat (x / PAGE_SIZE) :=
      fun hi => hx (Or.inr (Or.inl ⟨hf, hlt, hi⟩))
    rw [← hm.frame x hx1, hb.mem]
    rw [inPages_div hpsdvd (fileLen_dvd ph)] at hx1
    rw [inPages_div hn.next_dvd hn.len_dvd] at hx2
    rw [if_neg (by omega), if_neg hx2]

/-- A segment whose sizes are right is loaded, and nothing else is touched. -/
lemma mapSegment_ok (hp : ProperSegment f ph) (ho : SegmentOk ph) (hg : Grants fd f m.host) :
    ∃ m', m.mapSegment fd ph = some m' ∧
      SegmentLoaded f ph m.host.calls m'.host.calls m'.host ∧
      ∀ x, ¬ StepPage ph (x / PAGE_SIZE) → m'.host.mem x = m.host.mem x := by
  have hbrk := ho.brk
  simp only [ASPACE_SIZE] at hbrk
  have hps := toNat_vaddr_ps ph
  have hpsdvd : ph.vaddr_ps.toNat % 4096 = 0 := by omega
  have hle := hp.filesz_le
  by_cases hf : ph.p_filesz = 0
  · rw [Mmu.mapSegment, if_neg (not_not.mpr hf)]
    have hf0 : ph.p_filesz.toNat = 0 := by rw [hf]; rfl
    by_cases hm : ph.p_memsz = 0
    · -- there is nothing to load
      rw [if_neg (not_not.mpr hm)]
      have hm0 : ph.p_memsz.toNat = 0 := by rw [hm]; rfl
      exact ⟨m, rfl, fun a h1 h2 => by omega, fun x _ => rfl⟩
    · rw [if_pos hm]
      have hne := ne_zero_iff.mp (ho.zero hf hm)
      have hlen := toNat_roundup_add ph ph.p_memsz hbrk
      rw [← roundupPage32_eq, show roundupPage32 (ph.p_memsz + ph.vaddr_po) = ph.zeroLen from rfl]
        at hlen
      have hm0 := ne_zero_iff.mp hm
      obtain ⟨r, m', heq, hhost⟩ := Mmu.mmap_fixed_of_inAspace m ph.prot (-1) 0 anon_fixed
        (zeroLen_dvd ph) (show Mmu.InAspace ph.vaddr_ps ph.zeroLen from
          ⟨by omega, by split at hlen <;> omega⟩)
      obtain ⟨c1, -, -, c4, c5⟩ := Host.mmap_anon_granted m.host ph.vaddr_ps.toNat
        ph.zeroLen.toNat ph.prot (-1)
        (show (MAP_FIXED ||| MAP_PRIVATE ||| MAP_ANON) &&& MAP_ANON ≠ 0 by decide) hpsdvd (hg.all _)
      rw [← hhost] at c1 c4 c5
      simp only [heq, Option.bind_eq_bind, Option.bind_some]
      refine ⟨m', rfl, fun a h1 h2 => ?_, fun x hx => ?_⟩
      · have hco : ph.vaddr_ps.toNat ≤ a ∧ a < ph.vaddr_ps.toNat + ph.zeroLen.toNat := by
          split at hlen <;> omega
        refine ⟨⟨⟨ph.prot, m.host.calls⟩, ?_, rfl, le_rfl, by simp only; omega⟩, ?_⟩
        · rw [c4, if_pos ((inPages_div hpsdvd (zeroLen_dvd ph)).mpr hco)]
        · rw [c5, if_pos hco, if_neg (by omega)]
      · have hx1 : ¬ Host.InPages ph.vaddr_ps.toNat ph.zeroLen.toNat (x / PAGE_SIZE) :=
          fun hi => hx (Or.inr (Or.inr ⟨hf, hm, hi⟩))
        rw [inPages_div hpsdvd (zeroLen_dvd ph)] at hx1
        rw [c5, if_neg hx1]
  · rw [Mmu.mapSegment, if_pos hf]
    obtain ⟨r, m1, heq, hm⟩ := file_granted hp ho.brk (ho.file hf) hg
    simp only [heq, Option.bind_eq_bind, Option.bind_some]
    by_cases hlt : ph.p_filesz < ph.p_memsz
    · rw [if_pos hlt]
      have hasked := Host.asked_mmap_fixed m.host ph.vaddr_ps.toNat ph.fileLen.toNat ph.prot
        (MAP_FIXED ||| MAP_PRIVATE) fd (ph.p_offset - ph.vaddr_po).toNat
      obtain ⟨-, hhost⟩ := Mmu.mmap_fixed_eq_some file_fixed (fileLen_dvd ph) heq
      rw [← hhost] at hasked
      exact mapBss_ok hp ho hf hlt hm (hg.asked hasked)
    · rw [if_neg hlt]
      obtain ⟨hend, htop⟩ := fileLen_end hp ho.brk (ho.file hf)
      have hmem : ph.p_memsz.toNat ≤ ph.p_filesz.toNat := by
        have := BitVec.not_lt.mp hlt
        exact BitVec.le_def.mp this
      have hc := hm.calls
      refine ⟨m1, rfl, fun a h1 h2 => ⟨⟨⟨ph.prot, m.host.calls⟩, ?_, rfl, le_rfl,
        by simp only; omega⟩, ?_⟩, fun x hx => hm.frame x fun hi => hx (Or.inl ⟨hf, hi⟩)⟩
      · rw [hm.pages, if_pos ((inPages_div hpsdvd (fileLen_dvd ph)).mpr (by omega))]
      · rw [hm.bytes a h1 (by omega), if_pos (by omega)]

/-! ### All segments -/

/-- The sizes of all segments are right, and one that wraps around does not hit another. -/
structure LoadsOk (f : HostFile) : Prop where
  ok : ∀ ph ∈ f.segments, SegmentOk ph
  wrap : ∀ ph ∈ f.segments, ph.p_filesz ≠ 0 → ph.p_filesz < ph.p_memsz → ph.bss_start_nextp = 0 →
    ∀ ph' ∈ f.segments, ph'.p_memsz ≠ 0 → 4096 ≤ ph'.p_vaddr.toNat

lemma mem_segments : ph ∈ f.segments ↔ ph ∈ f.phtab ∧ ph.p_type = PT_LOAD := by
  simp [HostFile.segments]

/-- A later segment does not touch the pages of an earlier one. -/
lemma not_stepPage {ph' : Elf32Phdr} (hbefore : PagesBefore ph ph')
    (hwrap : ph'.p_filesz ≠ 0 → ph'.p_filesz < ph'.p_memsz → ph'.bss_start_nextp = 0 →
      ph.p_memsz ≠ 0 → 4096 ≤ ph.p_vaddr.toNat)
    (hle' : ph'.p_vaddr.toNat + ph'.p_memsz.toNat < ASPACE_SIZE) {a : ℕ}
    (h1 : ph.p_vaddr.toNat ≤ a) (h2 : a < ph.p_vaddr.toNat + ph.p_memsz.toNat) :
    ¬ StepPage ph' (a / PAGE_SIZE) := by
  have hps := toNat_vaddr_ps ph'
  simp only [PagesBefore, PAGE_SIZE] at hbefore
  simp only [ASPACE_SIZE] at hle'
  rintro (⟨-, h3, -⟩ | ⟨hf, hlt, h3, h4⟩ | ⟨-, -, h3, -⟩)
  · simp only [PAGE_SIZE] at h3
    omega
  · simp only [PAGE_SIZE] at h3 h4
    have hn := bssNumbers hle' hf hlt
    have hce := hn.clear_end
    by_cases h0 : ph'.bss_start_nextp = 0
    · have hm : ph.p_memsz ≠ 0 := ne_zero_iff.mpr (by omega)
      have hlen := (hn.nextp h0).2
      have := hwrap hf hlt h0 hm
      rw [h0, toNat_zero32] at h4
      omega
    · rw [clearEnd, if_neg h0] at hce
      omega
  · simp only [PAGE_SIZE] at h3
    omega

/-- A run of the loop over proper segments completes, and touches their pages only. -/
lemma loadPhdrs_ok (hg : Grants fd f s.1.host)
    (hok : ∀ ph ∈ l, ph.p_type = PT_LOAD → ProperSegment f ph ∧ SegmentOk ph) :
    ∃ s', loadPhdrs fd s l = some s' ∧
      ∀ x, (∀ ph ∈ l, ph.p_type = PT_LOAD → ¬ StepPage ph (x / PAGE_SIZE)) →
        s'.1.host.mem x = s.1.host.mem x := by
  induction l generalizing s with
  | nil => exact ⟨s, rfl, fun x _ => rfl⟩
  | cons ph l ih =>
    have hrest : ∀ ph ∈ l, ph.p_type = PT_LOAD → ProperSegment f ph ∧ SegmentOk ph :=
      fun ph hm => hok ph (List.mem_cons_of_mem _ hm)
    by_cases ht : ph.p_type = PT_LOAD
    · obtain ⟨hp, ho⟩ := hok ph List.mem_cons_self ht
      obtain ⟨m1, h1, -, hframe⟩ := mapSegment_ok hp ho hg
      obtain ⟨s1, hs1, hhost⟩ : ∃ s1, loadPhdr fd s ph = some s1 ∧ s1.1 = m1 := by
        rw [loadPhdr, if_neg (not_not.mpr ht), h1]
        exact ⟨_, rfl, rfl⟩
      obtain ⟨s', hs', hmem⟩ := ih (hg.asked (asked_loadPhdr hs1)) hrest
      refine ⟨s', FoldM.foldlM_cons_eq_some.mpr ⟨s1, hs1, hs'⟩, fun x hx => ?_⟩
      rw [hmem x fun ph' hm => hx ph' (List.mem_cons_of_mem _ hm), hhost,
        hframe x (hx ph List.mem_cons_self ht)]
    · obtain ⟨s', hs', hmem⟩ := ih hg hrest
      refine ⟨s', FoldM.foldlM_cons_eq_some.mpr ⟨s, by rw [loadPhdr, if_pos ht], hs'⟩,
        fun x hx => ?_⟩
      exact hmem x fun ph' hm => hx ph' (List.mem_cons_of_mem _ hm)

/-- The break after a run of the loop, in 32 bits. -/
lemma brk_loadPhdrs (h : loadPhdrs fd s l = some s') :
    s'.2.brk.toNat = ((l.filter fun ph => ph.p_type = PT_LOAD).map fun ph =>
      (ph.p_vaddr.toNat + ph.p_memsz.toNat) % 2 ^ 32).foldr max s.2.brk.toNat := by
  induction l generalizing s with
  | nil =>
    cases h
    rfl
  | cons ph l ih =>
    obtain ⟨s1, h1, h2⟩ := FoldM.foldlM_cons_eq_some.mp h
    rw [ih h2]
    rw [loadPhdr] at h1
    split at h1
    · rename_i ht
      cases h1
      rw [List.filter_cons_of_neg (by simpa using ht)]
    · rename_i ht
      obtain ⟨m1, h3, h4⟩ := Option.bind_eq_some_iff.mp h1
      cases h4
      rw [List.filter_cons_of_pos (by simpa using ht), List.map_cons, List.foldr_cons]
      have hmax : ∀ (k : List ℕ) (a b : ℕ), k.foldr max (max a b) = max a (k.foldr max b) := by
        intro k a b
        induction k with
        | nil => rfl
        | cons c k ih => rw [List.foldr_cons, ih, List.foldr_cons, max_left_comm]
      rw [← hmax]
      congr 1
      have hsum : (ph.p_vaddr + ph.p_memsz).toNat =
        (ph.p_vaddr.toNat + ph.p_memsz.toNat) % 2 ^ 32 := BitVec.toNat_add _ _
      rw [← hsum]
      simp only [BitVec.lt_def]
      split <;> omega

lemma loadElf_eq (hw : WellFormed f) (m : Mmu) (elf : ElfImage) :
    loadElf fd f m elf = loadPhdrs fd (m, startImage f elf) f.phtab := by
  have h1 := hw.size
  have h2 := hw.phtab
  rw [loadElf, if_neg, if_neg, if_neg, if_neg, if_neg]
  · rw [HostFile.pread]
    omega
  · exact not_not.mpr hw.type
  · exact not_not.mpr hw.machine
  · exact not_not.mpr hw.ident
  · rw [HostFile.pread]
    omega

lemma loadPhdrs_append (pre post : List Elf32Phdr) (s : Mmu × ElfImage) :
    loadPhdrs fd s (pre ++ post) = (loadPhdrs fd s pre).bind fun s => loadPhdrs fd s post :=
  List.foldlM_append

/-- If the sizes of all segments are right, the executable is loaded. -/
lemma loaded_of_loadsOk {elf : ElfImage} (hw : WellFormed f) (hg : Grants fd f m.host)
    (ho : LoadsOk f) : Loaded fd f m elf := by
  have hall : ∀ l : List Elf32Phdr, (∀ ph ∈ l, ph ∈ f.phtab) → ∀ ph ∈ l, ph.p_type = PT_LOAD →
      ProperSegment f ph ∧ SegmentOk ph := by
    intro l hl ph hm ht
    have hseg := mem_segments.mpr ⟨hl ph hm, ht⟩
    exact ⟨hw.proper ph hseg, ho.ok ph hseg⟩
  obtain ⟨s', hs', -⟩ := loadPhdrs_ok (s := (m, startImage f elf)) hg
    (hall f.phtab fun _ h => h)
  refine ⟨s'.1, s'.2, by rw [loadElf_eq hw, hs'], ?_, ?_⟩
  · intro pre ph post s1 s2 heq ht h1 h2
    have hmem : ∀ ph' ∈ ph :: post, ph' ∈ f.phtab := fun ph' hm => by
      rw [heq]
      exact List.mem_append_right _ hm
    have hg1 := hg.asked (asked_loadPhdrs h1)
    obtain ⟨hp, hok⟩ := hall _ hmem ph List.mem_cons_self ht
    have hpost : loadPhdrs fd s2 post = some s' := by
      rw [heq, loadPhdrs_append, h1] at hs'
      obtain ⟨s3, h3, h4⟩ := FoldM.foldlM_cons_eq_some.mp hs'
      rw [h2, Option.some.injEq] at h3
      rw [h3]
      exact h4
    -- the segment right after its round
    obtain ⟨m2, hm2, hload, -⟩ := mapSegment_ok hp hok hg1
    have hs2 : s2.1 = m2 := by
      rw [loadPhdr, if_neg (not_not.mpr ht), hm2] at h2
      cases h2
      rfl
    rw [← hs2] at hload
    -- the rounds that follow leave it as it is
    have hasc : ∀ ph' ∈ post, ph'.p_type = PT_LOAD → PagesBefore ph ph' := by
      intro ph' hm' ht'
      have hpair := hw.ascending
      rw [HostFile.segments, heq, List.filter_append, List.pairwise_append,
        List.filter_cons_of_pos (by simpa using ht), List.pairwise_cons] at hpair
      exact hpair.2.1.1 ph' (List.mem_filter.mpr ⟨hm', by simpa using ht'⟩)
    obtain ⟨s'', hs'', hframe⟩ := loadPhdrs_ok (hg1.asked (asked_loadPhdr h2))
      (hall post fun ph' hm => hmem ph' (List.mem_cons_of_mem _ hm))
    rw [hpost, Option.some.injEq] at hs''
    subst hs''
    intro a ha1 ha2
    have hnot : ∀ ph' ∈ post, ph'.p_type = PT_LOAD → ¬ StepPage ph' (a / PAGE_SIZE) := by
      intro ph' hm' ht'
      have hseg' := mem_segments.mpr ⟨hmem ph' (List.mem_cons_of_mem _ hm'), ht'⟩
      refine not_stepPage (hasc ph' hm' ht') (fun hf hlt h0 hmz => ?_) (ho.ok ph' hseg').brk ha1 ha2
      exact ho.wrap ph' hseg' hf hlt h0 ph
        (mem_segments.mpr ⟨hmem ph List.mem_cons_self, ht⟩) hmz
    obtain ⟨hpg, hbyte⟩ := hload a ha1 ha2
    have hpages : s'.1.host.pages (a / PAGE_SIZE) = s2.1.host.pages (a / PAGE_SIZE) := by
      rcases (asked_loadPhdrs hpost).pages (a / PAGE_SIZE) with heq' | ⟨⟨ph', hm', ht', hstep⟩, -⟩
      · exact heq'
      · exact absurd hstep (hnot ph' hm' ht')
    rw [hpages, hframe a hnot]
    exact ⟨hpg, hbyte⟩
  · rw [brk_loadPhdrs hs']
    refine congrArg (List.foldr max 0) (List.map_congr_left fun ph hm => ?_)
    exact Nat.mod_eq_of_lt (ho.ok ph hm).brk

/-- The segment `ph` of a loaded executable: the rounds before and after it. -/
lemma Loaded.round {elf : ElfImage} (hw : WellFormed f) (h : Loaded fd f m elf)
    (hph : ph ∈ f.segments) :
    ∃ pre post s1 m2 s2 s', f.phtab = pre ++ ph :: post ∧
      loadPhdrs fd (m, startImage f elf) pre = some s1 ∧ s1.1.mapSegment fd ph = some m2 ∧
      s2.1 = m2 ∧ loadPhdrs fd s2 post = some s' ∧ loadPhdrs fd (m, startImage f elf) f.phtab =
        some s' ∧ SegmentLoaded f ph s1.1.host.calls m2.host.calls s'.1.host := by
  obtain ⟨m', elf', hload, hseg, -⟩ := h
  obtain ⟨hmem, ht⟩ := mem_segments.mp hph
  obtain ⟨pre, post, heq⟩ := List.append_of_mem hmem
  rw [loadElf_eq hw] at hload
  have hrun := hload
  rw [heq, loadPhdrs_append] at hload
  obtain ⟨s1, h1, h2⟩ := Option.bind_eq_some_iff.mp hload
  obtain ⟨s2, h3, h4⟩ := FoldM.foldlM_cons_eq_some.mp h2
  have hloaded := hseg pre ph post s1 s2 heq ht h1 h3
  rw [loadPhdr, if_neg (not_not.mpr ht)] at h3
  obtain ⟨m2, hm2, h5⟩ := Option.bind_eq_some_iff.mp h3
  have hs2 : s2.1 = m2 := by
    cases h5
    rfl
  rw [hs2] at hloaded
  exact ⟨pre, post, s1, m2, s2, _, heq, h1, hm2, hs2, h4, hrun, hloaded⟩

/-- What is left of a round whose part in the file has been mapped. -/
lemma mapSegment_file (hp : ProperSegment f ph) (hg : Grants fd f m.host)
    (hbrk : ph.p_vaddr.toNat + ph.p_memsz.toNat < ASPACE_SIZE) (hf : ph.p_filesz ≠ 0)
    (h : m.mapSegment fd ph = some m') :
    ph.fileLen ≠ 0 ∧ ∃ m1 : Mmu, FileMapped f ph m.host m1.host ∧ Grants fd f m1.host ∧
      (ph.p_filesz < ph.p_memsz → m1.mapBss ph = some m') := by
  rw [Mmu.mapSegment, if_pos hf] at h
  obtain ⟨⟨r, m1⟩, h1, h2⟩ := Option.bind_eq_some_iff.mp h
  obtain ⟨hin, hhost⟩ := Mmu.mmap_fixed_eq_some file_fixed (fileLen_dvd ph) h1
  have hne : ph.fileLen ≠ 0 := by
    intro h0
    have hle := hp.filesz_le
    have hps := toNat_vaddr_ps ph
    have hf0 := ne_zero_iff.mp hf
    simp only [ASPACE_SIZE] at hbrk
    have hlen := toNat_roundup_add ph ph.p_filesz (by omega)
    rw [← Elf32Phdr.fileLen, h0, toNat_zero32] at hlen
    have hpos := hin.1
    rw [h0, toNat_zero32] at hpos
    split at hlen <;> omega
  obtain ⟨r', m1', h1', hm⟩ := file_granted hp hbrk hne hg
  rw [h1, Option.some.injEq, Prod.mk.injEq] at h1'
  obtain ⟨-, rfl⟩ := h1'
  have hasked := Host.asked_mmap_fixed m.host ph.vaddr_ps.toNat ph.fileLen.toNat ph.prot
    (MAP_FIXED ||| MAP_PRIVATE) fd (ph.p_offset - ph.vaddr_po).toNat
  rw [← hhost] at hasked
  refine ⟨hne, m1, hm, hg.asked hasked, fun hlt => ?_⟩
  simp only [hlt, if_true] at h2
  exact h2

/-- If all bytes of a segment are mapped for it, the sizes of its anonymous part are right. -/
lemma bssOk_of_mapped (hp : ProperSegment f ph)
    (hbrk : ph.p_vaddr.toNat + ph.p_memsz.toNat < ASPACE_SIZE) (hf : ph.p_filesz ≠ 0)
    (hlen : ph.fileLen ≠ 0) (hlt : ph.p_filesz < ph.p_memsz) {h : Host}
    (hm : FileMapped f ph h m.host) (hb : m.mapBss ph = some m')
    (hcov : ∀ a, ph.p_vaddr.toNat ≤ a → a < ph.p_vaddr.toNat + ph.p_memsz.toNat →
      ∃ pg, m'.host.pages (a / PAGE_SIZE) = some pg ∧ h.calls ≤ pg.born) : BssOk ph := by
  obtain ⟨hin, -, hmemset⟩ := mapBss_eq_some hb
  have hasked := asked_mapBss hb
  obtain ⟨hend, htop⟩ := fileLen_end hp hbrk hlen
  have hn := bssNumbers hbrk hf hlt
  have hps := toNat_vaddr_ps ph
  have hpsdvd : ph.vaddr_ps.toNat % 4096 = 0 := by omega
  have hce := hn.clear_end
  have hstart := hn.start
  have hf0 := ne_zero_iff.mp hf
  have hlt' := BitVec.lt_def.mp hlt
  -- what is cleared is a page of the file
  have hw : ph.bss_start_nextp ≠ ph.bss_start → ph.p_flags &&& PF_W ≠ 0 := by
    intro hne
    have hsz := hn.prev_sz
    have hnz : (ph.bss_start_nextp - ph.bss_start).toNat ≠ 0 :=
      ne_zero_iff.mp fun h0 => hne (hn.prev_zero.mp h0)
    obtain ⟨h', hset⟩ := hmemset hne
    rw [hn.memset_eq hne] at hset
    split at hset
    · rename_i hwr
      rcases (asked_afterBss m ph).pages (ph.bss_start.toNat / PAGE_SIZE) with heq | ⟨hi, -⟩
      · rw [Host.writable, heq, hm.pages,
          if_pos ((inPages_div hpsdvd (fileLen_dvd ph)).mpr (by omega))] at hwr
        exact (prot_writable ph).mp (of_decide_eq_true hwr)
      · exact absurd hi (hn.not_inPages hne)
    · cases hset
  rw [BssOk]
  split
  · rename_i h0
    have hpos := hin.1
    rw [h0, toNat_zero32] at hpos
    refine ⟨ne_zero_iff.mpr (by omega), hw fun heq => ?_⟩
    rw [← heq, h0, toNat_zero32] at hstart
    omega
  · rename_i h0
    rw [clearEnd, if_neg h0] at hce
    refine ⟨?_, hin.2, or_iff_not_imp_left.mpr hw⟩
    by_contra hgap
    -- the first byte behind the anonymous part
    obtain ⟨pg, hpg, hborn⟩ := hcov (ph.bss_start_nextp.toNat + ph.bss_len.toNat) (by omega)
      (by omega)
    rcases hasked.pages ((ph.bss_start_nextp.toNat + ph.bss_len.toNat) / PAGE_SIZE) with
      heq | ⟨hi, -⟩
    · rw [heq, hm.pages, if_neg fun hi => by
        have := (inPages_div hpsdvd (fileLen_dvd ph)).mp hi
        omega] at hpg
      have := h.past _ pg hpg
      omega
    · have := (inPages_div hn.next_dvd hn.len_dvd).mp hi
      omega

lemma le_foldr_max {l : List ℕ} {a : ℕ} (h : a ∈ l) : a ≤ l.foldr max 0 := by
  induction l with
  | nil => cases h
  | cons b l ih =>
    rw [List.foldr_cons]
    rcases List.mem_cons.mp h with rfl | h
    · exact Nat.le_max_left _ _
    · exact (ih h).trans (Nat.le_max_right _ _)

/-- The break has room for the end of every segment. -/
lemma Loaded.brk {elf : ElfImage} (h : Loaded fd f m elf) (hph : ph ∈ f.segments) :
    ph.p_vaddr.toNat + ph.p_memsz.toNat < ASPACE_SIZE := by
  obtain ⟨m', elf', -, -, hbrk⟩ := h
  have hle := le_foldr_max (List.mem_map_of_mem (f := fun ph : Elf32Phdr =>
    ph.p_vaddr.toNat + ph.p_memsz.toNat) hph)
  rw [← hbrk] at hle
  exact Nat.lt_of_le_of_lt hle elf'.brk.isLt

/-- The pages of a loaded segment are mapped for it right after its round. -/
lemma Loaded.mapped {s1 s2 s' : Mmu × ElfImage} {post : List Elf32Phdr} {a : ℕ}
    (hpost : loadPhdrs fd s2 post = some s')
    (hload : SegmentLoaded f ph s1.1.host.calls s2.1.host.calls s'.1.host)
    (h1 : ph.p_vaddr.toNat ≤ a) (h2 : a < ph.p_vaddr.toNat + ph.p_memsz.toNat) :
    ∃ pg, s2.1.host.pages (a / PAGE_SIZE) = some pg ∧ s1.1.host.calls ≤ pg.born := by
  obtain ⟨⟨pg, hpg, -, hlo, hhi⟩, -⟩ := hload a h1 h2
  exact ⟨pg, (asked_loadPhdrs hpost).born hpg hhi, hlo⟩

lemma segmentOk_of_loaded {elf : ElfImage} (hw : WellFormed f) (hg : Grants fd f m.host)
    (h : Loaded fd f m elf) (hph : ph ∈ f.segments) : SegmentOk ph := by
  have hbrk := h.brk hph
  have hp := hw.proper ph hph
  obtain ⟨pre, post, s1, m2, s2, s', -, h1, hm2, rfl, hpost, -, hload⟩ := h.round hw hph
  have hg1 := hg.asked (asked_loadPhdrs h1)
  refine ⟨hbrk, fun hf => (mapSegment_file hp hg1 hbrk hf hm2).1, fun hf hm h0 => ?_,
    fun hf hlt => ?_⟩
  · rw [Mmu.mapSegment, if_neg (not_not.mpr hf), if_pos hm] at hm2
    obtain ⟨⟨r, m3⟩, h3, -⟩ := Option.bind_eq_some_iff.mp hm2
    have hpos := (Mmu.mmap_fixed_eq_some anon_fixed (zeroLen_dvd ph) h3).1.1
    have hm0 := ne_zero_iff.mp hm
    have hps := toNat_vaddr_ps ph
    simp only [ASPACE_SIZE] at hbrk
    have hlen := toNat_roundup_add ph ph.p_memsz hbrk
    rw [← roundupPage32_eq, ← Elf32Phdr.zeroLen, h0, toNat_zero32] at hlen
    rw [h0, toNat_zero32] at hpos
    split at hlen <;> omega
  · obtain ⟨hne, m1, hm, -, hbss⟩ := mapSegment_file hp hg1 hbrk hf hm2
    exact bssOk_of_mapped hp hbrk hf hne hlt hm (hbss hlt) fun a ha1 ha2 =>
      Loaded.mapped hpost hload ha1 ha2

/-- A segment that wraps around maps the first page. -/
lemma wrap_of_loaded {elf : ElfImage} (hw : WellFormed f) (hg : Grants fd f m.host)
    (h : Loaded fd f m elf) {ph' : Elf32Phdr} (hph : ph ∈ f.segments) (hph' : ph' ∈ f.segments)
    (hf : ph.p_filesz ≠ 0) (hlt : ph.p_filesz < ph.p_memsz) (h0 : ph.bss_start_nextp = 0)
    (hm' : ph'.p_memsz ≠ 0) : 4096 ≤ ph'.p_vaddr.toNat := by
  by_contra hlow
  have ho := segmentOk_of_loaded hw hg h hph
  have hp := hw.proper ph hph
  have hn := bssNumbers (by simpa only [ASPACE_SIZE] using ho.brk) hf hlt
  have hhigh := wrapped_apart hp ho hn hf h0
  have hm0 := ne_zero_iff.mp hm'
  obtain ⟨pre, post, s1, m2, s2, s', heq, h1, hm2, rfl, hpost, hrun, hload⟩ := h.round hw hph
  have hg1 := hg.asked (asked_loadPhdrs h1)
  -- the other segment comes first
  have hpre : ph' ∈ pre := by
    obtain ⟨hmem, ht'⟩ := mem_segments.mp hph'
    rw [heq, List.mem_append, List.mem_cons] at hmem
    rcases hmem with hmem | rfl | hmem
    · exact hmem
    · omega
    · have hpair := hw.ascending
      rw [HostFile.segments, heq, List.filter_append, List.pairwise_append,
        List.filter_cons_of_pos (by simpa using (mem_segments.mp hph).2),
        List.pairwise_cons] at hpair
      have := hpair.2.1.1 ph' (List.mem_filter.mpr ⟨hmem, by simpa using ht'⟩)
      simp only [PagesBefore, PAGE_SIZE] at this
      omega
  -- the first page is mapped anew
  have hpage : ∃ pg, s2.1.host.pages 0 = some pg ∧ s1.1.host.calls ≤ pg.born := by
    obtain ⟨hne, m1, hm, hg2, hbss⟩ := mapSegment_file hp hg1 ho.brk hf hm2
    obtain ⟨hin, hasked, -⟩ := mapBss_eq_some (hbss hlt)
    obtain ⟨-, -, -, c4, -⟩ := Host.mmap_anon_granted m1.host ph.bss_start_nextp.toNat
      ph.bss_len.toNat ph.prot (-1)
      (show (MAP_FIXED ||| MAP_PRIVATE ||| MAP_ANON) &&& MAP_ANON ≠ 0 by decide) hn.next_dvd
      (hg2.all _)
    have hpos := hin.1
    have hdvd := hn.len_dvd
    refine ⟨⟨ph.prot, m1.host.calls⟩, ?_, by rw [hm.calls]; exact Nat.le_succ _⟩
    rw [(hasked.pages 0).resolve_right fun hno => hno.1, afterBss, c4, if_pos]
    rw [h0, toNat_zero32] at hpos ⊢
    exact ⟨le_rfl, by simp only [PAGE_SIZE]; omega⟩
  obtain ⟨pg, hpg, hborn⟩ := hpage
  -- so it is no longer that of the other segment
  obtain ⟨m', elf', hloadElf, hseg, -⟩ := h
  obtain ⟨pre1, pre2, rfl⟩ := List.append_of_mem hpre
  rw [loadElf_eq hw, hrun, Option.some.injEq] at hloadElf
  rw [loadPhdrs_append] at h1
  obtain ⟨t1, g1, h1⟩ := Option.bind_eq_some_iff.mp h1
  obtain ⟨t2, g2, g3⟩ := FoldM.foldlM_cons_eq_some.mp h1
  have hload' := hseg pre1 ph' (pre2 ++ ph :: post) t1 t2 (by rw [heq]; simp)
    (mem_segments.mp hph').2 g1 g2
  obtain ⟨⟨pg', hpg', -, -, hlt'⟩, -⟩ := hload' ph'.p_vaddr.toNat le_rfl (by omega)
  rw [show ph'.p_vaddr.toNat / PAGE_SIZE = 0 from
    Nat.div_eq_of_lt (by simp only [PAGE_SIZE]; omega)] at hpg'
  have hc1 := (asked_loadPhdrs (show loadPhdrs fd t2 pre2 = some s1 from g3)).calls
  have hc2 := (asked_mapSegment hm2).calls
  have hold := (asked_loadPhdrs hpost).born (by rw [hloadElf]; exact hpg') (by omega)
  rw [hold, Option.some.injEq] at hpg
  subst hpg
  omega

/-- If the host grants all mappings, a well-formed executable is loaded if and only if the sizes
computed for its segments are right. -/
theorem loaded_iff (fd : BitVec 32) (f : HostFile) (m : Mmu) (elf : ElfImage) (hw : WellFormed f)
    (hg : Grants fd f m.host) : Loaded fd f m elf ↔ LoadsOk f := by
  refine ⟨fun h => ⟨fun ph hph => segmentOk_of_loaded hw hg h hph,
    fun ph hph hf hlt h0 ph' hph' hm' => wrap_of_loaded hw hg h hph hph' hf hlt h0 hm'⟩,
    loaded_of_loadsOk hw hg⟩

end

/-! ### Two executables -/

/-- An executable of one segment, with a file of two pages. -/
def elfFile (vaddr offset filesz memsz flags : BitVec 32) : HostFile :=
  let m : ByteMem := fun _ => 0
  let m : ByteMem := m.store 0 4 ELFMAG
  let m : ByteMem := m.store 16 2 ET_EXEC
  let m : ByteMem := m.store 18 2 EM_RISCV
  let m : ByteMem := m.store 24 4 vaddr
  let m : ByteMem := m.store 28 4 (52 : BitVec 32)
  let m : ByteMem := m.store 44 2 (1 : BitVec 16)
  let m : ByteMem := m.store 52 4 PT_LOAD
  let m : ByteMem := m.store 56 4 offset
  let m : ByteMem := m.store 60 4 vaddr
  let m : ByteMem := m.store 68 4 filesz
  let m : ByteMem := m.store 72 4 memsz
  let m : ByteMem := m.store 76 4 flags
  ⟨8192, m⟩

/-- Its header and its segment are those that have been put there. -/
lemma elfFile_segments : (elfFile 0x10F00 0xF00 0x10 0x1F10 6).segments =
    [⟨PT_LOAD, 0xF00, 0x10F00, 0x10, 0x1F10, 6⟩] ∧
    (elfFile 0x10F00 0xF00 0x10 0x80 6).segments =
      [⟨PT_LOAD, 0xF00, 0x10F00, 0x10, 0x80, 6⟩] := ⟨rfl, rfl⟩

/-- The host has the file and grants everything. -/
def grantingHost (f : HostFile) : Mmu :=
  .init (fun _ => some f) (fun _ => .placed 0) 0x10000

theorem loaded_iff_small :
    Loaded 3 (elfFile 0x10F00 0xF00 0x10 0x80 6) (grantingHost (elfFile 0x10F00 0xF00 0x10 0x80 6))
        ⟨⟨0, 0, 0, 0, 0, 0⟩, 0, 0, 0, 0⟩ ↔
      LoadsOk (elfFile 0x10F00 0xF00 0x10 0x80 6) := by
  refine loaded_iff 3 (elfFile 0x10F00 0xF00 0x10 0x80 6) _ _
    ⟨by decide, rfl, rfl, rfl, by decide, ?_, ?_⟩ ⟨rfl, fun _ => ⟨0, rfl⟩⟩
  · rw [elfFile_segments.2]
    simp only [List.mem_singleton, forall_eq]
    exact ⟨by decide, rfl, by decide, by decide⟩
  · rw [elfFile_segments.2]
    exact List.pairwise_singleton _ _

/-- A segment whose anonymous part starts in the last bytes of a page and ends at the start of
another is not loaded to its end. -/
theorem not_loaded_gap :
    WellFormed (elfFile 0x10F00 0xF00 0x10 0x1F10 6) ∧
      Grants 3 (elfFile 0x10F00 0xF00 0x10 0x1F10 6)
        (grantingHost (elfFile 0x10F00 0xF00 0x10 0x1F10 6)).host ∧
      ¬ Loaded 3 (elfFile 0x10F00 0xF00 0x10 0x1F10 6)
        (grantingHost (elfFile 0x10F00 0xF00 0x10 0x1F10 6)) ⟨⟨0, 0, 0, 0, 0, 0⟩, 0, 0, 0, 0⟩ := by
  have hw : WellFormed (elfFile 0x10F00 0xF00 0x10 0x1F10 6) := by
    refine ⟨by decide, rfl, rfl, rfl, by decide, ?_, ?_⟩
    · rw [elfFile_segments.1]
      simp only [List.mem_singleton, forall_eq]
      exact ⟨by decide, rfl, by decide, by decide⟩
    · rw [elfFile_segments.1]
      exact List.pairwise_singleton _ _
  have hg : Grants 3 (elfFile 0x10F00 0xF00 0x10 0x1F10 6)
      (grantingHost (elfFile 0x10F00 0xF00 0x10 0x1F10 6)).host := ⟨rfl, fun _ => ⟨0, rfl⟩⟩
  refine ⟨hw, hg, fun h => ?_⟩
  have hmem : (⟨PT_LOAD, 0xF00, 0x10F00, 0x10, 0x1F10, 6⟩ : Elf32Phdr) ∈
      (elfFile 0x10F00 0xF00 0x10 0x1F10 6).segments := by
    rw [elfFile_segments.1]
    exact List.mem_singleton_self _
  have hok := segmentOk_of_loaded hw hg h hmem
  have hbss := hok.bss (by decide) (by decide)
  rw [BssOk, if_neg (by decide)] at hbss
  exact absurd hbss.1 (by decide)

end Rv32jit.Env
