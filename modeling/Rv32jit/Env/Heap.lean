/-
# The heap and the other mappings

`env::BootElf`, and the calls of `linux_brk` and `linux_mmap2` after it, in any order.  Ranges of
the guest's memory are recorded as they are obtained: the segments of the executable, the stack,
and the mappings of `mmap2`.
-/
import Rv32jit.Env.LoadElf
import Rv32jit.Env.Syscall

namespace Rv32jit.Env

/-- `stk_size`. -/
def stk_size : BitVec 32 := 0x800000

/-- The place of the stack. -/
def stk_addr : BitVec 32 := .ofNat 32 (ASPACE_SIZE - PAGE_SIZE - stk_size.toNat)

/-- `env::BootElf`, after the file has been opened. -/
def BootElf (fd : BitVec 32) (f : HostFile) (m : Mmu) (elf : ElfImage) :
    Option (Process × ElfImage) := do
  let (m, elf) ← loadElf fd f m elf
  let (stk_ptr, m) ← m.mmap stk_addr stk_size (PROT_READ ||| PROT_WRITE)
    (MAP_ANON ||| MAP_PRIVATE ||| MAP_FIXED) (-1) 0
  some (⟨m, elf.brk⟩, { elf with stack_start := m.h2g stk_ptr + stk_size })

/-- A process, with the ranges that it has obtained other than by `linux_brk`. -/
structure HeapState where
  proc : Process
  obtained : List (ℕ × ℕ)

/-- The calls that take memory. -/
inductive HeapCall
  | brk (newbrk : BitVec 32)
  | mmap2 (gaddr len prot flags fd off : BitVec 32)

namespace HeapState

/-- The process after `BootElf`. -/
def boot (fd : BitVec 32) (f : HostFile) (m : Mmu) (elf : ElfImage) : Option HeapState :=
  (BootElf fd f m elf).map fun r =>
    ⟨r.1, (stk_addr.toNat, stk_size.toNat) ::
      f.segments.map fun ph => (ph.p_vaddr.toNat, ph.p_memsz.toNat)⟩

/-- The range that a call of `mmap2` obtains, if it does not fail. -/
def newRange (p : Process) (gaddr len prot flags fd off : BitVec 32) : List (ℕ × ℕ) :=
  match p.mmu.mmap gaddr len prot flags fd off.toNat with
  | some (some hptr, _) => [(hptr, (roundupPage len).toNat)]
  | _ => []

/-- One call; nothing where it does not return. -/
def step (s : HeapState) : HeapCall → Option HeapState
  | .brk newbrk => (linux_brk s.proc newbrk).map fun r => { s with proc := r.2 }
  | .mmap2 gaddr len prot flags fd off =>
      (linux_mmap2 s.proc gaddr len prot flags fd off).map fun r =>
        ⟨r.2, newRange s.proc gaddr len prot flags fd off ++ s.obtained⟩

variable (s s' : HeapState)

/-- The address is in a range that has been obtained. -/
def Obtained (x : ℕ) : Prop := ∃ r ∈ s.obtained, r.1 ≤ x ∧ x < r.1 + r.2

/-- The bytes and the mappings of all ranges that had been obtained are the same. -/
def Spared : Prop := s.proc.host.Keeps s.Obtained s'.proc.host

/-- All calls of `linux_brk` in a run spare what had been obtained before. -/
def BrkSpares : HeapState → List HeapCall → Prop
  | _, [] => True
  | s, c :: calls => ∀ s', s.step c = some s' →
      (∀ newbrk, c = .brk newbrk → s.Spared s') ∧ BrkSpares s' calls

/-! ### When a call of `linux_brk` spares everything -/

/-- The number of bytes that the call clears, from the old break on: to the new one, or to the end
of the page. -/
def tail (newbrk : BitVec 32) : ℕ :=
  if newbrk = s.proc.brk_p then 0
  else min newbrk.toNat s.proc.brk_p.toNat - s.proc.brk.toNat

/-- These bytes can be cleared. -/
def TailWritable (newbrk : BitVec 32) : Prop :=
  s.tail newbrk = 0 ∨ s.proc.host.writable (s.proc.brk.toNat / PAGE_SIZE)

/-- Nothing that has been obtained is in the pages that the heap grows by, or in the bytes that
the call clears, unless it is zero.  This matters only if the call raises the break, is given its
pages by the host and does not cause a memory fault. -/
def BrkApart (newbrk : BitVec 32) : Prop :=
  s.proc.brk < newbrk → (s.proc.brk_p < newbrk → s.proc.Granted newbrk) → s.TailWritable newbrk →
    ∀ x, s.Obtained x →
      (s.proc.brk_p < newbrk →
        Host.Outside s.proc.brk_p.toNat (roundupPage (newbrk - s.proc.brk_p)).toNat x) ∧
      (s.proc.brk.toNat ≤ x → x < s.proc.brk.toNat + s.tail newbrk → s.proc.host.mem x = 0)

/-- This holds whenever `linux_brk` is called in a run. -/
def BrksApart : HeapState → List HeapCall → Prop
  | _, [] => True
  | s, c :: calls => (∀ newbrk, c = .brk newbrk → s.BrkApart newbrk) ∧
      ∀ s', s.step c = some s' → BrksApart s' calls

end HeapState

namespace Host

variable {h h' : Host} {addr len n x : ℕ} {prot : BitVec 32} {content : ByteMem} {P : ℕ → Prop}

lemma pages_place (h : Host) (hx : ¬ Outside addr len x) (haddr : addr % PAGE_SIZE = 0)
    (hlen : len % PAGE_SIZE = 0) :
    (h.place addr len prot content).pages (x / PAGE_SIZE) = some ⟨prot, h.calls⟩ := by
  have hp : addr / PAGE_SIZE ≤ x / PAGE_SIZE ∧ x / PAGE_SIZE < (addr + len) / PAGE_SIZE := by
    simp only [Outside, PAGE_SIZE] at *
    omega
  simp only [place, if_pos hp]

lemma pages_place_outside (h : Host) (hx : Outside addr len x) (haddr : addr % PAGE_SIZE = 0)
    (hlen : len % PAGE_SIZE = 0) :
    (h.place addr len prot content).pages (x / PAGE_SIZE) = h.pages (x / PAGE_SIZE) := by
  have hp : ¬ (addr / PAGE_SIZE ≤ x / PAGE_SIZE ∧ x / PAGE_SIZE < (addr + len) / PAGE_SIZE) := by
    simp only [Outside, PAGE_SIZE] at *
    omega
  simp only [place, if_neg hp]

lemma mem_place_outside (h : Host) (hx : Outside addr len x) :
    (h.place addr len prot content).mem x = h.mem x := by
  rw [Outside] at hx
  exact if_neg (by omega)

lemma writable_congr {p : ℕ} (heq : h'.pages p = h.pages p) : h'.writable p = h.writable p := by
  rw [writable, writable, heq]

/-- A byte in a page that has been mapped anew is not the byte it was. -/
lemma view_ne_of_born (hpg : h'.pages (x / PAGE_SIZE) = some ⟨prot, h.calls⟩) :
    h'.view x ≠ h.view x := by
  intro heq
  rw [view, view, hpg, Option.map_some] at heq
  obtain ⟨pg, hold, hpair⟩ := Option.map_eq_some_iff.mp heq.symm
  have hborn := h.past _ pg hold
  rw [show pg = ⟨prot, h.calls⟩ from (Prod.ext_iff.mp hpair).1] at hborn
  exact absurd hborn (lt_irrefl _)

/-- Clearing bytes of mapped pages keeps those that are zero already, and changes the rest. -/
lemma view_clear_iff (hpage : addr ≤ x → x < addr + n → (h.pages (x / PAGE_SIZE)).isSome) :
    (h.clear addr n).view x = h.view x ↔ (addr ≤ x → x < addr + n → h.mem x = 0) := by
  by_cases hin : addr ≤ x ∧ x < addr + n
  · obtain ⟨pg, hpg⟩ := Option.isSome_iff_exists.mp (hpage hin.1 hin.2)
    simp only [view, clear, hpg, Option.map_some, Option.some.injEq, Prod.mk.injEq,
      true_and, hin, true_imp_iff]
    exact eq_comm
  · simp only [view, clear, if_neg hin, true_iff]
    exact fun h1 h2 => absurd ⟨h1, h2⟩ hin

lemma writable_isSome {p : ℕ} (hw : h.writable p) : (h.pages p).isSome := by
  rw [writable] at hw
  split at hw
  · rename_i pg hpg
    rw [hpg]
    rfl
  · cases hw

end Host

namespace HeapState

variable {s s' : HeapState} {newbrk : BitVec 32}

/-- The cleared bytes are in one page. -/
lemma memset_tail (h : Host) (brk : BitVec 32) {n : ℕ}
    (hn : n ≠ 0 → brk.toNat + n ≤ (brk.toNat / PAGE_SIZE + 1) * PAGE_SIZE) :
    h.memset brk.toNat n =
      if n = 0 then some h
      else if h.writable (brk.toNat / PAGE_SIZE) then some (h.clear brk.toNat n) else none := by
  split
  · rename_i h0
    rw [Host.memset, if_pos h0]
  · rename_i h0
    exact Host.memset_eq h0 (Nat.div_mul_le_self _ _) (hn h0)

/-- Clearing the tail of a page. -/
lemma memset_tail_view {h h' : Host} {brk : BitVec 32} {n : ℕ}
    (hn : n ≠ 0 → brk.toNat + n ≤ (brk.toNat / PAGE_SIZE + 1) * PAGE_SIZE)
    (hm : h.memset brk.toNat n = some h') :
    (n = 0 ∨ h.writable (brk.toNat / PAGE_SIZE)) ∧
      h'.pages = h.pages ∧
      ∀ x, h'.view x = h.view x ↔ (brk.toNat ≤ x → x < brk.toNat + n → h.mem x = 0) := by
  rw [memset_tail h brk hn] at hm
  split at hm
  · rename_i h0
    cases hm
    subst h0
    refine ⟨Or.inl rfl, rfl, fun x => iff_of_true rfl fun h1 h2 => ?_⟩
    omega
  · rename_i h0
    split at hm
    · rename_i hw
      cases hm
      refine ⟨Or.inr hw, rfl, fun x => Host.view_clear_iff fun h1 h2 => ?_⟩
      have hn := hn h0
      have hpage : x / PAGE_SIZE = brk.toNat / PAGE_SIZE := by
        simp only [PAGE_SIZE] at *
        omega
      rw [hpage]
      exact Host.writable_isSome hw
    · cases hm

/-- A mapping, and bytes before it that are cleared. -/
lemma keeps_grown_iff {P : ℕ → Prop} {h h' : Host} {addr len lo hi : ℕ} {prot : BitVec 32}
    {content : ByteMem} (haddr : addr % PAGE_SIZE = 0) (hlen : len % PAGE_SIZE = 0)
    (hpages : h'.pages = (h.place addr len prot content).pages)
    (hview : ∀ x, h'.view x = (h.place addr len prot content).view x ↔
      (lo ≤ x → x < hi → (h.place addr len prot content).mem x = 0)) :
    h.Keeps P h' ↔
      ∀ x, P x → Host.Outside addr len x ∧ (lo ≤ x → x < hi → h.mem x = 0) := by
  have hkeep : h.Keeps (Host.Outside addr len) (h.place addr len prot content) :=
    Host.keeps_place content haddr hlen
  constructor
  · intro hk x hx
    have hout : Host.Outside addr len x := by
      by_contra hin
      have hborn : h'.pages (x / PAGE_SIZE) = some ⟨prot, h.calls⟩ := by
        rw [hpages]
        exact Host.pages_place h hin haddr hlen
      exact Host.view_ne_of_born hborn (hk x hx)
    have hzero := (hview x).mp ((hk x hx).trans (hkeep x hout).symm)
    rw [Host.mem_place_outside h hout] at hzero
    exact ⟨hout, hzero⟩
  · intro hap x hx
    obtain ⟨hout, hzero⟩ := hap x hx
    refine ((hview x).mpr ?_).trans (hkeep x hout)
    rw [Host.mem_place_outside h hout]
    exact hzero

/-! ### One call -/

/-- The numbers of a call that clears the end of a page. -/
lemma tail_of_lt (hlt : s.proc.brk < newbrk) (hltp : newbrk < s.proc.brk_p) :
    (newbrk - s.proc.brk).toNat = s.tail newbrk ∧
      s.proc.brk.toNat + s.tail newbrk ≤ (s.proc.brk.toNat / PAGE_SIZE + 1) * PAGE_SIZE := by
  have hlt' := BitVec.lt_def.mp hlt
  have hltp' := BitVec.lt_def.mp hltp
  have hbrk_p := toNat_roundupPage s.proc.brk
  rw [← Process.brk_p] at hbrk_p
  have htail : s.tail newbrk = newbrk.toNat - s.proc.brk.toNat := by
    rw [tail, if_neg (by rintro rfl; exact absurd hltp (BitVec.lt_irrefl _)),
      min_eq_left hltp'.le]
  refine ⟨by rw [htail, BitVec.toNat_sub_of_le (BitVec.le_def.mpr hlt'.le)], ?_⟩
  rw [htail]
  simp only [PAGE_SIZE]
  split at hbrk_p <;> omega

/-- The numbers of a call that is given more pages.  A break in the last page would make the
length of the mapping zero. -/
lemma tail_of_gt (hlt : s.proc.brk < newbrk) (hltp : s.proc.brk_p < newbrk)
    (hg : s.proc.Granted newbrk) :
    s.proc.brk_p.toNat = (s.proc.brk.toNat + 4095) / 4096 * 4096 ∧
      s.tail newbrk = s.proc.brk_p.toNat - s.proc.brk.toNat ∧
      (s.proc.brk_p - s.proc.brk).toNat = s.tail newbrk ∧
      s.proc.brk.toNat + s.tail newbrk ≤ (s.proc.brk.toNat / PAGE_SIZE + 1) * PAGE_SIZE := by
  have hlt' := BitVec.lt_def.mp hlt
  have hltp' := BitVec.lt_def.mp hltp
  have hbrk_p := toNat_roundupPage s.proc.brk
  rw [← Process.brk_p] at hbrk_p
  have hbrk_p : s.proc.brk_p.toNat = (s.proc.brk.toNat + 4095) / 4096 * 4096 := by
    split at hbrk_p
    · exact hbrk_p
    · exfalso
      refine hg.1 (BitVec.eq_of_toNat_eq ?_)
      rw [toNat_roundupPage, if_neg, toNat_zero32]
      rw [BitVec.toNat_sub_of_le (BitVec.le_def.mpr hltp'.le)]
      omega
  have htail : s.tail newbrk = s.proc.brk_p.toNat - s.proc.brk.toNat := by
    rw [tail, if_neg (by rintro rfl; exact absurd hltp (BitVec.lt_irrefl _)),
      min_eq_right hltp'.le]
  refine ⟨hbrk_p, htail, ?_, ?_⟩
  · rw [htail, BitVec.toNat_sub_of_le (BitVec.le_def.mpr (by omega))]
  · rw [htail]
    simp only [PAGE_SIZE]
    omega

/-- The mapping that the heap grows by does not hold the byte before it. -/
lemma tailWritable_place (hlt : s.proc.brk < newbrk) (hltp : s.proc.brk_p < newbrk)
    (hg : s.proc.Granted newbrk) {p : Process}
    (hhost : p.host = s.proc.host.place s.proc.brk_p.toNat
      (roundupPage (newbrk - s.proc.brk_p)).toNat (PROT_READ ||| PROT_WRITE) fun _ => 0) :
    s.TailWritable newbrk ↔
      s.tail newbrk = 0 ∨ p.host.writable (s.proc.brk.toNat / PAGE_SIZE) := by
  obtain ⟨-, htail, -, -⟩ := tail_of_gt hlt hltp hg
  by_cases h0 : s.tail newbrk = 0
  · exact iff_of_true (Or.inl h0) (Or.inl h0)
  · have hdvd : s.proc.brk_p.toNat % PAGE_SIZE = 0 := by
      rw [Process.brk_p]
      exact roundupPage_dvd _
    have hout : Host.Outside s.proc.brk_p.toNat (roundupPage (newbrk - s.proc.brk_p)).toNat
        s.proc.brk.toNat := Or.inl (by omega)
    rw [TailWritable, hhost,
      Host.writable_congr (Host.pages_place_outside s.proc.host hout hdvd (roundupPage_dvd _))]

lemma brk_spared_iff (h : s.step (.brk newbrk) = some s') : s.Spared s' ↔ s.BrkApart newbrk := by
  have hdoes := linux_brk_does s.proc newbrk
  obtain ⟨⟨rc, p'⟩, hbrk, rfl⟩ := Option.map_eq_some_iff.mp h
  rw [hbrk] at hdoes
  generalize ho : some (rc, p') = o at hdoes
  cases hdoes with
  | keep hle =>
    cases ho
    refine iff_of_true (.refl _ _) fun hlt => ?_
    exact absurd hlt (BitVec.not_lt.mpr hle)
  | full hlt heq =>
    cases ho
    refine iff_of_true (.refl _ _) fun _ _ _ x _ => ⟨fun hltp => ?_, fun h1 h2 => ?_⟩
    · rw [heq] at hltp
      exact absurd hltp (BitVec.lt_irrefl _)
    · rw [tail, if_pos heq] at h2
      omega
  | tail hlt hltp =>
    obtain ⟨h1, hm, heq⟩ := Option.map_eq_some_iff.mp ho.symm
    cases heq
    obtain ⟨hsub, hpage⟩ := tail_of_lt hlt hltp
    rw [hsub] at hm
    obtain ⟨hw, -, hview⟩ := memset_tail_view (fun _ => hpage) hm
    have hngt : ¬ s.proc.brk_p < newbrk := fun hgt =>
      absurd (BitVec.lt_trans hgt hltp) (BitVec.lt_irrefl _)
    constructor
    · intro hs _ _ _ x hx
      exact ⟨fun hgt => absurd hgt hngt, (hview x).mp (hs x hx)⟩
    · intro hap x hx
      exact (hview x).mpr (hap hlt (fun hgt => absurd hgt hngt) hw x hx).2
  | refused hlt hltp hg p1 e hhost =>
    cases ho
    refine iff_of_true ?_ fun _ hgrant => absurd (hgrant hltp) hg
    rw [Spared, hhost]
    exact (Host.keeps_fail _ _ _).trans (Host.keeps_fail _ _ _)
  | grown hlt hltp hg p1 hhost =>
    obtain ⟨h1, hm, heq⟩ := Option.map_eq_some_iff.mp ho.symm
    cases heq
    obtain ⟨-, -, hsub, hpage⟩ := tail_of_gt hlt hltp hg
    rw [hsub] at hm
    obtain ⟨hw, hpages, hview⟩ := memset_tail_view (fun _ => hpage) hm
    have hw := (tailWritable_place hlt hltp hg hhost).mpr hw
    have hdvd : s.proc.brk_p.toNat % PAGE_SIZE = 0 := by
      rw [Process.brk_p]
      exact roundupPage_dvd _
    rw [hhost] at hpages hview
    have hiff := keeps_grown_iff (P := s.Obtained) hdvd (roundupPage_dvd _) hpages hview
    refine hiff.trans ⟨fun hap _ _ _ x hx => ?_, fun hap x hx => ?_⟩
    · exact ⟨fun _ => (hap x hx).1, (hap x hx).2⟩
    · obtain ⟨hout, hzero⟩ := hap hlt (fun _ => hg) hw x hx
      exact ⟨hout hltp, hzero⟩

/-- A call that ends in a memory fault has not got as far as clearing the tail. -/
lemma brkApart_of_fault (h : s.step (.brk newbrk) = none) : s.BrkApart newbrk := by
  have hdoes := linux_brk_does s.proc newbrk
  rw [step, Option.map_eq_none_iff] at h
  rw [h] at hdoes
  generalize ho : (none : Option (BitVec 32 × Process)) = o at hdoes
  -- a failed `memset` of a part of a page
  have key : ∀ (host : Host) (n : ℕ),
      s.proc.brk.toNat + n ≤ (s.proc.brk.toNat / PAGE_SIZE + 1) * PAGE_SIZE →
      host.memset s.proc.brk.toNat n = none →
      ¬ (n = 0 ∨ host.writable (s.proc.brk.toNat / PAGE_SIZE)) := by
    intro host n hpage hm hw
    rw [memset_tail host s.proc.brk fun _ => hpage] at hm
    rcases hw with h0 | hw
    · rw [if_pos h0] at hm
      cases hm
    · rw [if_pos hw] at hm
      split at hm <;> cases hm
  cases hdoes with
  | keep hle => cases ho
  | full hlt heq => cases ho
  | tail hlt hltp =>
    obtain ⟨hsub, hpage⟩ := tail_of_lt hlt hltp
    have hm := Option.map_eq_none_iff.mp ho.symm
    rw [hsub] at hm
    exact fun _ _ hw => absurd hw (key _ _ hpage hm)
  | refused hlt hltp hg p1 e hhost => cases ho
  | grown hlt hltp hg p1 hhost =>
    obtain ⟨-, -, hsub, hpage⟩ := tail_of_gt hlt hltp hg
    have hm := Option.map_eq_none_iff.mp ho.symm
    rw [hsub] at hm
    exact fun _ _ hw => absurd ((tailWritable_place hlt hltp hg hhost).mp hw) (key _ _ hpage hm)

/-! ### Runs -/

lemma brkSpares_iff_brksApart (s : HeapState) (calls : List HeapCall) :
    s.BrkSpares calls ↔ s.BrksApart calls := by
  induction calls generalizing s with
  | nil => exact Iff.rfl
  | cons c calls ih =>
    constructor
    · intro hs
      refine ⟨?_, fun s' hstep => (ih s').mp (hs s' hstep).2⟩
      rintro newbrk rfl
      cases hstep : s.step (.brk newbrk) with
      | none => exact brkApart_of_fault hstep
      | some s' => exact (brk_spared_iff hstep).mp ((hs s' hstep).1 newbrk rfl)
    · intro ha s' hstep
      refine ⟨?_, (ih s').mpr (ha.2 s' hstep)⟩
      rintro newbrk rfl
      exact (brk_spared_iff hstep).mpr (ha.1 newbrk rfl)

end HeapState

/-- In a run of `brk` and `mmap2` after an executable has been loaded, every `brk` spares the
segments, the stack and all earlier mappings if and only if, whenever it is called, none of them
lies in the pages that the heap grows by or holds a byte other than zero that is cleared. -/
theorem brkSpares_iff (fd : BitVec 32) (f : HostFile) (m : Mmu) (elf : ElfImage)
    (calls : List HeapCall) :
    (∀ s, HeapState.boot fd f m elf = some s → s.BrkSpares calls) ↔
      ∀ s, HeapState.boot fd f m elf = some s → s.BrksApart calls :=
  forall₂_congr fun s _ => HeapState.brkSpares_iff_brksApart s calls

/-! ### A mapping after the heap -/

/-- An executable whose break is in the middle of a page, on a host that puts mappings into the
next one. -/
def heapState : Option HeapState :=
  HeapState.boot 3 (elfFile 0x10F00 0xF00 0x10 0x80 6)
    (.init (fun _ => some (elfFile 0x10F00 0xF00 0x10 0x80 6)) (fun _ => .placed 0x11000) 0x10000)
    ⟨⟨0, 0, 0, 0, 0, 0⟩, 0, 0, 0, 0⟩

/-- A page is mapped anywhere, and then the heap grows. -/
def growCalls : List HeapCall :=
  [.mmap2 0 0x1000 (PROT_READ ||| PROT_WRITE) (MAP_ANON ||| MAP_PRIVATE) (-1) 0, .brk 0x11010]

/-- The page that has been mapped is mapped anew by `brk`. -/
theorem not_brkSpares_grow : ∃ s, heapState = some s ∧ ¬ s.BrkSpares growCalls := by
  have hrun : (heapState.bind fun s => (s.step growCalls[0]).bind fun s1 =>
      (s1.step growCalls[1]).map fun s2 => (s1.obtained.head?,
        (s1.proc.host.pages 0x11).map (·.born), (s2.proc.host.pages 0x11).map (·.born))) =
      some (some (0x11000, 0x1000), some 5, some 6) := by decide +kernel
  obtain ⟨s, hs, hrun⟩ := Option.bind_eq_some_iff.mp hrun
  obtain ⟨s1, hs1, hrun⟩ := Option.bind_eq_some_iff.mp hrun
  obtain ⟨s2, hs2, hrun⟩ := Option.map_eq_some_iff.mp hrun
  simp only [Prod.mk.injEq] at hrun
  obtain ⟨hrange, hold, hnew⟩ := hrun
  refine ⟨s, hs, fun hspares => ?_⟩
  have hkeeps := ((hspares s1 hs1).2 s2 hs2).1 _ rfl 0x11000
    ⟨(0x11000, 0x1000), List.mem_of_head? hrange, le_rfl, by decide⟩
  have hborn (h : Host) :
      (h.view 0x11000).map (fun v => v.1.born) = (h.pages 0x11).map (·.born) := by
    rw [Host.view, Option.map_map]
    rfl
  have heq := congrArg (Option.map fun v : Page × BitVec 8 => v.1.born) hkeeps
  rw [hborn, hborn, hold, hnew] at heq
  exact absurd heq (by decide)

end Rv32jit.Env
