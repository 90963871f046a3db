/-
# From an executable to a process

`main` up to `env::Execute`: the executable is loaded, the stack is mapped below the end of the
address space, the arguments are written to it, and the CPU state is set to the entry point.  The
stack goes over what a segment has there.
-/
import Rv32jit.Env.ArgVectors
import Rv32jit.Env.Heap

namespace Rv32jit.Env

open CPUState

/-- What `main` hands to `env::Execute`. -/
structure Booted where
  proc : Process
  cpu : ByteMem

/-- `main` up to `env::Execute`, with the executable open as `fd` and the CPU state as it is
constructed; nothing for a panic, a failed assertion and a memory fault. -/
def boot (ids : HostIds) (fd : BitVec 32) (f : HostFile) (argv : List CString) (cpu : ByteMem)
    (m : Mmu) (elf : ElfImage) : Option Booted := do
  let (p, elf) ← BootElf fd f m elf
  let (elf, mem) := initArgVectors ids elf argv p.host.mem
  let cpu ← initThread cpu elf
  some ⟨p.setHost { p.host with mem := mem }, cpu⟩

/-! ### What a program finds -/

/-- `CPUState state{}`. -/
structure Constructed (cpu : ByteMem) : Prop where
  gpr : ∀ r < 32, gpr cpu r = 0
  trapno : trapno cpu = TrapCode.NONE.toBits

/-- The address of a segment for the start of the file. -/
def Elf32Phdr.bias (ph : Elf32Phdr) : BitVec 32 := ph.p_vaddr - ph.p_offset

/-- The segment has the program header table, and is the one that its address is computed from. -/
structure HoldsPhtab (f : HostFile) (ph : Elf32Phdr) : Prop where
  first : ph.p_offset.toNat ≤ f.ehdr.e_phoff.toNat
  last : f.ehdr.e_phoff.toNat + sizeofPhdr * f.ehdr.e_phnum.toNat ≤
    ph.p_offset.toNat + ph.p_filesz.toNat
  least : ∀ ph' ∈ f.segments, ph.bias.toNat ≤ ph'.bias.toNat
  below : ph.p_vaddr.toNat + ph.p_memsz.toNat ≤ stk_addr.toNat

/-- The auxiliary vector tells the entry point, and where the program header table is in memory. -/
structure AuxvTells (f : HostFile) (mem : ByteMem) (auxv : List (BitVec 32 × BitVec 32)) :
    Prop where
  entry : (9, f.ehdr.e_entry) ∈ auxv
  phent : (4, .ofNat 32 sizeofPhdr) ∈ auxv
  phnum : (5, f.ehdr.e_phnum.setWidth 32) ∈ auxv
  phdr : ∀ ph ∈ f.segments, HoldsPhtab f ph → ∃ a, (3, a) ∈ auxv ∧
    ∀ i < sizeofPhdr * f.ehdr.e_phnum.toNat, mem (a.toNat + i) = f.byte (f.ehdr.e_phoff.toNat + i)

/-- The end of the stack. -/
def stk_top : ℕ := stk_addr.toNat + stk_size.toNat

/-- The memory and the CPU state of a program at its start: the segments with their protections
outside of the stack, the arguments on the stack, and the registers. -/
structure Started (f : HostFile) (argv : List CString) (h : Host) (cpu : ByteMem) : Prop where
  ip : ip cpu = f.ehdr.e_entry
  gpr : ∀ r < 32, r ≠ 2 → CPUState.gpr cpu r = 0
  trapno : CPUState.trapno cpu = TrapCode.NONE.toBits
  segments : ∀ ph ∈ f.segments, ∀ a, ph.p_vaddr.toNat ≤ a →
    a < ph.p_vaddr.toNat + ph.p_memsz.toNat → Host.Outside stk_addr.toNat stk_size.toNat a →
    (h.pages (a / PAGE_SIZE)).map Page.prot = some ph.prot ∧
      h.mem a = if a < ph.p_vaddr.toNat + ph.p_filesz.toNat then
        f.byte (ph.p_offset.toNat + (a - ph.p_vaddr.toNat)) else 0
  stack : ∀ a, ¬ Host.Outside stk_addr.toNat stk_size.toNat a →
    (h.pages (a / PAGE_SIZE)).map Page.prot = some (PROT_READ ||| PROT_WRITE)
  args : ∃ t, Presents h.mem (CPUState.gpr cpu 2).toNat stk_addr.toNat stk_top argv t ∧
    AuxvTells f h.mem t.auxv

/-! ### The executable -/

variable {f : HostFile} {ph : Elf32Phdr} {fd : BitVec 32} {s s' : Mmu × ElfImage}
  {l : List Elf32Phdr} {m : Mmu} {elf : ElfImage}

lemma foldr_min_min (k : List ℕ) (a b : ℕ) :
    k.foldr min (min a b) = min a (k.foldr min b) := by
  induction k with
  | nil => rfl
  | cons c k ih => rw [List.foldr_cons, ih, List.foldr_cons, min_left_comm]

lemma foldr_min_le {k : List ℕ} {a b : ℕ} (h : a ∈ k) : k.foldr min b ≤ a := by
  induction k with
  | nil => cases h
  | cons c k ih =>
    rw [List.foldr_cons]
    rcases List.mem_cons.mp h with rfl | h
    · exact Nat.min_le_left _ _
    · exact (Nat.min_le_right _ _).trans (ih h)

lemma le_foldr_min {k : List ℕ} {a b : ℕ} (hb : a ≤ b) (h : ∀ c ∈ k, a ≤ c) :
    a ≤ k.foldr min b := by
  induction k with
  | nil => exact hb
  | cons c k ih =>
    exact le_min (h c List.mem_cons_self) (ih fun c hc => h c (List.mem_cons_of_mem _ hc))

/-- What a run of the loop makes of what is known of the executable: the least of the addresses for
the start of the file, and otherwise only the break. -/
lemma image_loadPhdrs (h : loadPhdrs fd s l = some s') :
    s'.2.ehdr = s.2.ehdr ∧ s'.2.entry = s.2.entry ∧
      s'.2.load_addr.toNat = ((l.filter fun ph => ph.p_type = PT_LOAD).map fun ph =>
        ph.bias.toNat).foldr min s.2.load_addr.toNat := by
  induction l generalizing s with
  | nil =>
    cases h
    exact ⟨rfl, rfl, rfl⟩
  | cons ph l ih =>
    obtain ⟨s1, h1, h2⟩ := FoldM.foldlM_cons_eq_some.mp h
    obtain ⟨hehdr, hentry, hload⟩ := ih h2
    rw [loadPhdr] at h1
    split at h1
    · rename_i ht
      cases h1
      rw [List.filter_cons_of_neg (by simpa using ht)]
      exact ⟨hehdr, hentry, hload⟩
    · rename_i ht
      obtain ⟨m1, h3, h4⟩ := Option.bind_eq_some_iff.mp h1
      cases h4
      refine ⟨hehdr, hentry, ?_⟩
      rw [hload, List.filter_cons_of_pos (by simpa using ht), List.map_cons, List.foldr_cons]
      rw [← foldr_min_min]
      congr 1
      simp only [BitVec.lt_def, Elf32Phdr.bias]
      split <;> omega

lemma toNat_neg_one32 : (-1 : BitVec 32).toNat = 4294967295 := by decide

/-- The executable is loaded with all its segments. -/
lemma loadElf_ok (elf : ElfImage) (hw : WellFormed f) (ho : LoadsOk f) (hg : Grants fd f m.host) :
    ∃ m' elf', loadElf fd f m elf = some (m', elf') ∧ Grants fd f m'.host ∧
      elf'.ehdr = f.ehdr ∧ elf'.entry = f.ehdr.e_entry ∧
      (∀ ph ∈ f.segments, (∀ ph' ∈ f.segments, ph.bias.toNat ≤ ph'.bias.toNat) →
        elf'.load_addr = ph.bias) ∧
      ∀ ph ∈ f.segments, ∃ lo hi, SegmentLoaded f ph lo hi m'.host := by
  have hload : Loaded fd f m elf := loaded_of_loadsOk hw hg ho
  obtain ⟨m', elf', heq, -⟩ := id hload
  have hrun := heq
  rw [loadElf_eq hw] at hrun
  obtain ⟨hehdr, hentry, haddr⟩ := image_loadPhdrs hrun
  refine ⟨m', elf', heq, hg.asked (asked_loadPhdrs hrun), hehdr, hentry, fun ph hph hleast => ?_,
    fun ph hph => ?_⟩
  · refine BitVec.eq_of_toNat_eq (haddr.trans (le_antisymm ?_ ?_))
    · exact foldr_min_le (List.mem_map_of_mem (f := fun ph : Elf32Phdr => ph.bias.toNat) hph)
    · refine le_foldr_min ?_ fun c hc => ?_
      · have hlt := ph.bias.isLt
        have hmax : (m, startImage f elf).2.load_addr.toNat = 4294967295 := toNat_neg_one32
        omega
      · obtain ⟨ph', hph', rfl⟩ := List.mem_map.mp hc
        exact hleast ph' hph'
  · obtain ⟨pre, post, s1, m2, s2, s', -, -, -, -, -, hrun', hseg⟩ := hload.round hw hph
    rw [hrun, Option.some.injEq] at hrun'
    subst hrun'
    exact ⟨_, _, hseg⟩

/-! ### The stack -/

lemma toNat_stk_addr : stk_addr.toNat = 0xFF7FF000 := by decide

lemma toNat_stk_size : stk_size.toNat = 0x800000 := by decide

lemma stk_top_eq : stk_top = 0xFFFFF000 := by rw [stk_top, toNat_stk_addr, toNat_stk_size]

lemma toNat_stk_end : (stk_addr + stk_size).toNat = stk_top := by
  rw [BitVec.toNat_add, toNat_stk_addr, toNat_stk_size, stk_top_eq]

/-- The host maps the stack where `BootElf` wants it. -/
lemma mmap_stack (m : Mmu) (hg : ∃ a, m.host.answers m.host.calls = .placed a) :
    ∃ m', m.mmap stk_addr stk_size (PROT_READ ||| PROT_WRITE)
        (MAP_ANON ||| MAP_PRIVATE ||| MAP_FIXED) (-1) 0 = some (some stk_addr.toNat, m') ∧
      m'.host = m.host.place stk_addr.toNat stk_size.toNat (PROT_READ ||| PROT_WRITE)
        fun _ => 0 := by
  have hplaced : m.host.mmap (some stk_addr.toNat) stk_size.toNat (PROT_READ ||| PROT_WRITE)
      (MAP_ANON ||| MAP_PRIVATE ||| MAP_FIXED) (-1) 0 =
      (some stk_addr.toNat, m.host.place stk_addr.toNat stk_size.toNat (PROT_READ ||| PROT_WRITE)
        fun _ => 0) :=
    Host.mmap_fixed_placed (by rw [toNat_stk_size]; decide) (by rw [toNat_stk_addr]; decide)
      (by decide) (if_pos (by decide)) hg
  rw [Mmu.mmap_fixed (by decide) (by rw [toNat_stk_size]), if_pos, Mmu.mmapFixed, hplaced]
  · exact ⟨_, rfl, rfl⟩
  · rw [Mmu.inAspace_iff, Mmu.InAspace, toNat_stk_addr, toNat_stk_size]
    decide

/-- `BootElf` loads the executable, and then maps the stack. -/
lemma bootElf_ok (elf : ElfImage) (hw : WellFormed f) (ho : LoadsOk f) (hg : Grants fd f m.host) :
    ∃ p elf', BootElf fd f m elf = some (p, elf') ∧ elf'.ehdr = f.ehdr ∧
      elf'.entry = f.ehdr.e_entry ∧ elf'.stack_start.toNat = stk_top ∧
      (∀ ph ∈ f.segments, (∀ ph' ∈ f.segments, ph.bias.toNat ≤ ph'.bias.toNat) →
        elf'.load_addr = ph.bias) ∧
      ∃ h : Host, p.host = h.place stk_addr.toNat stk_size.toNat (PROT_READ ||| PROT_WRITE)
          (fun _ => 0) ∧
        ∀ ph ∈ f.segments, ∃ lo hi, SegmentLoaded f ph lo hi h := by
  obtain ⟨m1, elf1, heq, hg1, hehdr, hentry, haddr, hseg⟩ := loadElf_ok elf hw ho hg
  obtain ⟨m2, hmmap, hhost⟩ := mmap_stack m1 (hg1.all _)
  refine ⟨⟨m2, elf1.brk⟩, { elf1 with stack_start := m2.h2g (some stk_addr.toNat) + stk_size },
    ?_, hehdr, hentry, ?_, haddr, m1.host, hhost, hseg⟩
  · simp only [BootElf, heq, hmmap, Option.bind_eq_bind, Option.bind_some]
  · have hh2g : m2.h2g (some stk_addr.toNat) = stk_addr := BitVec.ofNat_toNat 32 stk_addr
    rw [hh2g, toNat_stk_end]

/-! ### The arguments -/

namespace ArgStack

variable {st : ArgStack} {x : ℕ}

/-- Nothing below the end of the stack is written. -/
lemma allocBytes_below (bytes : List (BitVec 8)) (sz : BitVec 16)
    (hx : x < (st.allocBytes bytes sz).stk.toNat) : (st.allocBytes bytes sz).mem x = st.mem x :=
  ByteMem.storeBytes_of_notMem _ (Or.inl hx)

lemma allocArgv_below {argv : List CString} (hstk : totalSize argv ≤ st.stk.toNat)
    (hx : x < (allocArgv argv st).2.stk.toNat) : (allocArgv argv st).2.mem x = st.mem x := by
  induction argv generalizing st with
  | nil => rfl
  | cons str argv ih =>
    rw [totalSize_cons] at hstk
    have hle := copySize_le str
    obtain ⟨h1, -, -⟩ := allocStr_spec st str (by omega)
    have hrest : totalSize argv ≤ (st.allocStr str).stk.toNat := by omega
    obtain ⟨-, -, h2, -⟩ := allocArgv_frame (st.allocStr str) argv hrest
    simp only [allocArgv] at hx ⊢
    rw [ih hrest hx]
    exact allocBytes_below _ _ (hx.trans_le h2)

end ArgStack

variable {ids : HostIds} {argv : List CString} {mem : ByteMem} {base x : ℕ}

/-- The strings that are copied first lie between the end of the stack and its end before. -/
lemma allocFixed_frame (elf : ElfImage) (mem : ByteMem) (h : fixedSize ≤ elf.stack_start.toNat)
    (hx : x < (allocFixed ⟨elf.stack_start, mem⟩).rest.stk.toNat ∨ elf.stack_start.toNat ≤ x) :
    (allocFixed ⟨elf.stack_start, mem⟩).rest.mem x = mem x := by
  obtain ⟨h1, h2, h3, h4, -⟩ := allocFixed_spec elf mem h
  rw [h4] at hx
  obtain ⟨s0, hs0⟩ : ∃ s0 : ArgStack, s0 = ⟨elf.stack_start, mem⟩ := ⟨_, rfl⟩
  have htop : s0.stk.toNat = elf.stack_start.toNat := by rw [hs0]
  have hmem : s0.mem x = mem x := by rw [hs0]
  rw [← hs0] at h1 h2 h3 hx ⊢
  obtain ⟨s1, hs1⟩ : ∃ s1, s1 = s0.allocStr fooStr := ⟨_, rfl⟩
  obtain ⟨s2, hs2⟩ : ∃ s2, s2 = s1.allocStr lcAllStr := ⟨_, rfl⟩
  obtain ⟨s3, hs3⟩ : ∃ s3, s3 = s2.allocBytes auxvSalt 16 := ⟨_, rfl⟩
  have hfixed : allocFixed s0 = ⟨s1.stk, s2.stk, s3.stk, s3⟩ := by
    rw [allocFixed, hs3, hs2, hs1]
  rw [hfixed] at h1 h2 h3 hx ⊢
  simp only at h1 h2 h3 hx ⊢
  rcases hx with hx | hx
  · -- below all of them
    have hx₂ : x < s2.stk.toNat := by omega
    have hx₁ : x < s1.stk.toNat := by omega
    rw [hs3] at hx ⊢
    rw [ArgStack.allocBytes_below _ _ hx]
    rw [hs2] at hx₂ ⊢
    rw [ArgStack.allocStr, ArgStack.allocBytes_below _ _ hx₂]
    rw [hs1] at hx₁ ⊢
    rw [ArgStack.allocStr, ArgStack.allocBytes_below _ _ hx₁, hmem]
  · obtain ⟨-, -, a3⟩ := ArgStack.allocStr_spec s0 fooStr (show 12 ≤ s0.stk.toNat by omega)
    obtain ⟨-, -, b3⟩ := ArgStack.allocStr_spec s1 lcAllStr (show 9 ≤ s1.stk.toNat by omega)
    obtain ⟨-, -, c3⟩ := ArgStack.allocBytes_spec (s := s2)
      (show (16 : BitVec 16).toNat ≤ auxvSalt.length by decide) (show 16 ≤ s2.stk.toNat by omega)
    rw [← hs3] at c3
    rw [← hs2] at b3
    rw [← hs1] at a3
    rw [c3 x (by omega), b3 x (by omega), a3 x (by omega), hmem]

/-- `InitArgVectors` writes to the stack only. -/
lemma initArgVectors_frame (ids : HostIds) (mem : ByteMem)
    (hfit : Fits base elf.stack_start.toNat argv) (hx : x < base ∨ elf.stack_start.toNat ≤ x) :
    (initArgVectors ids elf argv mem).2 x = mem x := by
  obtain ⟨hle, -⟩ := hfit.totalSize_le
  have hb := built ids argv mem hfit
  have hbase := hb.base_le
  have hbelow := hb.below
  have hlt := (afterStrings elf argv mem).stk.isLt
  obtain ⟨h1, h2, h3, h4, -⟩ := allocFixed_spec elf mem (by omega)
  rw [fixedSize_eq] at hle
  have hs : (allocFixed ⟨elf.stack_start, mem⟩).rest.stk.toNat =
      (allocFixed ⟨elf.stack_start, mem⟩).auxv_salt_g.toNat := by rw [h4]
  have htot : ArgStack.totalSize argv ≤
      (allocFixed ⟨elf.stack_start, mem⟩).rest.stk.toNat := by omega
  obtain ⟨-, -, f3, f4⟩ := ArgStack.allocArgv_frame
    (allocFixed ⟨elf.stack_start, mem⟩).rest argv htot
  have hafter : (afterStrings elf argv mem).stk.toNat ≤
      (allocFixed ⟨elf.stack_start, mem⟩).rest.stk.toNat := f3
  -- the tables
  obtain ⟨-, htables⟩ := ArgStack.mem_foldl_pushArg (builtTables ids elf argv mem).words
    ⟨(initArgVectors ids elf argv mem).1.stack_start, (afterStrings elf argv mem).mem⟩
    (by simp only; omega)
  have hmem : (initArgVectors ids elf argv mem).2 x = (afterStrings elf argv mem).mem x := by
    rw [initArgVectors_mem]
    exact htables x (by simp only; omega)
  rw [hmem, ← allocFixed_frame elf mem (by rw [fixedSize_eq]; omega) (x := x) (by omega)]
  rcases hx with hx | hx
  · exact ArgStack.allocArgv_below htot (show x < (afterStrings elf argv mem).stk.toNat by omega)
  · exact f4 x (by omega)

/-! ### The start -/

/-- The registers that `InitThread` sets, and that it leaves the others alone. -/
lemma initThread_regs {cpu : ByteMem} (hcpu : Constructed cpu) (h : 16 ∣ elf.stack_start.toNat) :
    ∃ cpu', initThread cpu elf = some cpu' ∧ ip cpu' = elf.entry ∧
      gpr cpu' 2 = elf.stack_start ∧ (∀ r < 32, r ≠ 2 → gpr cpu' r = 0) ∧
      trapno cpu' = TrapCode.NONE.toBits := by
  obtain ⟨cpu', heq, hsp⟩ := initThread_eq cpu h
  refine ⟨cpu', heq, ?_⟩
  rw [initThread] at heq
  split at heq
  · cases heq
  · obtain rfl := Option.some.inj heq
    refine ⟨ip_setIp _ _, hsp, fun r hr hne => ?_, ?_⟩
    · rw [gpr_setIp _ hr, gpr_setGpr_of_ne _ hne]
      exact hcpu.gpr r hr
    · rw [trapno, setIp, ByteMem.load_store_disjoint _ _ (by decide), setGpr,
        ByteMem.load_store_disjoint _ _ (by decide)]
      exact hcpu.trapno

/-- The address of the program header table is where the segment that has it is mapped. -/
lemma toNat_phdr (hp : ProperSegment f ph) (hh : HoldsPhtab f ph)
    (hpos : 0 < sizeofPhdr * f.ehdr.e_phnum.toNat) :
    (f.ehdr.e_phoff + ph.bias).toNat =
      ph.p_vaddr.toNat + (f.ehdr.e_phoff.toNat - ph.p_offset.toNat) := by
  have h1 := hh.first
  have h2 := hh.last
  have h3 := hh.below
  have h4 := hp.filesz_le
  rw [toNat_stk_addr] at h3
  have hoff := ph.p_offset.isLt
  rw [Elf32Phdr.bias, BitVec.toNat_add, BitVec.toNat_sub]
  omega

/-- The auxiliary vector tells the truth about the executable if its segments are in memory. -/
lemma auxvTells (hw : WellFormed f) {salt foo : BitVec 32} {mem : ByteMem}
    (hehdr : elf.ehdr = f.ehdr) (hentry : elf.entry = f.ehdr.e_entry)
    (haddr : ∀ ph ∈ f.segments, (∀ ph' ∈ f.segments, ph.bias.toNat ≤ ph'.bias.toNat) →
      elf.load_addr = ph.bias)
    (hmem : ∀ ph ∈ f.segments, ∀ a, ph.p_vaddr.toNat ≤ a →
      a < ph.p_vaddr.toNat + ph.p_filesz.toNat → a < stk_addr.toNat →
      mem a = f.byte (ph.p_offset.toNat + (a - ph.p_vaddr.toNat))) :
    AuxvTells f mem (auxv ids elf salt foo) := by
  refine ⟨?_, ?_, ?_, fun ph hph hh => ⟨elf.ehdr.e_phoff + elf.load_addr, ?_, fun i hi => ?_⟩⟩
  · rw [← hentry]
    simp [auxv]
  · simp [auxv]
  · rw [← hehdr]
    simp [auxv]
  · simp [auxv]
  · have hp := hw.proper ph hph
    have h1 := hh.first
    have h2 := hh.last
    have h3 := hh.below
    have h4 := hp.filesz_le
    rw [hehdr, haddr ph hph hh.least, toNat_phdr hp hh (by omega),
      hmem ph hph _ (by omega) (by omega) (by omega)]
    congr 1
    omega

/-- A well-formed executable whose segments are loaded is started with its arguments. -/
lemma boot_starts (ids : HostIds) (fd : BitVec 32) (f : HostFile) (argv : List CString)
    (cpu : ByteMem) (m : Mmu) (elf : ElfImage) (hw : WellFormed f) (ho : LoadsOk f)
    (hg : Grants fd f m.host) (hfit : Fits stk_addr.toNat stk_top argv)
    (hshort : ∀ str ∈ argv, str.strlen + 1 < 2 ^ 16) (hcpu : Constructed cpu) :
    ∃ b, boot ids fd f argv cpu m elf = some b ∧ Started f argv b.proc.host b.cpu := by
  obtain ⟨p, elf1, hboot, hehdr, hentry, htop, haddr, h, hhost, hseg⟩ :=
    bootElf_ok elf hw ho hg
  have hfit : Fits stk_addr.toNat elf1.stack_start.toNat argv := by
    rw [htop]
    exact hfit
  obtain ⟨cpu', hthread, hip, hsp, hregs, htrap⟩ :=
    initThread_regs hcpu (built ids argv p.host.mem hfit).aligned
  have hargs : Presents (initArgVectors ids elf1 argv p.host.mem).2
      (initArgVectors ids elf1 argv p.host.mem).1.stack_start.toNat stk_addr.toNat
      elf1.stack_start.toNat argv (builtTables ids elf1 argv p.host.mem) := presents hfit hshort
  have haddr0 : stk_addr.toNat % PAGE_SIZE = 0 := by
    rw [toNat_stk_addr]
    decide
  have hlen0 : stk_size.toNat % PAGE_SIZE = 0 := by
    rw [toNat_stk_size]
    decide
  -- outside of the stack all is as the loader has left it
  have hmem : ∀ a, Host.Outside stk_addr.toNat stk_size.toNat a →
      (initArgVectors ids elf1 argv p.host.mem).2 a = h.mem a := by
    intro a ha
    rw [initArgVectors_frame ids p.host.mem hfit, hhost, Host.mem_place_outside h ha]
    rw [htop]
    exact ha
  have hboot' : boot ids fd f argv cpu m elf = some
      ⟨p.setHost { p.host with mem := (initArgVectors ids elf1 argv p.host.mem).2 }, cpu'⟩ := by
    simp only [boot, hboot, hthread, Option.bind_eq_bind, Option.bind_some]
  rw [htop] at hargs
  rw [← hsp] at hargs
  have hauxv : (builtTables ids elf1 argv p.host.mem).auxv = auxv ids elf1
      (builtTables ids elf1 argv p.host.mem).auxv_salt_g
      (builtTables ids elf1 argv p.host.mem).foo_str_g := rfl
  generalize (initArgVectors ids elf1 argv p.host.mem).2 = mem at hargs hmem hboot'
  generalize builtTables ids elf1 argv p.host.mem = t at hargs hauxv
  have hpages : ∀ a, Host.Outside stk_addr.toNat stk_size.toNat a →
      p.host.pages (a / PAGE_SIZE) = h.pages (a / PAGE_SIZE) := by
    intro a ha
    rw [hhost, Host.pages_place_outside h ha haddr0 hlen0]
  refine ⟨⟨p.setHost { p.host with mem := mem }, cpu'⟩, hboot', hip.trans hentry, hregs, htrap,
    fun ph hph a h1 h2 hout => ?_, fun a hin => ?_, t, hargs, ?_⟩
  · obtain ⟨lo, hi, hload⟩ := hseg ph hph
    obtain ⟨⟨pg, hpg, hprot, -⟩, hbyte⟩ := hload a h1 h2
    refine ⟨?_, (hmem a hout).trans hbyte⟩
    have hpg' : p.host.pages (a / PAGE_SIZE) = some pg := (hpages a hout).trans hpg
    exact (congrArg (Option.map Page.prot) hpg').trans (congrArg some hprot)
  · have hpg : p.host.pages (a / PAGE_SIZE) = some ⟨PROT_READ ||| PROT_WRITE, h.calls⟩ := by
      rw [hhost]
      exact Host.pages_place h hin haddr0 hlen0
    exact congrArg (Option.map Page.prot) hpg
  · rw [hauxv]
    refine auxvTells hw hehdr hentry haddr fun ph hph a h1 h2 h3 => ?_
    obtain ⟨lo, hi, hload⟩ := hseg ph hph
    have hle := (hw.proper ph hph).filesz_le
    obtain ⟨-, hbyte⟩ := hload a h1 (by omega)
    rw [if_pos h2] at hbyte
    exact (hmem a (Or.inl h3)).trans hbyte

end Rv32jit.Env
