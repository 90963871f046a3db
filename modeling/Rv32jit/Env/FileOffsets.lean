/-
# Offsets of files

A file position goes to the host as two words and comes back through an `int`; the offset of a
mapping, which is a number of pages, goes to the host as a number of bytes.
-/
import Rv32jit.Env.Handlers
import Rv32jit.Env.Search

namespace Rv32jit.Env

/-! ### Positions -/

section

variable {s : Sim} {env : ℕ → HostCall → HostCall.Answer}
  {fd offset_high offset_low result whence : BitVec 32}

/-- The 64-bit offset that two words form. -/
def wordsOffset (offset_high offset_low : BitVec 32) : BitVec 64 :=
  .ofNat 64 (offset_high.toNat * 2 ^ 32 + offset_low.toNat)

/-- The file is positioned at the offset of the two words, and the resulting position is stored. -/
def SeekSurvives (env : ℕ → HostCall → HostCall.Answer) (s : Sim)
    (fd offset_high offset_low result whence : BitVec 32) : Prop :=
  let call := HostCall.lseek fd (wordsOffset offset_high offset_low) whence
  let run := (env_syscall.linux_llseek s fd offset_high offset_low result whence).run env 0
  run.2 = [(call, env 0 call)] ∧
    ∃ o, run.1 = some o ∧ ∀ r, env 0 call = .ok r →
      o.2.mem.load result.toNat 8 = BitVec.ofNat 64 r.rc

/-- If the call succeeds, the position is less than 2 GiB and can be stored; or its low word is
negative as an `int`, and the position is already there. -/
def SeekSound (env : ℕ → HostCall → HostCall.Answer) (s : Sim)
    (fd offset_high offset_low result whence : BitVec 32) : Prop :=
  ∀ r, env 0 (.lseek fd (wordsOffset offset_high offset_low) whence) = .ok r →
    if r.rc % 2 ^ 32 < 2 ^ 31 then
      Host.reaches result.toNat 8 s.host.writable = true ∧ r.rc % 2 ^ 64 < 2 ^ 31
    else s.mem.load result.toNat 8 = BitVec.ofNat 64 r.rc

lemma wordsOffset_eq (hi lo : BitVec 32) :
    hi.setWidth 64 <<< 32 ||| lo.setWidth 64 = wordsOffset hi lo := by
  have hhi := hi.isLt
  have hlo := lo.isLt
  refine BitVec.eq_of_toNat_eq ?_
  rw [BitVec.toNat_or, BitVec.toNat_shiftLeft, BitVec.toNat_setWidth, BitVec.toNat_setWidth,
    wordsOffset, BitVec.toNat_ofNat, Nat.mod_eq_of_lt (show hi.toNat < 2 ^ 64 by omega),
    Nat.mod_eq_of_lt (show lo.toNat < 2 ^ 64 by omega), Nat.shiftLeft_eq,
    Nat.mod_eq_of_lt (show hi.toNat * 2 ^ 32 < 2 ^ 64 by omega), Nat.mul_comm,
    ← Nat.two_pow_add_eq_or_of_lt hlo]
  exact (Nat.mod_eq_of_lt (by omega)).symm

/-- A position is not negative as an `int`. -/
lemma toInt_nonneg_iff (n : ℕ) :
    0 ≤ ((BitVec.ofNat 64 n).setWidth 32).toInt ↔ n % 2 ^ 32 < 2 ^ 31 := by
  rw [BitVec.toInt_eq_toNat_cond, BitVec.toNat_setWidth, BitVec.toNat_ofNat,
    Nat.mod_mod_of_dvd n (by norm_num : 2 ^ 32 ∣ 2 ^ 64)]
  have hlt : n % 2 ^ 32 < 2 ^ 32 := Nat.mod_lt _ (by norm_num)
  split <;> omega

/-- What becomes of a position in an `int`. -/
lemma signExtend_eq_iff {n : ℕ} (h : n % 2 ^ 32 < 2 ^ 31) :
    ((BitVec.ofNat 64 n).setWidth 32).signExtend 64 = BitVec.ofNat 64 n ↔
      n % 2 ^ 64 < 2 ^ 31 := by
  have hmsb : ((BitVec.ofNat 64 n).setWidth 32).msb = false := by
    rw [BitVec.msb_eq_toInt, decide_eq_false_iff_not, not_lt]
    exact (toInt_nonneg_iff n).mpr h
  rw [BitVec.signExtend_eq_setWidth_of_msb_false hmsb, ← BitVec.toNat_inj, BitVec.toNat_setWidth,
    BitVec.toNat_setWidth, BitVec.toNat_ofNat,
    Nat.mod_mod_of_dvd n (by norm_num : 2 ^ 32 ∣ 2 ^ 64), Nat.mod_eq_of_lt (by omega)]
  have hmod : n % 2 ^ 64 % 2 ^ 32 = n % 2 ^ 32 := Nat.mod_mod_of_dvd n (by norm_num)
  omega

variable (env s fd offset_high offset_low result whence) in
/-- The run of `linux_llseek`. -/
lemma run_llseek :
    (env_syscall.linux_llseek s fd offset_high offset_low result whence).run env 0 =
      let call := HostCall.lseek fd (wordsOffset offset_high offset_low) whence
      let a := env 0 call
      (if 0 ≤ (a.rc.setWidth 32).toInt then
          if Host.reaches result.toNat 8 s.host.writable then
            some (0, (s.after a).setMem
              (s.mem.store result.toNat 8 ((a.rc.setWidth 32).signExtend 64)))
          else none
        else some (0, s.after a), [(call, a)]) := by
  rw [env_syscall.linux_llseek]
  simp only [wordsOffset_eq, run_hostCall_bind]
  split
  · rw [run_store_bind, Sim.writable_after, Sim.mem_after]
    split <;> rfl
  · rfl

/-- The position of a file survives if and only if it is less than 2 GiB. -/
lemma seekSurvives_iff :
    SeekSurvives env s fd offset_high offset_low result whence ↔
      SeekSound env s fd offset_high offset_low result whence := by
  rw [SeekSurvives, SeekSound, run_llseek]
  simp only [true_and]
  cases ha : env 0 (.lseek fd (wordsOffset offset_high offset_low) whence) with
  | error e =>
    have hneg : ¬ 0 ≤ ((HostCall.Answer.rc (.error e)).setWidth 32).toInt := by
      show ¬ 0 ≤ ((-1 : BitVec 64).setWidth 32).toInt
      decide
    rw [if_neg hneg]
    exact iff_of_true ⟨_, rfl, fun r hr => nomatch hr⟩ fun r hr => nomatch hr
  | ok r =>
    simp only [Except.ok.injEq, forall_eq', HostCall.Answer.rc, toInt_nonneg_iff]
    by_cases hint : r.rc % 2 ^ 32 < 2 ^ 31
    · simp only [if_pos hint]
      by_cases hw : Host.reaches result.toNat 8 s.host.writable = true
      · simp only [hw, if_true, true_and, Option.some.injEq, exists_eq_left', Sim.mem_setMem]
        rw [ByteMem.load_store, ByteMem.lowBytes_of_le (by norm_num), signExtend_eq_iff hint]
      · simp [hw]
    · simp only [if_neg hint, Option.some.injEq, exists_eq_left', Sim.after_ok]

end

/-! ### Mappings of files -/

namespace Host

variable {h : Host} {addr len : ℕ} {prot flags fd : BitVec 32} {offs : ℕ} {content : ByteMem}

lemma content_or_fixed (h : Host) (flags fd : BitVec 32) (offs : ℕ) :
    h.content (flags ||| MAP_FIXED) fd offs = h.content flags fd offs := by
  have hanon : (flags ||| MAP_FIXED) &&& MAP_ANON = flags &&& MAP_ANON := by
    have hdisj : MAP_ANON &&& MAP_FIXED = 0#32 := by decide
    rw [BitVec.and_comm, BitVec.and_or_distrib_left, hdisj, BitVec.or_zero, BitVec.and_comm]
  rw [content, content, hanon]

lemma content_file {f : HostFile} (hanon : flags &&& MAP_ANON = 0) (hf : h.files fd = some f) :
    h.content flags fd offs = some fun i => if offs + i < f.size then f.byte (offs + i) else 0 := by
  rw [content, if_neg (not_not.mpr hanon), hf]
  rfl

/-- A mapping is granted whatever its offset, if that is one of a page. -/
lemma mmap_fixed_granted {a : ℕ} {h' : Host}
    (hm : h.mmap (some addr) len prot flags fd offs = (some a, h')) :
    a = addr ∧ addr % PAGE_SIZE = 0 ∧ len ≠ 0 ∧ ∀ offs' content, offs' % PAGE_SIZE = 0 →
      h.content flags fd offs' = some content →
      h.mmap (some addr) len prot flags fd offs' = (some addr, h.place addr len prot content) := by
  rw [mmap] at hm
  split at hm
  · cases hm
  · rename_i hbad
    push Not at hbad
    obtain ⟨hlen, -, haddr⟩ := hbad
    cases hc : h.content flags fd offs with
    | none =>
      rw [hc] at hm
      cases hm
    | some content =>
      rw [hc] at hm
      cases hans : h.answers h.calls with
      | refused errno =>
        rw [hans] at hm
        cases hm
      | placed p =>
        rw [hans] at hm
        cases hm
        exact ⟨rfl, haddr, hlen, fun offs' content' hoffs' hc' =>
          mmap_fixed_placed hlen haddr hoffs' hc' ⟨p, hans⟩⟩

lemma mmap_misaligned (fixed : Option ℕ) (hoffs : offs % PAGE_SIZE ≠ 0) :
    h.mmap fixed len prot flags fd offs = (none, h.fail EINVAL) := by
  rw [mmap, if_pos (.inr (.inl hoffs))]

end Host

namespace Mmu

variable {m m' : Mmu} {vaddr len prot flags fd paddr : BitVec 32} {offs hptr i j : ℕ}
  {h h1 : Host}
  {w : Bool}

/-- The search opens and closes no files. -/
lemma Loops.files (hl : m.Loops len i j h paddr w) : h.files = m.host.files := by
  induction hl with
  | start => rfl
  | wrap hl hp ih => exact ih
  | @again i j hptr h h1 h2 paddr p w hl hp hne hw hprobe hacc hback ih =>
    obtain ⟨-, -, -, content, rfl⟩ := Host.mmap_anywhere_eq_some hprobe
    rw [Host.munmap] at hback
    split at hback
    · cases hback
    · split at hback
      · cases hback
      · cases hback
        exact ih

lemma place_mem (h : Host) (addr len : ℕ) (prot : BitVec 32) (content : ByteMem) {i : ℕ}
    (hi : i < len) : (h.place addr len prot content).mem (addr + i) = content i := by
  rw [Host.place]
  simp only
  rw [if_pos ⟨Nat.le_add_right _ _, Nat.add_lt_add_left hi _⟩, Nat.add_sub_cancel_left]

/-- A mapping at a fixed place that has been granted, with another offset. -/
lemma mmapFixed_offset (hm : m.mmapFixed vaddr len prot flags fd offs = (some hptr, m')) :
    hptr = vaddr.toNat ∧ vaddr.toNat % PAGE_SIZE = 0 ∧ len.toNat ≠ 0 ∧
      ∀ offs' content, offs' % PAGE_SIZE = 0 → m.host.content flags fd offs' = some content →
        ∃ m', m.mmapFixed vaddr len prot flags fd offs' = (some hptr, m') ∧
          ∀ i < len.toNat, m'.host.mem (hptr + i) = content i := by
  rw [mmapFixed] at hm
  rcases hreq : m.host.mmap (some vaddr.toNat) len.toNat prot flags fd offs with ⟨_ | a, h⟩
  · rw [hreq] at hm
    cases hm
  · rw [hreq] at hm
    cases hm
    obtain ⟨rfl, haddr, hlen, hany⟩ := Host.mmap_fixed_granted hreq
    refine ⟨rfl, haddr, hlen, fun offs' content hoffs' hc' => ?_⟩
    rw [mmapFixed, hany offs' content hoffs' hc']
    exact ⟨_, rfl, fun i hi => place_mem _ _ _ _ _ hi⟩

/-- The same for a place that has been searched for. -/
lemma mmapAnywhere_offset (hdvd : len.toNat % PAGE_SIZE = 0)
    (hm : m.mmapAnywhere len prot flags fd offs = some (some hptr, m')) :
    hptr % PAGE_SIZE = 0 ∧ hptr + len.toNat ≤ ASPACE_SIZE ∧ len.toNat ≠ 0 ∧
      (∀ offs' content, offs' % PAGE_SIZE = 0 → m.host.content flags fd offs' = some content →
        ∃ m', m.mmapAnywhere len prot flags fd offs' = some (some hptr, m') ∧
          ∀ i < len.toNat, m'.host.mem (hptr + i) = content i) ∧
      ∀ offs', offs' % PAGE_SIZE ≠ 0 → m.mmapAnywhere len prot flags fd offs' = none := by
  have hstart : m.Loops len 0 0 m.host m.mmap_hint_page false := .start
  have hdone : m.SearchDone len
      (search len (len >>> PAGE_BITS) searchRounds m m.mmap_hint_page false) :=
    hstart.search (Nat.le_add_left _ _)
  simp only [mmapAnywhere] at hm ⊢
  generalize search len (len >>> PAGE_BITS) searchRounds m m.mmap_hint_page false = o at hdone hm ⊢
  cases hdone with
  | panic hl hr => cases hm
  | failed hl hstop => cases hm
  | @found i j hptr' h h1 paddr w hl hne hprobe hacc =>
    obtain ⟨-, htop, -, -⟩ := hl.accepted hdvd hprobe hacc
    have hfiles : h1.files = m.host.files := by
      obtain ⟨-, -, -, content, rfl⟩ := Host.mmap_anywhere_eq_some hprobe
      exact hl.files
    simp only at hm ⊢
    rcases hreq : h1.mmap (some hptr') len.toNat prot (flags ||| MAP_FIXED) fd offs
      with ⟨_ | a, h2⟩
    · rw [hreq] at hm
      cases hm
    · rw [hreq] at hm
      cases hm
      obtain ⟨rfl, haddr, hlen, hany⟩ := Host.mmap_fixed_granted hreq
      refine ⟨haddr, htop, hlen, fun offs' content hoffs' hc' => ?_, fun offs' hoffs' => ?_⟩
      · have hc1 : h1.content (flags ||| MAP_FIXED) fd offs' = some content := by
          rw [Host.content_or_fixed, ← hc', Host.content, Host.content, hfiles]
        rw [hany offs' content hoffs' hc1]
        exact ⟨_, rfl, fun i hi => place_mem _ _ _ _ _ hi⟩
      · rw [Host.mmap_misaligned _ hoffs']

/-- A mapping that has been granted, with another offset: it is at the same place, and has the
contents of the file there; if the offset is not one of a page, it is refused. -/
lemma mmap_offset (hm : m.mmap vaddr len prot flags fd offs = some (some hptr, m')) :
    hptr % PAGE_SIZE = 0 ∧ hptr < ASPACE_SIZE ∧
      (∀ offs' content, offs' % PAGE_SIZE = 0 → m.host.content flags fd offs' = some content →
        ∃ m', m.mmap vaddr len prot flags fd offs' = some (some hptr, m') ∧
          ∀ i < len.toNat, m'.host.mem (hptr + i) = content i) ∧
      ∀ offs', offs' % PAGE_SIZE ≠ 0 → ∀ r m',
        m.mmap vaddr len prot flags fd offs' = some (r, m') →
          r = none ∧ m'.host.errno = EINVAL := by
  have hround := toNat_roundupPage len
  have hdvd := roundupPage_dvd len
  simp only [mmap] at hm ⊢
  split at hm
  · rename_i hin
    have hasp := inAspace_iff.mp hin
    simp only [InAspace] at hasp
    simp only [if_pos hin]
    by_cases hfixed : flags &&& MAP_FIXED ≠ 0
    · simp only [if_pos hfixed, Option.some.injEq] at hm ⊢
      obtain ⟨rfl, haddr, hlen, hany⟩ := mmapFixed_offset hm
      have hle : len.toNat ≤ (roundupPage len).toNat := by
        split at hround <;> omega
      refine ⟨haddr, vaddr.isLt, fun offs' content hoffs' hc' => ?_, fun offs' hoffs' r m' hr => ?_⟩
      · obtain ⟨m', hm', hmem⟩ := hany offs' content hoffs' hc'
        exact ⟨m', hm', fun i hi => hmem i (hi.trans_le hle)⟩
      · rw [mmapFixed, Host.mmap_misaligned _ hoffs'] at hr
        cases hr
        exact ⟨rfl, rfl⟩
    · simp only [if_neg hfixed] at hm ⊢
      obtain ⟨haddr, htop, hlen, hany, hmis⟩ := mmapAnywhere_offset hdvd hm
      have hle : len.toNat ≤ (roundupPage len).toNat := by
        split at hround <;> omega
      refine ⟨haddr, by omega, fun offs' content hoffs' hc' => ?_, fun offs' hoffs' r m' hr => ?_⟩
      · obtain ⟨m', hm', hmem⟩ := hany offs' content hoffs' hc'
        exact ⟨m', hm', fun i hi => hmem i (hi.trans_le hle)⟩
      · rw [hmis offs' hoffs'] at hr
        cases hr
  · cases hm

end Mmu

section

variable {p : Process} {gaddr len prot flags fd off : BitVec 32}

/-- The mapping of a file that is granted at page `off` of the file: the call succeeds, and the
guest finds the file's contents from there on. -/
def MapSurvives (p : Process) (gaddr len prot flags fd off : BitVec 32) : Prop :=
  ∀ f, p.host.files fd = some f → flags &&& MAP_ANON = 0 →
    ∀ hptr m, p.mmu.mmap gaddr len prot flags fd (off.toNat * 4096) = some (some hptr, m) →
      ∃ ret p', linux_mmap2 p gaddr len prot flags fd off = some (ret, p') ∧ ¬ IsErrno ret ∧
        ∀ i < len.toNat, off.toNat * 4096 + i < f.size →
          p'.host.mem (ret.toNat + i) = f.byte (off.toNat * 4096 + i)

/-- As a number of bytes, `off` is the start of a page, and the file has the same contents there as
at page `off`. -/
def MapSound (p : Process) (gaddr len prot flags fd off : BitVec 32) : Prop :=
  ∀ f, p.host.files fd = some f → flags &&& MAP_ANON = 0 →
    (∃ hptr m, p.mmu.mmap gaddr len prot flags fd (off.toNat * 4096) = some (some hptr, m)) →
      off.toNat % 4096 = 0 ∧ ∀ i < len.toNat, off.toNat * 4096 + i < f.size →
        f.byte (off.toNat + i) = f.byte (off.toNat * 4096 + i)

lemma not_isErrno {hptr : ℕ} (hdvd : hptr % PAGE_SIZE = 0) (hlt : hptr < ASPACE_SIZE) :
    (BitVec.ofNat 32 hptr).toNat = hptr ∧ ¬ IsErrno (BitVec.ofNat 32 hptr) := by
  simp only [PAGE_SIZE, ASPACE_SIZE] at hdvd hlt
  have heq : (BitVec.ofNat 32 hptr).toNat = hptr := by
    rw [BitVec.toNat_ofNat]
    exact Nat.mod_eq_of_lt hlt
  refine ⟨heq, ?_⟩
  rw [IsErrno, heq]
  omega

/-- What `linux_mmap2` makes of a mapping that is granted at page `off`. -/
lemma linux_mmap2_granted {f : HostFile} {hptr : ℕ} {m : Mmu} (hf : p.host.files fd = some f)
    (hanon : flags &&& MAP_ANON = 0)
    (hm : p.mmu.mmap gaddr len prot flags fd (off.toNat * 4096) = some (some hptr, m)) :
    (off.toNat % 4096 = 0 → ∃ ret p', linux_mmap2 p gaddr len prot flags fd off = some (ret, p') ∧
      ¬ IsErrno ret ∧ ∀ i < len.toNat, p'.host.mem (ret.toNat + i) =
        if off.toNat + i < f.size then f.byte (off.toNat + i) else 0) ∧
    (off.toNat % 4096 ≠ 0 → ∀ ret p', linux_mmap2 p gaddr len prot flags fd off = some (ret, p') →
      IsErrno ret) := by
  obtain ⟨hdvd, hlt, hany, hmis⟩ := Mmu.mmap_offset hm
  obtain ⟨heq, hno⟩ := not_isErrno hdvd hlt
  constructor
  · intro hoff
    obtain ⟨m', hm', hmem⟩ := hany off.toNat _ hoff (Host.content_file hanon hf)
    refine ⟨.ofNat 32 hptr, { p with mmu := m' }, ?_, hno, ?_⟩
    · rw [linux_mmap2, hm']
      rfl
    · rw [heq]
      exact hmem
  · intro hoff ret p' hret
    rw [linux_mmap2] at hret
    rcases ho : p.mmu.mmap gaddr len prot flags fd off.toNat with _ | ⟨r, m'⟩
    · rw [ho] at hret
      cases hret
    · obtain ⟨rfl, herr⟩ := hmis _ hoff r m' ho
      rw [ho] at hret
      cases hret
      show IsErrno (-m'.host.errno)
      rw [herr, IsErrno]
      decide

/-- The mapping of a file survives if and only if the file has the same contents at both offsets. -/
lemma mapSurvives_iff :
    MapSurvives p gaddr len prot flags fd off ↔ MapSound p gaddr len prot flags fd off := by
  constructor
  · rintro hs f hf hanon ⟨hptr, m, hm⟩
    obtain ⟨hdone, hfail⟩ := linux_mmap2_granted hf hanon hm
    obtain ⟨ret, p', hrun, hno, hmem⟩ := hs f hf hanon hptr m hm
    have hoff : off.toNat % 4096 = 0 := by
      by_contra hne
      exact hno (hfail hne ret p' hrun)
    refine ⟨hoff, fun i hi hsize => ?_⟩
    obtain ⟨ret', p'', hrun', -, hmem'⟩ := hdone hoff
    rw [hrun] at hrun'
    cases hrun'
    rw [← hmem i hi hsize, hmem' i hi, if_pos (by omega)]
  · intro hs f hf hanon hptr m hm
    obtain ⟨hoff, hsame⟩ := hs f hf hanon ⟨hptr, m, hm⟩
    obtain ⟨ret, p', hrun, hno, hmem⟩ := (linux_mmap2_granted hf hanon hm).1 hoff
    refine ⟨ret, p', hrun, hno, fun i hi hsize => ?_⟩
    rw [hmem i hi, if_pos (by omega), hsame i hi hsize]

end

/-- The offsets of files survive if and only if positions are less than 2 GiB, and a file has the
same contents at the byte `off` as at the page `off`. -/
theorem offsets_survive_iff (env : ℕ → HostCall → HostCall.Answer) (s : Sim)
    (fd offset_high offset_low result whence : BitVec 32) (p : Process)
    (gaddr len prot flags off : BitVec 32) :
    (SeekSurvives env s fd offset_high offset_low result whence ↔
      SeekSound env s fd offset_high offset_low result whence) ∧
    (MapSurvives p gaddr len prot flags fd off ↔ MapSound p gaddr len prot flags fd off) :=
  ⟨seekSurvives_iff, mapSurvives_iff⟩

/-- A host with a file of two pages. -/
def twoPages : Process :=
  ⟨.init (fun _ => some ⟨8192, fun i => .ofNat 8 (i / 4096 + 1)⟩) (fun _ => .placed 0x10000) 0, 0⟩

/-- A position of 2 GiB is not stored, and the second page of a file is not mapped. -/
theorem offsets_lost :
    ¬ SeekSurvives (fun _ _ => .ok ⟨2 ^ 31, fun _ => 0, []⟩) startedIn 3 0 0x80000000 0x20000 0 ∧
    ¬ MapSurvives twoPages 0x20000 4096 1 (MAP_PRIVATE ||| MAP_FIXED) 3 1 := by
  constructor
  · rintro ⟨-, o, ho, hpos⟩
    have hpos := hpos _ rfl
    rw [run_llseek] at ho
    cases ho
    exact absurd hpos (by decide)
  · have hgranted : (twoPages.mmu.mmap 0x20000 4096 1 (MAP_PRIVATE ||| MAP_FIXED) 3
        ((1 : BitVec 32).toNat * 4096)).map (·.1) = some (some 0x20000) := by decide +kernel
    obtain ⟨⟨r, m⟩, hm, hr⟩ := Option.map_eq_some_iff.mp hgranted
    simp only at hr
    subst hr
    rw [mapSurvives_iff]
    intro hs
    exact absurd (hs _ rfl (by decide) ⟨_, _, hm⟩).1 (by decide)

end Rv32jit.Env
