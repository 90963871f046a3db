/-
# System calls on memory

The handlers of `env.cpp` that are given a place in the guest's memory and a length, and the
dispatch to them.  How far the host gets with a request that it works through, and whether it then
fails, is left open.
-/
import Rv32jit.Env.Frame
import Rv32jit.Guest.CPUState

namespace Rv32jit.Env

/-- `EFAULT`. -/
def EFAULT : BitVec 32 := 14

/-- The number of bytes that the host reads or writes at most. -/
def MAX_RW_COUNT : ℕ := 0x7FFFF000

/-- What the host makes of a request: the number of bytes that it gets to, what it puts there, and
the error that it then fails with. -/
structure Reply where
  errno : Option (BitVec 32)
  done : ℕ
  data : ByteMem

namespace Host

variable (h : Host) (addr n count : ℕ)

/-- All pages of a range are as `ok` says. -/
def reaches (ok : ℕ → Bool) : Bool :=
  n = 0 ∨ (List.range' (addr / PAGE_SIZE)
    ((addr + n - 1) / PAGE_SIZE + 1 - addr / PAGE_SIZE)).all ok

/-- The page can be read. -/
def readable (p : ℕ) : Bool :=
  match h.pages p with
  | some pg => pg.prot ≠ 0
  | none => false

/-- `rcerrno` of a result of the host. -/
def result (errno : Option (BitVec 32)) (rc : ℕ) : BitVec 32 × Host :=
  match errno with
  | some e => (-e, { h with errno := e })
  | none => (.ofNat 32 rc, h)

/-- The host has written to a buffer. -/
def fillBytes (data : ByteMem) : Host :=
  { h with mem := fun x => if addr ≤ x ∧ x < addr + n then data (x - addr) else h.mem x }

/-- The host writes to a buffer. -/
def fill (r : Reply) : BitVec 32 × Host :=
  let n := min r.done (min count MAX_RW_COUNT)
  if reaches addr n h.writable then (h.fillBytes addr n r.data).result r.errno n
  else h.result (some EFAULT) 0

/-- The host reads a buffer; also the number of bytes that it has read. -/
def drain (r : Reply) : ℕ × BitVec 32 × Host :=
  let n := min r.done (min count MAX_RW_COUNT)
  if reaches addr n h.readable then (n, h.result r.errno n) else (0, h.result (some EFAULT) 0)

/-- Another protection for the mapped pages of a range. -/
def protect (prot : BitVec 32) : Host :=
  { h with
    pages := fun p =>
      if addr / PAGE_SIZE ≤ p ∧ p < (addr + n + (PAGE_SIZE - 1)) / PAGE_SIZE then
        (h.pages p).map fun pg => { pg with prot := prot }
      else h.pages p
    past := by
      intro p pg hpg
      split at hpg
      · obtain ⟨pg', hpg', rfl⟩ := Option.map_eq_some_iff.mp hpg
        exact h.past p pg' hpg'
      · exact h.past p pg hpg }

/-- `::mprotect`, which changes the pages one after the other. -/
def mprotect (prot : BitVec 32) (r : Reply) : BitVec 32 × Host :=
  if addr % PAGE_SIZE ≠ 0 then h.result (some EINVAL) 0
  else
    let n := min r.done count
    match r.errno with
    | some e => (h.protect addr n prot).result (some e) 0
    | none =>
        if n = count ∧ reaches addr count fun p => (h.pages p).isSome then
          (h.protect addr n prot).result none 0
        else (h.protect addr n prot).result (some ENOMEM) 0

end Host

/-- `env::process`. -/
structure Process where
  mmu : Mmu
  brk : BitVec 32

namespace Process

/-- The host under the process. -/
def host (p : Process) : Host := p.mmu.host

/-- Replaces the host under the process. -/
def setHost (p : Process) (h : Host) : Process := { p with mmu := { p.mmu with host := h } }

end Process

/-- What a system call comes to: its result, the process, and the bytes that the host has read. -/
structure Outcome where
  rc : BitVec 32
  proc : Process
  read : ℕ × ℕ

/-! ### The handlers -/

/-- `linux_read`: the reply fills the buffer. -/
def linux_read (p : Process) (_fd buf count : BitVec 32) (r : Reply) : Outcome :=
  let (rc, h) := p.host.fill buf.toNat count.toNat r
  ⟨rc, p.setHost h, (0, 0)⟩

/-- `linux_write`: the buffer is only read. -/
def linux_write (p : Process) (_fd buf count : BitVec 32) (r : Reply) : Outcome :=
  let (n, rc, h) := p.host.drain buf.toNat count.toNat r
  ⟨rc, p.setHost h, (buf.toNat, n)⟩

/-- `linux_getrandom`: the reply fills the buffer. -/
def linux_getrandom (p : Process) (buf count _flags : BitVec 32) (r : Reply) : Outcome :=
  let (rc, h) := p.host.fill buf.toNat count.toNat r
  ⟨rc, p.setHost h, (0, 0)⟩

/-- `linux_brk`; nothing for a memory fault. -/
def linux_brk (p : Process) (newbrk : BitVec 32) : Option (BitVec 32 × Process) :=
  if newbrk ≤ p.brk then some (p.brk, p)
  else
    let brk_p := roundupPage p.brk
    if newbrk ≤ brk_p then
      if newbrk ≠ brk_p then do
        let h ← p.host.memset p.brk.toNat (newbrk - p.brk).toNat
        some (newbrk, { p.setHost h with brk := newbrk })
      else some (newbrk, { p with brk := newbrk })
    else do
      let (mem, m) ← p.mmu.mmap brk_p (newbrk - brk_p) (PROT_READ ||| PROT_WRITE)
        (MAP_ANON ||| MAP_PRIVATE ||| MAP_FIXED) (-1) 0
      let p := { p with mmu := m }
      if m.h2g mem ≠ brk_p then
        match mem with
        -- `MAP_FAILED` is not the address of a page
        | none => some (p.brk, p.setHost (p.host.fail EINVAL))
        | some hptr => some (p.brk, p.setHost (p.host.munmap hptr (newbrk - brk_p).toNat).2)
      else do
        let h ← p.host.memset p.brk.toNat (brk_p - p.brk).toNat
        some (newbrk, { p.setHost h with brk := newbrk })

/-- `linux_munmap`. -/
def linux_munmap (p : Process) (gaddr len : BitVec 32) : BitVec 32 × Process :=
  match p.host.munmap gaddr.toNat len.toNat with
  | (true, h) => (0, p.setHost h)
  | (false, h) => (-h.errno, p.setHost h)

/-- `linux_mmap2`; nothing for a failed assertion and for a panic. -/
def linux_mmap2 (p : Process) (gaddr len prot flags fd off : BitVec 32) :
    Option (BitVec 32 × Process) := do
  let (ret, m) ← p.mmu.mmap gaddr len prot flags fd off.toNat
  match ret with
  | none => some (-m.host.errno, { p with mmu := m })
  | some _ => some (m.h2g ret, { p with mmu := m })

/-- `linux_mprotect`. -/
def linux_mprotect (p : Process) (start len prot : BitVec 32) (r : Reply) : BitVec 32 × Process :=
  let (rc, h) := p.host.mprotect start.toNat len.toNat prot r
  (rc, p.setHost h)

/-- The calls on memory. -/
inductive MemCall
  | read | write | brk | munmap | mmap2 | mprotect | getrandom
deriving DecidableEq

/-- The numbers of `syscalls.h`. -/
def MemCall.no : MemCall → BitVec 32
  | read => 63
  | write => 64
  | brk => 214
  | munmap => 215
  | mmap2 => 222
  | mprotect => 226
  | getrandom => 278

/-- Calls the handler of a number with the arguments that it has. -/
def dispatch (other : Process → ByteMem → Option Outcome) (r : Reply) (p : Process)
    (cpu : ByteMem) : Option Outcome :=
  let a (i : ℕ) := CPUState.gpr cpu (10 + i)
  let syscallno := CPUState.gpr cpu 17
  if syscallno = MemCall.read.no then some (linux_read p (a 0) (a 1) (a 2) r)
  else if syscallno = MemCall.write.no then some (linux_write p (a 0) (a 1) (a 2) r)
  else if syscallno = MemCall.brk.no then
    (linux_brk p (a 0)).map fun o => ⟨o.1, o.2, (0, 0)⟩
  else if syscallno = MemCall.munmap.no then
    let o := linux_munmap p (a 0) (a 1)
    some ⟨o.1, o.2, (0, 0)⟩
  else if syscallno = MemCall.mmap2.no then
    (linux_mmap2 p (a 0) (a 1) (a 2) (a 3) (a 4) (a 5)).map fun o => ⟨o.1, o.2, (0, 0)⟩
  else if syscallno = MemCall.mprotect.no then
    let o := linux_mprotect p (a 0) (a 1) (a 2) r
    some ⟨o.1, o.2, (0, 0)⟩
  else if syscallno = MemCall.getrandom.no then some (linux_getrandom p (a 0) (a 1) (a 2) r)
  else other p cpu

/-- `env::SyscallLinux`; nothing for an abort.  `other` stands for the other calls. -/
def SyscallLinux (other : Process → ByteMem → Option Outcome) (r : Reply) (p : Process)
    (cpu : ByteMem) : Option (Outcome × ByteMem) :=
  let cpu := CPUState.setTrapno cpu .NONE
  (dispatch other r p cpu).map fun o => (o, CPUState.setGpr cpu 10 o.rc)

/-! ### What is expected of them -/

/-- The start of the memory that a call names, and its length. -/
def MemCall.range (cpu : ByteMem) : MemCall → ℕ × ℕ
  | read | write => ((CPUState.gpr cpu 11).toNat, (CPUState.gpr cpu 12).toNat)
  | brk => (0, (CPUState.gpr cpu 10).toNat)
  | munmap | mmap2 | mprotect | getrandom =>
      ((CPUState.gpr cpu 10).toNat, (CPUState.gpr cpu 11).toNat)

/-- It reaches beyond the guest's memory. -/
def MemCall.Leaves (c : MemCall) (cpu : ByteMem) : Prop :=
  ASPACE_SIZE < (c.range cpu).1 + (c.range cpu).2

/-- A negative error number. -/
def IsErrno (rc : BitVec 32) : Prop := 2 ^ 32 - 4096 < rc.toNat

/-- The call has changed and read bytes of the guest's memory only, and nothing if it reaches
beyond. -/
structure StaysInside (c : MemCall) (p : Process) (cpu : ByteMem) (o : Outcome) (cpu' : ByteMem) :
    Prop where
  changed : p.host.Keeps (ASPACE_SIZE ≤ ·) o.proc.host
  read : ∀ x, o.read.1 ≤ x → x < o.read.1 + o.read.2 → x < ASPACE_SIZE
  refused : c.Leaves cpu → IsErrno (CPUState.gpr cpu' 10) ∧ p.host.Keeps (fun _ => True) o.proc.host

/-- Whatever the state of the process and the host, the call stays inside the guest's memory, and
the simulator is not aborted because it reaches beyond. -/
def Stays (other : Process → ByteMem → Option Outcome) (c : MemCall) (cpu : ByteMem) : Prop :=
  ∀ r p,
    match SyscallLinux other r p cpu with
    | none => ¬ c.Leaves cpu
    | some (o, cpu') => StaysInside c p cpu o cpu'

/-- The call names guest memory, or the host itself turns it down since it does not name a page. -/
def NamesGuest (c : MemCall) (cpu : ByteMem) : Prop :=
  (c.range cpu).1 + (c.range cpu).2 ≤ ASPACE_SIZE ∨
    (c = .munmap ∨ c = .mprotect) ∧ (c.range cpu).1 % PAGE_SIZE ≠ 0

/-! ### What the host's requests keep -/

namespace Host

variable {h : Host} {addr n count : ℕ} {P : ℕ → Prop}

lemma keeps_result (errno : Option (BitVec 32)) (rc : ℕ) : Keeps P h (h.result errno rc).2 := by
  cases errno <;> exact fun _ _ => rfl

lemma keeps_fill (r : Reply) : Keeps (Outside addr count) h (h.fill addr count r).2 := by
  rw [fill]
  split
  · refine Keeps.trans ?_ (keeps_result _ _)
    intro x hx
    have hle : min r.done (min count MAX_RW_COUNT) ≤ count :=
      (Nat.min_le_right _ _).trans (Nat.min_le_left _ _)
    rw [Outside] at hx
    simp only [view, fillBytes]
    rw [if_neg (by omega)]
  · exact keeps_result _ _

lemma drain_le (r : Reply) : (h.drain addr count r).1 ≤ count := by
  rw [drain]
  split
  · exact (Nat.min_le_right _ _).trans (Nat.min_le_left _ _)
  · exact Nat.zero_le _

lemma keeps_drain (r : Reply) : Keeps P h (h.drain addr count r).2.2 := by
  rw [drain]
  split <;> exact keeps_result _ _

lemma keeps_protect (prot : BitVec 32) :
    Keeps (Outside (addr / PAGE_SIZE * PAGE_SIZE)
      ((addr + n + (PAGE_SIZE - 1)) / PAGE_SIZE * PAGE_SIZE - addr / PAGE_SIZE * PAGE_SIZE)) h
      (h.protect addr n prot) := by
  intro x hx
  have hp : ¬ (addr / PAGE_SIZE ≤ x / PAGE_SIZE ∧
      x / PAGE_SIZE < (addr + n + (PAGE_SIZE - 1)) / PAGE_SIZE) := by
    simp only [Outside, PAGE_SIZE] at *
    omega
  simp only [view, protect, if_neg hp]

/-- A request of `mprotect` that is inside a part of memory made of pages. -/
lemma keeps_mprotect (prot : BitVec 32) (r : Reply) {top : ℕ} (htop : top % PAGE_SIZE = 0)
    (hle : addr % PAGE_SIZE = 0 → addr + count ≤ top) :
    Keeps (top ≤ ·) h (h.mprotect addr count prot r).2 := by
  rw [mprotect]
  split
  · exact keeps_result _ _
  · rename_i haddr
    have hprot : Keeps (top ≤ ·) h (h.protect addr (min r.done count) prot) := by
      refine (keeps_protect prot).mono fun x hx => Or.inr ?_
      have hle := hle (not_not.mp haddr)
      have hmin := Nat.min_le_right r.done count
      simp only [PAGE_SIZE] at *
      omega
    cases r.errno with
    | some e => exact hprot.trans (keeps_result _ _)
    | none =>
      simp only
      split <;> exact hprot.trans (keeps_result _ _)

/-- A request at an address that is not that of a page. -/
lemma mprotect_misaligned (prot : BitVec 32) (r : Reply) (haddr : addr % PAGE_SIZE ≠ 0) :
    h.mprotect addr count prot r = h.result (some EINVAL) 0 := if_pos haddr

lemma munmap_misaligned (haddr : addr % PAGE_SIZE ≠ 0) :
    h.munmap addr count = (false, h.fail EINVAL) := if_pos (Or.inl haddr)

end Host

/-! ### The calls, one by one -/

section

variable {p p' : Process} {rc newbrk gaddr len prot flags fd off : BitVec 32} {cpu : ByteMem}

lemma aspace_dvd : ASPACE_SIZE % PAGE_SIZE = 0 := by
  simp [ASPACE_SIZE, PAGE_SIZE]

variable (p gaddr len) in
lemma linux_munmap_host :
    (linux_munmap p gaddr len).2.host = (p.host.munmap gaddr.toNat len.toNat).2 := by
  rw [linux_munmap]
  rcases p.host.munmap gaddr.toNat len.toNat with ⟨_ | _, h⟩ <;> rfl

/-- The first address of the heap that is not in a page of it. -/
def Process.brk_p (p : Process) : BitVec 32 := roundupPage p.brk

/-- The mapping that the heap needs to grow is asked for with a length, and granted. -/
def Process.Granted (p : Process) (newbrk : BitVec 32) : Prop :=
  roundupPage (newbrk - p.brk_p) ≠ 0 ∧ ∃ a, p.host.answers p.host.calls = .placed a

lemma brk_fixed : (MAP_ANON ||| MAP_PRIVATE ||| MAP_FIXED) &&& MAP_FIXED ≠ 0 := by decide

lemma brk_anon : (MAP_ANON ||| MAP_PRIVATE ||| MAP_FIXED) &&& MAP_ANON ≠ 0 := by decide

lemma toNat_neg_one : (-1 : BitVec 32).toNat = 4294967295 := by decide

/-- `MAP_FAILED` is not taken for the start of a page. -/
lemma h2g_none_ne (m : Mmu) {x : BitVec 32} (hx : x.toNat % PAGE_SIZE = 0) : m.h2g none ≠ x := by
  rintro rfl
  have hbase : (m.base.setWidth 32 <<< PAGE_BITS).toNat % 4096 = 0 := by
    rw [BitVec.toNat_shiftLeft, Nat.shiftLeft_eq, PAGE_BITS]
    omega
  have hlt := (m.base.setWidth 32 <<< PAGE_BITS).isLt
  rw [Mmu.h2g, BitVec.toNat_sub, PAGE_SIZE, toNat_neg_one] at hx
  omega

/-- The mapping by which the heap grows. -/
lemma mmap_grow (p : Process) {newbrk : BitVec 32} (hlt : p.brk_p < newbrk) :
    ∃ r m', p.mmu.mmap p.brk_p (newbrk - p.brk_p) (PROT_READ ||| PROT_WRITE)
        (MAP_ANON ||| MAP_PRIVATE ||| MAP_FIXED) (-1) 0 = some (r, m') ∧
      (¬ p.Granted newbrk ∧ r = none ∧ (∃ e, m'.host = p.host.fail e) ∨
        p.Granted newbrk ∧ r = some p.brk_p.toNat ∧
          m'.host = p.host.place p.brk_p.toNat (roundupPage (newbrk - p.brk_p)).toNat
            (PROT_READ ||| PROT_WRITE) fun _ => 0) := by
  have hdvd : p.brk_p.toNat % PAGE_SIZE = 0 := by
    rw [Process.brk_p]
    exact roundupPage_dvd _
  have hlt' := BitVec.lt_def.mp hlt
  have hin : Mmu.InAspace p.brk_p (newbrk - p.brk_p) := by
    have := newbrk.isLt
    rw [Mmu.InAspace, BitVec.toNat_sub_of_le (BitVec.le_def.mpr hlt'.le)]
    omega
  obtain ⟨r, m', hr⟩ : ∃ r m', p.mmu.mmapFixed p.brk_p (roundupPage (newbrk - p.brk_p))
      (PROT_READ ||| PROT_WRITE) (MAP_ANON ||| MAP_PRIVATE ||| MAP_FIXED) (-1) 0 = (r, m') :=
    ⟨_, _, rfl⟩
  refine ⟨r, m', by rw [Mmu.mmap, if_pos (Mmu.inAspace_iff.mpr hin), if_pos brk_fixed, hr], ?_⟩
  have hcontent : p.host.content (MAP_ANON ||| MAP_PRIVATE ||| MAP_FIXED) (-1) 0 =
      some fun _ => 0 := if_pos brk_anon
  have hhost := Mmu.mmapFixed_host p.mmu p.brk_p (roundupPage (newbrk - p.brk_p))
    (PROT_READ ||| PROT_WRITE) (MAP_ANON ||| MAP_PRIVATE ||| MAP_FIXED) (-1) 0
  have hptr := Mmu.mmapFixed_fst p.mmu p.brk_p (roundupPage (newbrk - p.brk_p))
    (PROT_READ ||| PROT_WRITE) (MAP_ANON ||| MAP_PRIVATE ||| MAP_FIXED) (-1) 0
  rw [hr] at hhost hptr
  simp only at hhost hptr
  by_cases hg : p.Granted newbrk
  · have hmap : p.mmu.host.mmap (some p.brk_p.toNat) (roundupPage (newbrk - p.brk_p)).toNat
        (PROT_READ ||| PROT_WRITE) (MAP_ANON ||| MAP_PRIVATE ||| MAP_FIXED) (-1) 0 =
          (some p.brk_p.toNat, p.host.place p.brk_p.toNat (roundupPage (newbrk - p.brk_p)).toNat
            (PROT_READ ||| PROT_WRITE) fun _ => 0) :=
      Host.mmap_fixed_placed (ne_zero_iff.mp hg.1) hdvd (Nat.zero_mod _) hcontent hg.2
    exact Or.inr ⟨hg, by rw [hptr, hmap], by rw [hhost, hmap]⟩
  · have hmap : ∃ e, p.mmu.host.mmap (some p.brk_p.toNat) (roundupPage (newbrk - p.brk_p)).toNat
        (PROT_READ ||| PROT_WRITE) (MAP_ANON ||| MAP_PRIVATE ||| MAP_FIXED) (-1) 0 =
          (none, p.host.fail e) := by
      rw [Host.mmap]
      split
      · exact ⟨_, rfl⟩
      · rename_i hbad
        rw [show p.mmu.host = p.host from rfl, hcontent]
        cases ha : p.host.answers p.host.calls with
        | refused e => exact ⟨e, rfl⟩
        | placed a => exact absurd ⟨fun h0 => hbad (Or.inl (by rw [h0]; rfl)), a, ha⟩ hg
    obtain ⟨e, hmap⟩ := hmap
    exact Or.inl ⟨hg, by rw [hptr, hmap], e, by rw [hhost, hmap]⟩

/-- What a call of `linux_brk` does. -/
inductive BrkDoes (p : Process) (newbrk : BitVec 32) : Option (BitVec 32 × Process) → Prop
  | keep (hle : newbrk ≤ p.brk) : BrkDoes p newbrk (some (p.brk, p))
  | full (hlt : p.brk < newbrk) (heq : newbrk = p.brk_p) :
      BrkDoes p newbrk (some (newbrk, { p with brk := newbrk }))
  | tail (hlt : p.brk < newbrk) (hltp : newbrk < p.brk_p) :
      BrkDoes p newbrk ((p.host.memset p.brk.toNat (newbrk - p.brk).toNat).map fun h =>
        (newbrk, { p.setHost h with brk := newbrk }))
  | refused (hlt : p.brk < newbrk) (hltp : p.brk_p < newbrk) (hg : ¬ p.Granted newbrk)
      (p' : Process) (e : BitVec 32) (hhost : p'.host = (p.host.fail e).fail EINVAL) :
      BrkDoes p newbrk (some (p.brk, p'))
  | grown (hlt : p.brk < newbrk) (hltp : p.brk_p < newbrk) (hg : p.Granted newbrk) (p' : Process)
      (hhost : p'.host = p.host.place p.brk_p.toNat (roundupPage (newbrk - p.brk_p)).toNat
        (PROT_READ ||| PROT_WRITE) fun _ => 0) :
      BrkDoes p newbrk ((p'.host.memset p.brk.toNat (p.brk_p - p.brk).toNat).map fun h =>
        (newbrk, { p'.setHost h with brk := newbrk }))

lemma linux_brk_does (p : Process) (newbrk : BitVec 32) :
    BrkDoes p newbrk (linux_brk p newbrk) := by
  rw [linux_brk]
  split
  · rename_i hle
    exact .keep hle
  · rename_i hlt
    rw [BitVec.not_le] at hlt
    simp only
    split
    · rename_i hle
      split
      · rename_i hne
        have hltp : newbrk < p.brk_p := BitVec.lt_def.mpr
          (lt_of_le_of_ne (BitVec.le_def.mp hle) fun h => hne (BitVec.eq_of_toNat_eq h))
        have := BrkDoes.tail hlt hltp
        rwa [Option.map_eq_bind] at this
      · rename_i heq
        exact .full hlt (not_not.mp heq)
    · rename_i hltp
      rw [BitVec.not_le] at hltp
      obtain ⟨r, m', hmap, hcases⟩ := mmap_grow p hltp
      rw [Process.brk_p] at hmap
      rw [Option.bind_eq_bind, hmap, Option.bind_some]
      simp only
      have hdvd : (roundupPage p.brk).toNat % PAGE_SIZE = 0 := roundupPage_dvd _
      rcases hcases with ⟨hg, rfl, e, hhost⟩ | ⟨hg, rfl, hhost⟩
      · rw [if_pos (h2g_none_ne m' hdvd)]
        refine .refused hlt hltp hg _ e ?_
        simp only [Process.setHost, Process.host]
        rw [hhost]
        rfl
      · have hh2g : m'.h2g (some p.brk_p.toNat) = roundupPage p.brk := by
          rw [Mmu.h2g, BitVec.ofNat_toNat, BitVec.setWidth_eq, Process.brk_p]
        rw [if_neg (not_not.mpr hh2g)]
        have := BrkDoes.grown hlt hltp hg { p with mmu := m' } hhost
        rwa [Option.map_eq_bind] at this

lemma linux_brk_keeps (h : linux_brk p newbrk = some (rc, p')) :
    p.host.Keeps (ASPACE_SIZE ≤ ·) p'.host := by
  have hdoes := linux_brk_does p newbrk
  have hlt := newbrk.isLt
  rw [h] at hdoes
  generalize ho : some (rc, p') = o at hdoes
  cases hdoes with
  | keep hle =>
    cases ho
    exact .refl _ _
  | full hlt heq =>
    cases ho
    exact .refl _ _
  | tail hlt hltp =>
    obtain ⟨h1, hm, heq⟩ := Option.map_eq_some_iff.mp ho.symm
    cases heq
    have hlt' := BitVec.lt_def.mp hlt
    refine (Host.keeps_memset hm).mono fun x hx => Or.inr ?_
    rw [BitVec.toNat_sub_of_le (BitVec.le_def.mpr hlt'.le)]
    simp only [ASPACE_SIZE] at hx
    omega
  | refused hlt hltp hg p1 e hhost =>
    cases ho
    rw [hhost]
    exact (Host.keeps_fail _ _ _).trans (Host.keeps_fail _ _ _)
  | grown hlt hltp hg p1 hhost =>
    obtain ⟨h1, hm, heq⟩ := Option.map_eq_some_iff.mp ho.symm
    cases heq
    obtain ⟨r, m', hmap, hcases⟩ := mmap_grow p hltp
    have hk := Mmu.mmap_keeps hmap
    rcases hcases with ⟨hno, -⟩ | ⟨-, -, hhost'⟩
    · exact absurd hg hno
    · rw [hhost', ← hhost] at hk
      refine Host.Keeps.trans hk ((Host.keeps_memset hm).mono fun x hx => Or.inr ?_)
      have hp := toNat_roundupPage p.brk
      rw [← Process.brk_p] at hp
      have hsub := BitVec.toNat_sub p.brk_p p.brk
      have := p.brk.isLt
      simp only [ASPACE_SIZE] at hx
      split at hp <;> omega

lemma linux_mmap2_keeps (h : linux_mmap2 p gaddr len prot flags fd off = some (rc, p')) :
    p.host.Keeps (ASPACE_SIZE ≤ ·) p'.host := by
  rw [linux_mmap2, Option.bind_eq_bind, Option.bind_eq_some_iff] at h
  obtain ⟨⟨ret, m⟩, hmap, h⟩ := h
  have hk := Mmu.mmap_keeps hmap
  cases ret with
  | none =>
    cases h
    exact hk
  | some hptr =>
    cases h
    exact hk

/-- The assertion of `mmu::mmap`. -/
lemma linux_mmap2_leaves (h : ASPACE_SIZE < gaddr.toNat + len.toNat) :
    linux_mmap2 p gaddr len prot flags fd off = none := by
  rw [linux_mmap2, Mmu.mmap, if_neg, Option.bind_eq_bind, Option.bind_none]
  rw [Mmu.inAspace_iff]
  rintro ⟨-, h2⟩
  simp only [ASPACE_SIZE] at h
  omega

/-- The handler of a call, applied to the arguments. -/
def MemCall.run (p : Process) (cpu : ByteMem) (r : Reply) : MemCall → Option Outcome
  | read =>
      some (linux_read p (CPUState.gpr cpu 10) (CPUState.gpr cpu 11) (CPUState.gpr cpu 12) r)
  | write =>
      some (linux_write p (CPUState.gpr cpu 10) (CPUState.gpr cpu 11) (CPUState.gpr cpu 12) r)
  | brk => (linux_brk p (CPUState.gpr cpu 10)).map fun o => ⟨o.1, o.2, (0, 0)⟩
  | munmap =>
      let o := linux_munmap p (CPUState.gpr cpu 10) (CPUState.gpr cpu 11)
      some ⟨o.1, o.2, (0, 0)⟩
  | mmap2 =>
      (linux_mmap2 p (CPUState.gpr cpu 10) (CPUState.gpr cpu 11) (CPUState.gpr cpu 12)
        (CPUState.gpr cpu 13) (CPUState.gpr cpu 14) (CPUState.gpr cpu 15)).map
          fun o => ⟨o.1, o.2, (0, 0)⟩
  | mprotect =>
      let o := linux_mprotect p (CPUState.gpr cpu 10) (CPUState.gpr cpu 11) (CPUState.gpr cpu 12) r
      some ⟨o.1, o.2, (0, 0)⟩
  | getrandom =>
      some (linux_getrandom p (CPUState.gpr cpu 10) (CPUState.gpr cpu 11) (CPUState.gpr cpu 12) r)

variable {other : Process → ByteMem → Option Outcome} {c : MemCall} {r : Reply} {o : Outcome}
  {cpu' : ByteMem}

lemma syscallLinux_eq (hno : CPUState.gpr cpu 17 = c.no) :
    SyscallLinux other r p cpu = (c.run p cpu r).map fun o =>
      (o, CPUState.setGpr (CPUState.setTrapno cpu .NONE) 10 o.rc) := by
  rw [SyscallLinux, dispatch]
  simp only [CPUState.gpr_setTrapno cpu (show 17 < 32 by decide), hno,
    CPUState.gpr_setTrapno cpu (show 10 + 0 < 32 by decide),
    CPUState.gpr_setTrapno cpu (show 10 + 1 < 32 by decide),
    CPUState.gpr_setTrapno cpu (show 10 + 2 < 32 by decide),
    CPUState.gpr_setTrapno cpu (show 10 + 3 < 32 by decide),
    CPUState.gpr_setTrapno cpu (show 10 + 4 < 32 by decide),
    CPUState.gpr_setTrapno cpu (show 10 + 5 < 32 by decide)]
  cases c <;> rfl

/-- A call that names guest memory only keeps the rest. -/
lemma run_keeps (hn : (c.range cpu).1 + (c.range cpu).2 ≤ ASPACE_SIZE)
    (h : c.run p cpu r = some o) :
    p.host.Keeps (ASPACE_SIZE ≤ ·) o.proc.host ∧
      ∀ x, o.read.1 ≤ x → x < o.read.1 + o.read.2 → x < ASPACE_SIZE := by
  cases c with
  | read =>
    cases h
    refine ⟨(Host.keeps_fill r).mono fun x hx => Or.inr (hn.trans hx), fun x _ hx => ?_⟩
    exact absurd hx (Nat.not_lt_zero x)
  | write =>
    cases h
    refine ⟨Host.keeps_drain r, fun x _ hx => hx.trans_le ?_⟩
    exact (Nat.add_le_add_left (Host.drain_le r) _).trans hn
  | brk =>
    obtain ⟨⟨rc, p'⟩, hb, rfl⟩ := Option.map_eq_some_iff.mp h
    exact ⟨linux_brk_keeps hb, fun x _ hx => absurd hx (Nat.not_lt_zero x)⟩
  | munmap =>
    cases h
    refine ⟨?_, fun x _ hx => absurd hx (Nat.not_lt_zero x)⟩
    rw [linux_munmap_host]
    exact Host.keeps_munmap aspace_dvd fun _ => hn
  | mmap2 =>
    rw [MemCall.run, Option.map_eq_some_iff] at h
    obtain ⟨⟨rc, p'⟩, hb, rfl⟩ := h
    exact ⟨linux_mmap2_keeps hb, fun x _ hx => absurd hx (Nat.not_lt_zero x)⟩
  | mprotect =>
    cases h
    refine ⟨?_, fun x _ hx => absurd hx (Nat.not_lt_zero x)⟩
    exact Host.keeps_mprotect _ r aspace_dvd fun _ => hn
  | getrandom =>
    cases h
    refine ⟨(Host.keeps_fill r).mono fun x hx => Or.inr (hn.trans hx), fun x _ hx => ?_⟩
    exact absurd hx (Nat.not_lt_zero x)

/-- The host turns down a call of `munmap` or `mprotect` that does not name a page. -/
lemma run_misaligned (hc : c = .munmap ∨ c = .mprotect)
    (ha : (c.range cpu).1 % PAGE_SIZE ≠ 0) (h : c.run p cpu r = some o) :
    o.rc = -EINVAL ∧ o.read = (0, 0) ∧ ∀ P, p.host.Keeps P o.proc.host := by
  rcases hc with rfl | rfl
  · cases h
    have hm : p.host.munmap (CPUState.gpr cpu 10).toNat (CPUState.gpr cpu 11).toNat =
        (false, p.host.fail EINVAL) := Host.munmap_misaligned ha
    rw [linux_munmap, hm]
    exact ⟨rfl, rfl, fun P => Host.keeps_fail P _ _⟩
  · cases h
    have hm : p.host.mprotect (CPUState.gpr cpu 10).toNat (CPUState.gpr cpu 11).toNat
        (CPUState.gpr cpu 12) r = p.host.result (some EINVAL) 0 := Host.mprotect_misaligned _ r ha
    rw [linux_mprotect, hm]
    exact ⟨rfl, rfl, fun P x _ => rfl⟩

lemma stays_of_namesGuest (hno : CPUState.gpr cpu 17 = c.no) (hn : NamesGuest c cpu) :
    Stays other c cpu := by
  intro r p
  rw [syscallLinux_eq hno]
  cases ho : c.run p cpu r with
  | none =>
    rcases hn with hn | ⟨hc, -⟩
    · exact not_lt.mpr hn
    · rcases hc with rfl | rfl <;> cases ho
  | some o =>
    rcases hn with hn | ⟨hc, ha⟩
    · obtain ⟨hk, hread⟩ := run_keeps hn ho
      exact ⟨hk, hread, fun hl => absurd hl (not_lt.mpr hn)⟩
    · obtain ⟨hrc, hread, hk⟩ := run_misaligned hc ha ho
      refine ⟨hk _, fun x _ hx => ?_, fun _ => ⟨?_, hk _⟩⟩
      · rw [hread] at hx
        exact absurd hx (Nat.not_lt_zero x)
      · rw [CPUState.gpr_setGpr_same, hrc]
        simp only [IsErrno]
        decide

/-! ### A call that leaves the guest's memory -/

/-- A process all of whose memory is mapped, and, above, that of the simulator. -/
def fullHost : Process where
  mmu :=
    { host :=
        { pages := fun p => if p < 2 ^ 21 then some ⟨PROT_READ ||| PROT_WRITE, 0⟩ else none
          mem := fun _ => 0
          files := fun _ => none
          answers := fun _ => .placed 0
          calls := 1
          errno := 0
          past := by
            intro p pg hpg
            split at hpg
            · cases hpg
              exact Nat.one_pos
            · cases hpg }
      base := 0
      used_pages := fun _ => true
      mmap_hint_page := Mmu.firstPage }
  brk := 0

lemma fullHost_pages {p : ℕ} (h : p < 2 ^ 21) :
    fullHost.host.pages p = some ⟨PROT_READ ||| PROT_WRITE, 0⟩ := if_pos h

/-- All of a range is mapped, and can be read and written. -/
lemma fullHost_reaches {ok : ℕ → Bool} (hok : ∀ p, p < 2 ^ 21 → ok p) {addr n : ℕ}
    (h : addr + n ≤ 2 ^ 33) : Host.reaches addr n ok := by
  rw [Host.reaches, decide_eq_true_eq]
  by_cases hn : n = 0
  · exact Or.inl hn
  · refine Or.inr (List.all_eq_true.mpr fun p hp => hok p ?_)
    rw [List.mem_range'_1] at hp
    simp only [PAGE_SIZE] at hp
    omega

lemma fullHost_writable {p : ℕ} (h : p < 2 ^ 21) : fullHost.host.writable p := by
  rw [Host.writable, fullHost_pages h]
  rfl

lemma fullHost_readable {p : ℕ} (h : p < 2 ^ 21) : fullHost.host.readable p := by
  rw [Host.readable, fullHost_pages h]
  rfl

/-- The host gets to the first byte of a buffer, or to all of a range of pages. -/
def oneByte : Reply := ⟨none, 1, fun _ => 0⟩

lemma min_one_count {count : ℕ} (h : count ≠ 0) : min 1 (min count MAX_RW_COUNT) = 1 := by
  simp only [MAX_RW_COUNT]
  omega

lemma fullHost_fill {addr count : ℕ} (hc : count ≠ 0) (h : addr < 2 ^ 32) :
    (fullHost.host.fill addr count oneByte).1 = 1 := by
  rw [Host.fill]
  simp only [oneByte, min_one_count hc]
  rw [if_pos (fullHost_reaches (fun p hp => fullHost_writable hp) (by omega))]
  rfl

lemma fullHost_drain {addr count : ℕ} (hc : count ≠ 0) (h : addr < 2 ^ 32) :
    (fullHost.host.drain addr count oneByte).2.1 = 1 := by
  rw [Host.drain]
  simp only [oneByte, min_one_count hc]
  rw [if_pos (fullHost_reaches (fun p hp => fullHost_readable hp) (by omega))]
  rfl

lemma fullHost_munmap {gaddr len : BitVec 32} (ha : gaddr.toNat % PAGE_SIZE = 0)
    (hl : len.toNat ≠ 0) : (linux_munmap fullHost gaddr len).1 = 0 := by
  rw [linux_munmap, Host.munmap, if_neg (by simp [ha, hl])]
  rfl

lemma fullHost_mprotect {start len prot : BitVec 32} (ha : start.toNat % PAGE_SIZE = 0) :
    (linux_mprotect fullHost start len prot ⟨none, len.toNat, fun _ => 0⟩).1 = 0 := by
  have h1 := start.isLt
  have h2 := len.isLt
  have hmapped : Host.reaches start.toNat len.toNat fun p => (fullHost.host.pages p).isSome :=
    fullHost_reaches (fun p hp => by rw [fullHost_pages hp]; rfl) (by omega)
  rw [linux_mprotect, Host.mprotect, if_neg (not_not.mpr ha)]
  simp only [min_self]
  rw [if_pos ⟨trivial, hmapped⟩]
  rfl

/-- A call that leaves the guest's memory and is not turned down by the host for its address is
answered with a number that is no error, or aborts the simulator. -/
lemma not_stays (hno : CPUState.gpr cpu 17 = c.no) (hn : ¬ NamesGuest c cpu) :
    ¬ Stays other c cpu := by
  obtain ⟨hleaves, hpage⟩ := not_or.mp hn
  have hleaves : c.Leaves cpu := not_le.mp hleaves
  have hfirst : (c.range cpu).1 < 2 ^ 32 := by
    cases c <;> first | exact (CPUState.gpr cpu _).isLt | exact Nat.two_pow_pos 32
  have hlen : (c.range cpu).2 ≠ 0 := by
    rw [MemCall.Leaves, ASPACE_SIZE] at hleaves
    omega
  have key : ∀ r o, c.run fullHost cpu r = some o → (o.rc = 0 ∨ o.rc = 1) →
      ¬ Stays other c cpu := by
    intro r o ho hrc hs
    have hs := hs r fullHost
    rw [syscallLinux_eq hno, ho] at hs
    have hrefused := (hs.refused hleaves).1
    rw [CPUState.gpr_setGpr_same, IsErrno] at hrefused
    rcases hrc with hrc | hrc <;> rw [hrc] at hrefused <;> exact absurd hrefused (by decide)
  cases c with
  | read => exact key oneByte _ rfl (Or.inr (fullHost_fill hlen hfirst))
  | write => exact key oneByte _ rfl (Or.inr (fullHost_drain hlen hfirst))
  | brk =>
    have := (CPUState.gpr cpu 10).isLt
    simp only [MemCall.Leaves, MemCall.range, ASPACE_SIZE] at hleaves
    omega
  | munmap =>
    have ha : (CPUState.gpr cpu 10).toNat % PAGE_SIZE = 0 :=
      not_not.mp fun hne => hpage ⟨Or.inl rfl, hne⟩
    exact key oneByte _ rfl (Or.inl (fullHost_munmap ha hlen))
  | mmap2 =>
    intro hs
    have hs := hs oneByte fullHost
    rw [syscallLinux_eq hno, MemCall.run, linux_mmap2_leaves hleaves] at hs
    exact hs hleaves
  | mprotect =>
    have ha : (CPUState.gpr cpu 10).toNat % PAGE_SIZE = 0 :=
      not_not.mp fun hne => hpage ⟨Or.inr rfl, hne⟩
    exact key ⟨none, (CPUState.gpr cpu 11).toNat, fun _ => 0⟩ _ rfl (Or.inl (fullHost_mprotect ha))
  | getrandom => exact key oneByte _ rfl (Or.inr (fullHost_fill hlen hfirst))

/-- A system call on memory stays inside the guest's memory if and only if it names guest memory,
or is `munmap` or `mprotect` with an address that is not that of a page. -/
theorem stays_iff (other : Process → ByteMem → Option Outcome) (c : MemCall) (cpu : ByteMem)
    (hno : CPUState.gpr cpu 17 = c.no) : Stays other c cpu ↔ NamesGuest c cpu :=
  ⟨fun hs => by_contra fun hn => not_stays hno hn hs, stays_of_namesGuest hno⟩

end

/-- The registers of a call of `munmap`. -/
def munmapState (gaddr len : BitVec 32) : ByteMem :=
  CPUState.setGpr (CPUState.setGpr (CPUState.setGpr (fun _ => 0) 10 gaddr) 11 len) 17
    MemCall.munmap.no

theorem stays_iff_munmap :
    CPUState.gpr (munmapState 0xFFFFF000 0x2000) 17 = MemCall.munmap.no ∧
      (Stays (fun _ _ => none) .munmap (munmapState 0xFFFFF000 0x2000) ↔
        NamesGuest .munmap (munmapState 0xFFFFF000 0x2000)) :=
  ⟨CPUState.gpr_setGpr_same _ _ _, stays_iff (fun _ _ => none) .munmap _
    (CPUState.gpr_setGpr_same _ _ _)⟩

/-- Two pages are unmapped at the last page of the guest's memory: the second is the first one
above it. -/
theorem not_stays_munmap :
    ∃ o cpu', SyscallLinux (fun _ _ => none) oneByte fullHost (munmapState 0xFFFFF000 0x2000) =
        some (o, cpu') ∧
      (fullHost.host.view ASPACE_SIZE).isSome ∧ (o.proc.host.view ASPACE_SIZE).isNone ∧
      CPUState.gpr cpu' 10 = 0 ∧
      ¬ Stays (fun _ _ => none) .munmap (munmapState 0xFFFFF000 0x2000) := by
  have h10 : CPUState.gpr (munmapState 0xFFFFF000 0x2000) 10 = 0xFFFFF000 := by decide
  have h11 : CPUState.gpr (munmapState 0xFFFFF000 0x2000) 11 = 0x2000 := by decide
  have hno : CPUState.gpr (munmapState 0xFFFFF000 0x2000) 17 = MemCall.munmap.no :=
    CPUState.gpr_setGpr_same _ _ _
  have hm : fullHost.host.munmap (0xFFFFF000 : BitVec 32).toNat (0x2000 : BitVec 32).toNat =
      (true, fullHost.host.unplace 0xFFFFF000 0x2000) := by
    rw [Host.munmap, if_neg (by decide)]
    rfl
  have hrun : MemCall.munmap.run fullHost (munmapState 0xFFFFF000 0x2000) oneByte =
      some ⟨0, fullHost.setHost (fullHost.host.unplace 0xFFFFF000 0x2000), (0, 0)⟩ := by
    rw [MemCall.run, h10, h11, linux_munmap, hm]
  have hleaves : MemCall.munmap.Leaves (munmapState 0xFFFFF000 0x2000) := by
    rw [MemCall.Leaves, MemCall.range, h10, h11]
    decide
  refine ⟨_, _, by rw [syscallLinux_eq hno, hrun, Option.map_some], ?_, ?_, ?_, fun hs => ?_⟩
  · rw [Host.view, fullHost_pages (by decide)]
    rfl
  · have hp : 0xFFFFF000 / PAGE_SIZE ≤ ASPACE_SIZE / PAGE_SIZE ∧
        ASPACE_SIZE / PAGE_SIZE < (0xFFFFF000 + 0x2000 + (PAGE_SIZE - 1)) / PAGE_SIZE := by
      norm_num [ASPACE_SIZE, PAGE_SIZE]
    have hpage :
        (fullHost.host.unplace 0xFFFFF000 0x2000).pages (ASPACE_SIZE / PAGE_SIZE) = none := by
      simp only [Host.unplace, if_pos hp]
    change Option.isNone (((fullHost.host.unplace 0xFFFFF000 0x2000).pages _).map _) = true
    rw [hpage]
    rfl
  · exact CPUState.gpr_setGpr_same _ _ _
  · have hs := hs oneByte fullHost
    rw [syscallLinux_eq hno, hrun] at hs
    have := (hs.refused hleaves).1
    rw [CPUState.gpr_setGpr_same, IsErrno] at this
    exact absurd this (by decide)

end Rv32jit.Env
