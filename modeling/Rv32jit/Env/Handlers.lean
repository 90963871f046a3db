/-
# The system calls

The handlers of `env.cpp` with the conversion of the host's results, and `env::SyscallLinux`.  For
mappings the host is the one of the process; all other calls are passed on.  A call that fails
leaves the guest's memory as it is.
-/
import Rv32jit.Env.PathResolution

namespace Rv32jit.Env

/-- The calls that `SyscallLinux` handles. -/
inductive SyscallID
  | openat | close | llseek | read | write | readlinkat | fstat64 | exit | exit_group
  | set_tid_address | set_robust_list | rt_sigaction | uname | getuid | geteuid | getgid | getegid
  | sysinfo | brk | munmap | mmap2 | mprotect | prlimit64 | getrandom | statx | clock_gettime64
deriving DecidableEq

namespace SyscallID

/-- The numbers of `syscalls.h`. -/
def no : SyscallID → BitVec 32
  | openat => 56
  | close => 57
  | llseek => 62
  | read => 63
  | write => 64
  | readlinkat => 78
  | fstat64 => 80
  | exit => 93
  | exit_group => 94
  | set_tid_address => 96
  | set_robust_list => 99
  | rt_sigaction => 134
  | uname => 160
  | getuid => 174
  | geteuid => 175
  | getgid => 176
  | getegid => 177
  | sysinfo => 179
  | brk => 214
  | munmap => 215
  | mmap2 => 222
  | mprotect => 226
  | prlimit64 => 261
  | getrandom => 278
  | statx => 291
  | clock_gettime64 => 403

/-- All calls. -/
def all : List SyscallID :=
  [openat, close, llseek, read, write, readlinkat, fstat64, exit, exit_group, set_tid_address,
    set_robust_list, rt_sigaction, uname, getuid, geteuid, getgid, getegid, sysinfo, brk, munmap,
    mmap2, mprotect, prlimit64, getrandom, statx, clock_gettime64]

/-- The call of a number. -/
def ofNo (syscallno : BitVec 32) : Option SyscallID := all.find? fun id => id.no = syscallno

lemma ofNo_no (id : SyscallID) : ofNo id.no = some id := by
  cases id <;> rfl

end SyscallID

/-- The error of a call that is not there. -/
def ENOSYS : BitVec 32 := 38

/-- The resource limit on data. -/
def RLIMIT_DATA : BitVec 32 := 2

/-- The resource limit on the stack. -/
def RLIMIT_STACK : BitVec 32 := 3

/-- The resource limit on the address space. -/
def RLIMIT_AS : BitVec 32 := 9

/-- What a call has for its buffers. -/
def HostCall.Answer.data : HostCall.Answer → ByteMem
  | .error _ => fun _ => 0
  | .ok r => r.data

/-- The state after a call that has been done, where `serve` is what the host does to it. -/
def Sim.served (s : Sim) (serve : Ret → Sim → Sim) : HostCall.Answer → Sim
  | .error _ => s
  | .ok r => serve r s

/-- The string at an address, within `n` bytes. -/
def guestString (s : Sim) : ℕ → ℕ → Option (List Char)
  | 0, _ => none
  | n + 1, a =>
    if s.host.readable (a / PAGE_SIZE) then
      if s.mem a = 0 then some []
      else (guestString s n (a + 1)).map (Char.ofNat (s.mem a).toNat :: ·)
    else none

/-- The values that are stored to fields of a structure: their places, lengths and contents. -/
def storeFields (s : Sim) (addr : ℕ) : List (ℕ × ℕ × BitVec 64) → Handling Sim
  | [] => pure s
  | (offs, n, v) :: fields => do
    let s ← store s (addr + offs) n v
    storeFields s addr fields

namespace env_syscall

variable (s : Sim)

/-- `rcerrno`: the number of the error in place of a negative result. -/
def rcerrno (rc : BitVec 32) : BitVec 32 := if rc.toInt < 0 then -s.errno else rc

/-- A call whose result goes through `rcerrno`. -/
def forward (c : HostCall) (serve : Ret → Sim → Sim) : Handling (BitVec 32 × Sim) := do
  let (a, s) ← hostCall s c
  let s := s.served serve a
  pure (rcerrno s (a.rc.setWidth 32), s)

/-- A call whose result is returned as it is. -/
def plain (c : HostCall) : Handling (BitVec 32 × Sim) := do
  let (a, s) ← hostCall s c
  pure (a.rc.setWidth 32, s)

/-- `linux_openat`: the path is passed on as it is. -/
def linux_openat (dfd filename flags mode : BitVec 32) : Handling (BitVec 32 × Sim) :=
  forward s (.openat dfd filename.toNat flags mode) fun _ => id

/-- `linux_close`: the standard streams stay open. -/
def linux_close (fd : BitVec 32) : Handling (BitVec 32 × Sim) :=
  if fd < 3 then pure (0, s) else forward s (.close fd) fun _ => id

/-- `linux_llseek`: the position goes through an `int`, and the result is 0 whatever it is. -/
def linux_llseek (fd offset_high offset_low result whence : BitVec 32) :
    Handling (BitVec 32 × Sim) := do
  let off : BitVec 64 := offset_high.setWidth 64 <<< 32 ||| offset_low.setWidth 64
  let (a, s) ← hostCall s (.lseek fd off whence)
  -- an `int`
  let rc := a.rc.setWidth 32
  let s ← if 0 ≤ rc.toInt then store s result.toNat 8 (rc.signExtend 64) else pure s
  pure (0, s)

/-- `linux_read`, straight into the guest's buffer. -/
def linux_read (fd buf count : BitVec 32) : Handling (BitVec 32 × Sim) :=
  forward s (.read fd buf.toNat count) fun r s => s.fill buf.toNat r.rc r.data

/-- `linux_write`, straight from the guest's buffer. -/
def linux_write (fd buf count : BitVec 32) : Handling (BitVec 32 × Sim) :=
  forward s (.write fd buf.toNat count) fun _ => id

/-- The path that `linux_readlinkat` and `linux_statx` pass on; nothing if it is not resolved. -/
def pathbuf (dfd path : BitVec 32) : Handling (Option (List Char) × Sim) := do
  let c ← load s path.toNat 1
  if c ≠ 0 then do
    let path ← orAbort (guestString s ASPACE_SIZE path.toNat)
    PathResolution s dfd path
  else pure (some [], s)

/-- A call on a path. -/
def onPath (dfd path : BitVec 32) (c : List Char → HostCall) (serve : Ret → Sim → Sim) :
    Handling (BitVec 32 × Sim) := do
  let (resolved, s) ← pathbuf s dfd path
  match resolved with
  | none => pure (-s.errno, s)
  | some resolved => forward s (c resolved) serve

/-- `linux_readlinkat` on the resolved path. -/
def linux_readlinkat (dfd path buf bufsiz : BitVec 32) : Handling (BitVec 32 × Sim) :=
  onPath s dfd path (fun p => .readlinkat dfd p buf.toNat bufsiz)
    fun r s => s.fill buf.toNat r.rc r.data

/-- `sizeof(struct stat)` is 144. -/
def linux_fstat64 (fd statbuf : BitVec 32) : Handling (BitVec 32 × Sim) :=
  forward s (.fstatat fd statbuf.toNat) fun r s => s.fill statbuf.toNat 144 r.data

/-- The host does not write to the variable that it is given. -/
def linux_set_tid_address (tidptr : BitVec 32) : Handling (BitVec 32 × Sim) := do
  let (a, s) ← hostCall s .set_tid_address
  if a.rc.toInt < 0 then pure (-s.errno, s)
  else do
    let s ← store s tidptr.toNat 4 s.local_var
    pure (a.rc.setWidth 32, s)

/-- `strcpy` of "riscv32" and its terminator, as a number. -/
def riscv32 : BitVec 64 := 0x0032337663736972

/-- The six fields of `struct utsname` have 65 bytes each, and `machine` is the fifth. -/
def linux_uname (name : BitVec 32) : Handling (BitVec 32 × Sim) := do
  let (a, s) ← hostCall s (.uname name.toNat)
  let s := s.served (fun r s => s.fill name.toNat 390 r.data) a
  let s ← store s (name.toNat + 260) 8 riscv32
  pure (rcerrno s (a.rc.setWidth 32), s)

/-- `linux_getuid`. -/
def linux_getuid : Handling (BitVec 32 × Sim) := plain s .getuid

/-- `linux_geteuid`. -/
def linux_geteuid : Handling (BitVec 32 × Sim) := plain s .geteuid

/-- `linux_getgid`. -/
def linux_getgid : Handling (BitVec 32 × Sim) := plain s .getgid

/-- `linux_getegid`. -/
def linux_getegid : Handling (BitVec 32 × Sim) := plain s .getegid

/-- The fields of `uabi_sysinfo` that are filled in from the host's `struct sysinfo`. -/
def sysinfoFields (host_info : ByteMem) : List (ℕ × ℕ × BitVec 64) :=
  [(0, 4, host_info.load 0 8), (4, 4, host_info.load 8 8), (8, 4, host_info.load 16 8),
    (12, 4, host_info.load 24 8), (16, 4, 1 <<< 30), (20, 4, 500 <<< 20), (36, 4, 1 <<< 20),
    (32, 4, 1 <<< 20), (28, 4, 1 <<< 20), (24, 4, 1 <<< 20), (40, 2, host_info.load 80 2),
    (48, 4, 1 <<< 20), (44, 4, 1 <<< 20), (52, 4, 1)]

/-- `linux_sysinfo`: the buffer is filled if the result is positive. -/
def linux_sysinfo (info : BitVec 32) : Handling (BitVec 32 × Sim) := do
  let (a, s) ← hostCall s .sysinfo
  let rc := a.rc.setWidth 32
  let s ← if 0 < rc.toInt then storeFields s info.toNat (sysinfoFields a.data) else pure s
  pure (rcerrno s rc, s)

/-- `linux_brk` on the process. -/
def linux_brk (newbrk : BitVec 32) : Handling (BitVec 32 × Sim) := do
  let (rc, p) ← orAbort (Env.linux_brk s.proc newbrk)
  pure (rc, { s with proc := p })

/-- `linux_munmap` on the host of the process. -/
def linux_munmap (gaddr len : BitVec 32) : Handling (BitVec 32 × Sim) :=
  let (done, h) := s.host.munmap gaddr.toNat len.toNat
  let s := s.setHost h
  pure (rcerrno s (if done then 0 else -1), s)

/-- `linux_mmap2` on the process. -/
def linux_mmap2 (gaddr len prot flags fd off : BitVec 32) : Handling (BitVec 32 × Sim) := do
  let (rc, p) ← orAbort (Env.linux_mmap2 s.proc gaddr len prot flags fd off)
  pure (rc, { s with proc := p })

/-- `linux_mprotect`; the pages are changed if the host says so. -/
def linux_mprotect (start len prot : BitVec 32) : Handling (BitVec 32 × Sim) :=
  forward s (.mprotect start.toNat len.toNat prot) fun _ s =>
    s.setHost (s.host.protect start.toNat len.toNat prot)

/-- `new_rlim` is looked at. -/
def takesLimit (resource new_rlim : BitVec 32) : Prop :=
  ¬ (s.zero_mmu_base ∧ new_rlim = 0) ∧
    ¬ (resource = RLIMIT_AS ∨ resource = RLIMIT_STACK ∨ resource = RLIMIT_DATA)

instance (resource new_rlim : BitVec 32) : Decidable (takesLimit s resource new_rlim) :=
  inferInstanceAs (Decidable (_ ∧ _))

/-- The limit that the host is given. -/
def newLimit (resource new_rlim : BitVec 32) : Handling (Option (BitVec 64 × BitVec 64)) :=
  if takesLimit s resource new_rlim then do
    let rlim_cur ← load s new_rlim.toNat 8
    let rlim_max ← load s (new_rlim.toNat + 8) 8
    pure (some (rlim_cur, rlim_max))
  else pure none

/-- `linux_prlimit64`: the old limit is stored whenever the call succeeds. -/
def linux_prlimit64 (pid resource new_rlim old_rlim : BitVec 32) :
    Handling (BitVec 32 × Sim) := do
  let h_new_rlim ← newLimit s resource new_rlim
  let (a, s) ← hostCall s (.prlimit64 pid resource h_new_rlim)
  if a.rc.toInt < 0 then pure (-s.errno, s)
  else do
    let s ← storeFields s old_rlim.toNat [(0, 8, a.data.load 0 8), (8, 8, a.data.load 8 8)]
    pure (a.rc.setWidth 32, s)

/-- `linux_getrandom`, straight into the guest's buffer. -/
def linux_getrandom (buf count flags : BitVec 32) : Handling (BitVec 32 × Sim) :=
  forward s (.getrandom buf.toNat count flags) fun r s => s.fill buf.toNat r.rc r.data

/-- `sizeof(struct statx)` is 256. -/
def linux_statx (dfd path flags mask buffer : BitVec 32) : Handling (BitVec 32 × Sim) :=
  onPath s dfd path (fun p => .statx dfd p flags mask buffer.toNat)
    fun r s => s.fill buffer.toNat 256 r.data

/-- The arguments of a system call. -/
def args (cpu : ByteMem) (i : Fin 7) : BitVec 32 := CPUState.gpr cpu (10 + i)

/-- The `dispatch` of `SyscallLinux`.  `linux_clock_gettime64`, which computes with floating-point
numbers, is given from outside. -/
def dispatch (linux_clock_gettime64 : Sim → BitVec 32 → BitVec 32 → Handling (BitVec 32 × Sim))
    (cpu : ByteMem) : Handling (BitVec 32 × Sim × ByteMem) :=
  let a := args cpu
  let handle (h : Handling (BitVec 32 × Sim)) : Handling (BitVec 32 × Sim × ByteMem) := do
    let (rc, s) ← h
    pure (rc, s, cpu)
  match SyscallID.ofNo (CPUState.gpr cpu 17) with
  | none => .abort
  | some .openat => handle (linux_openat s (a 0) (a 1) (a 2) (a 3))
  | some .close => handle (linux_close s (a 0))
  | some .llseek => handle (linux_llseek s (a 0) (a 1) (a 2) (a 3) (a 4))
  | some .read => handle (linux_read s (a 0) (a 1) (a 2))
  | some .write => handle (linux_write s (a 0) (a 1) (a 2))
  | some .readlinkat => handle (linux_readlinkat s (a 0) (a 1) (a 2) (a 3))
  | some .fstat64 => handle (linux_fstat64 s (a 0) (a 1))
  | some .set_tid_address => handle (linux_set_tid_address s (a 0))
  | some .set_robust_list => handle (pure (-ENOSYS, s))
  | some .exit | some .exit_group => pure (a 0, s, CPUState.setTrapno cpu .TERMINATED)
  | some .rt_sigaction => handle (pure (0, s))
  | some .uname => handle (linux_uname s (a 0))
  | some .getuid => handle (linux_getuid s)
  | some .geteuid => handle (linux_geteuid s)
  | some .getgid => handle (linux_getgid s)
  | some .getegid => handle (linux_getegid s)
  | some .sysinfo => handle (linux_sysinfo s (a 0))
  | some .brk => handle (linux_brk s (a 0))
  | some .munmap => handle (linux_munmap s (a 0) (a 1))
  | some .mmap2 => handle (linux_mmap2 s (a 0) (a 1) (a 2) (a 3) (a 4) (a 5))
  | some .mprotect => handle (linux_mprotect s (a 0) (a 1) (a 2))
  | some .prlimit64 => handle (linux_prlimit64 s (a 0) (a 1) (a 2) (a 3))
  | some .getrandom => handle (linux_getrandom s (a 0) (a 1) (a 2))
  | some .statx => handle (linux_statx s (a 0) (a 1) (a 2) (a 3) (a 4))
  | some .clock_gettime64 => handle (linux_clock_gettime64 s (a 0) (a 1))

end env_syscall

/-- `env::SyscallLinux`. -/
def Sim.SyscallLinux
    (linux_clock_gettime64 : Sim → BitVec 32 → BitVec 32 → Handling (BitVec 32 × Sim))
    (s : Sim) (cpu : ByteMem) : Handling (Sim × ByteMem) := do
  let cpu := CPUState.setTrapno cpu .NONE
  let (rc, s, cpu) ← env_syscall.dispatch s linux_clock_gettime64 cpu
  pure (s, CPUState.setGpr cpu 10 rc)

/-! ### The calls on memory

With a host that answers the requests as in the model of the calls on memory, the handlers come to
the same. -/

/-- The host's answer about a buffer that it fills. -/
def Host.fillAnswer (h : Host) (addr count : ℕ) (r : Reply) : HostCall.Answer :=
  let n := min r.done (min count MAX_RW_COUNT)
  if Host.reaches addr n h.writable then
    match r.errno with
    | some e => .error e
    | none => .ok ⟨n, r.data, []⟩
  else .error EFAULT

/-- The host's answer about a buffer that it reads. -/
def Host.drainAnswer (h : Host) (addr count : ℕ) (r : Reply) : HostCall.Answer :=
  let n := min r.done (min count MAX_RW_COUNT)
  if Host.reaches addr n h.readable then
    match r.errno with
    | some e => .error e
    | none => .ok ⟨n, r.data, []⟩
  else .error EFAULT

/-- The host's answer about the protection of a range. -/
def Host.protectAnswer (h : Host) (addr count : ℕ) (r : Reply) : HostCall.Answer :=
  if addr % PAGE_SIZE ≠ 0 then .error EINVAL
  else
    match r.errno with
    | some e => .error e
    | none =>
        if min r.done count = count ∧ Host.reaches addr count fun p => (h.pages p).isSome then
          .ok ⟨0, fun _ => 0, []⟩
        else .error ENOMEM

/-- The host answers a request about memory as the reply says, and a request that fails has changed
nothing. -/
structure Serves (r : Reply) (h : Host) (c : HostCall) (a : HostCall.Answer) : Prop where
  fill : ∀ fd buf count, c = .read fd buf count → a = h.fillAnswer buf count.toNat r
  fillRandom : ∀ buf count flags, c = .getrandom buf count flags →
    a = h.fillAnswer buf count.toNat r
  drain : ∀ fd buf count, c = .write fd buf count → a = h.drainAnswer buf count.toNat r
  protect : ∀ addr len prot, c = .mprotect addr len prot → a = h.protectAnswer addr len r
  failed : ∀ e, a = .error e → r.done = 0

section

variable {s : Sim} {env : ℕ → HostCall → HostCall.Answer} {n : ℕ} {c : HostCall} {r : Reply}
  {fd buf count flags gaddr len start prot : BitVec 32}

lemma run_forward (c : HostCall) (serve : Ret → Sim → Sim) :
    (env_syscall.forward s c serve).run env n =
      (some (env_syscall.rcerrno ((s.after (env n c)).served serve (env n c))
        ((env n c).rc.setWidth 32), (s.after (env n c)).served serve (env n c)),
      [(c, env n c)]) := rfl

lemma setWidth_rc_error (e : BitVec 32) :
    (HostCall.Answer.rc (.error e)).setWidth 32 = (-1 : BitVec 32) := by
  show (-1 : BitVec 64).setWidth 32 = (-1 : BitVec 32)
  decide

lemma setWidth_rc_ok (r : Ret) :
    (HostCall.Answer.rc (.ok r)).setWidth 32 = BitVec.ofNat 32 r.rc :=
  BitVec.setWidth_ofNat_of_le (by norm_num) r.rc

lemma ofNat_nonneg {k : ℕ} (h : k < 2 ^ 31) : ¬ (BitVec.ofNat 32 k).toInt < 0 := by
  rw [BitVec.toInt_eq_toNat_cond, BitVec.toNat_ofNat, Nat.mod_eq_of_lt (by omega)]
  split <;> omega

lemma rcerrno_error (s : Sim) : env_syscall.rcerrno s (-1) = -s.errno :=
  if_pos (by decide)

lemma rcerrno_ok (s : Sim) {k : ℕ} (h : k < 2 ^ 31) :
    env_syscall.rcerrno s (BitVec.ofNat 32 k) = BitVec.ofNat 32 k :=
  if_neg (ofNat_nonneg h)

lemma fillBytes_zero (h : Host) (addr : ℕ) (data : ByteMem) : h.fillBytes addr 0 data = h := by
  have hmem : (h.fillBytes addr 0 data).mem = h.mem := funext fun x => if_neg (by omega)
  exact congrArg (fun m => { h with mem := m }) hmem

/-- Nothing is changed in the protection of no bytes. -/
lemma protect_zero (h : Host) {addr : ℕ} (haddr : addr % PAGE_SIZE = 0) (prot : BitVec 32) :
    h.protect addr 0 prot = h := by
  have hpages : (h.protect addr 0 prot).pages = h.pages := by
    funext p
    refine if_neg ?_
    simp only [PAGE_SIZE] at *
    omega
  obtain ⟨pages, mem, files, answers, calls, errno, past⟩ := h
  simp only [Host.protect, Host.mk.injEq, and_true] at hpages ⊢
  exact hpages

/-- A call that fills a buffer. -/
lemma run_forward_fill (ha : env n c = s.host.fillAnswer buf.toNat count.toNat r)
    (hfail : ∀ e, env n c = .error e → r.done = 0) :
    ((env_syscall.forward s c fun r s => s.fill buf.toNat r.rc r.data).run env n).1 =
      some ((s.host.fill buf.toNat count.toNat r).1,
        s.setHost (s.host.fill buf.toNat count.toNat r).2) := by
  have hle : min r.done (min count.toNat MAX_RW_COUNT) < 2 ^ 31 := by
    rw [MAX_RW_COUNT]
    omega
  rw [ha] at hfail
  rw [run_forward, ha]
  rw [Host.fillAnswer] at hfail ⊢
  rw [Host.fill]
  simp only at hfail ⊢
  split
  · rename_i hreach
    rw [if_pos hreach] at hfail
    cases he : r.errno with
    | some e =>
      simp only [he, Except.error.injEq, forall_eq'] at hfail
      simp only [Host.result, hfail, Nat.zero_min, fillBytes_zero]
      rw [setWidth_rc_error, rcerrno_error]
      rfl
    | none =>
      simp only [Host.result]
      rw [setWidth_rc_ok, rcerrno_ok _ hle]
      rfl
  · simp only [Host.result]
    rw [setWidth_rc_error, rcerrno_error]
    rfl

/-- A call that reads a buffer. -/
lemma run_forward_drain (ha : env n c = s.host.drainAnswer buf.toNat count.toNat r) :
    ((env_syscall.forward s c fun _ => id).run env n).1 =
      some ((s.host.drain buf.toNat count.toNat r).2.1,
        s.setHost (s.host.drain buf.toNat count.toNat r).2.2) := by
  have hle : min r.done (min count.toNat MAX_RW_COUNT) < 2 ^ 31 := by
    rw [MAX_RW_COUNT]
    omega
  rw [run_forward, ha, Host.drainAnswer, Host.drain]
  simp only
  split
  · cases r.errno with
    | some e =>
      simp only [Host.result]
      rw [setWidth_rc_error, rcerrno_error]
      rfl
    | none =>
      simp only [Host.result]
      rw [setWidth_rc_ok, rcerrno_ok _ hle]
      rfl
  · simp only [Host.result]
    rw [setWidth_rc_error, rcerrno_error]
    rfl

/-- A call that changes a protection. -/
lemma run_linux_mprotect
    (ha : env n (.mprotect start.toNat len.toNat prot) =
      s.host.protectAnswer start.toNat len.toNat r)
    (hfail : ∀ e, env n (.mprotect start.toNat len.toNat prot) = .error e → r.done = 0) :
    ((env_syscall.linux_mprotect s start len prot).run env n).1 =
      some ((s.host.mprotect start.toNat len.toNat prot r).1,
        s.setHost (s.host.mprotect start.toNat len.toNat prot r).2) := by
  have herr : ∀ e, s.host.protectAnswer start.toNat len.toNat r = .error e →
      s.host.mprotect start.toNat len.toNat prot r = s.host.result (some e) 0 := by
    intro e he
    have hdone : r.done = 0 := hfail e (ha.trans he)
    rw [Host.protectAnswer] at he
    rw [Host.mprotect]
    split at he
    · rename_i haddr
      cases he
      rw [if_pos haddr]
    · rename_i haddr
      rw [if_neg haddr]
      simp only [hdone, Nat.zero_min, protect_zero _ (not_not.mp haddr)] at he ⊢
      cases hr : r.errno with
      | some e' =>
        rw [hr] at he
        cases he
        rfl
      | none =>
        rw [hr] at he
        simp only at he ⊢
        split at he
        · cases he
        · rename_i hno
          cases he
          rw [if_neg hno]
  rw [env_syscall.linux_mprotect, run_forward]
  cases hans : s.host.protectAnswer start.toNat len.toNat r with
  | error e =>
    rw [herr e hans, ha, hans, setWidth_rc_error]
    rfl
  | ok a =>
    rw [ha, hans]
    rw [Host.protectAnswer] at hans
    rw [Host.mprotect]
    split at hans
    · cases hans
    · rename_i haddr
      rw [if_neg haddr]
      cases hr : r.errno with
      | some e =>
        rw [hr] at hans
        cases hans
      | none =>
        rw [hr] at hans
        simp only at hans ⊢
        split at hans
        · rename_i hall
          cases hans
          rw [if_pos hall, setWidth_rc_ok, rcerrno_ok _ (by norm_num), hall.1]
          rfl
        · cases hans

lemma run_linux_munmap :
    ((env_syscall.linux_munmap s gaddr len).run env n).1 =
      some ((linux_munmap s.proc gaddr len).1,
        { s with proc := (linux_munmap s.proc gaddr len).2 }) := by
  rw [env_syscall.linux_munmap, linux_munmap, show s.proc.host = s.host from rfl]
  rcases s.host.munmap gaddr.toNat len.toNat with ⟨_ | _, h⟩
  · simp only [Bool.false_eq_true, if_false, rcerrno_error]
    rfl
  · simp only [if_true]
    rw [show (0 : BitVec 32) = BitVec.ofNat 32 0 from rfl, rcerrno_ok _ (by norm_num)]
    rfl

end

end Rv32jit.Env
