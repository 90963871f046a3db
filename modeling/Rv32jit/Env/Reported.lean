/-
# What system calls report

The outcome of the host's call in register `a0` and in the structures that a handler fills itself.
The calls that are left out do not pass on a call of the host: `exit`, `exit_group`,
`set_robust_list`, `rt_sigaction`, `brk`, whose result is the break, and `clock_gettime64`.
-/
import Rv32jit.Env.FileOffsets
import Rv32jit.Env.Requests

namespace Rv32jit.Env

/-- The answer of the host to each call, by its position in the run. -/
abbrev Answers := ℕ → HostCall → HostCall.Answer

/-- Host calls with their answers, in their order. -/
abbrev Log := List (HostCall × HostCall.Answer)

/-- The calls that return a number of a user or a group. -/
def HostCall.ids : List HostCall := [.getuid, .geteuid, .getgid, .getegid]

/-- What is documented of the host's answers: the numbers of errors are not 0, a result that is not
a position is not negative as an `int`, the calls for the user's numbers succeed, and `sysinfo`
returns 0. -/
structure Documented (env : Answers) : Prop where
  errno : ∀ n c e, env n c = .error e → e ≠ 0
  small : ∀ n c r, env n c = .ok r → (∀ fd off whence, c ≠ .lseek fd off whence) →
    c ∉ HostCall.ids → r.rc < 2 ^ 31
  ids : ∀ n, ∀ c ∈ HostCall.ids, ∃ r, env n c = .ok r
  sysinfo : ∀ n r, env n .sysinfo = .ok r → r.rc = 0

/-- There is a first argument. -/
local instance neZero_args : NeZero 7 := ⟨by decide⟩

/-! ### What is expected of the calls -/

namespace SyscallID

/-- The result of a call that has succeeded; the one of `llseek` goes through memory. -/
def value (r : Ret) : SyscallID → BitVec 32
  | llseek => 0
  | _ => .ofNat 32 r.rc

/-- The fields that `sysinfo` takes from the host. -/
def InfoHolds (mem : ByteMem) (info : ℕ) (data : ByteMem) : Prop :=
  mem.load info 4 = (data.load 0 4 : BitVec 32) ∧
    (∀ i < 3, mem.load (info + 4 + 4 * i) 4 = (data.load (8 + 8 * i) 4 : BitVec 32)) ∧
    mem.load (info + 40) 2 = (data.load 80 2 : BitVec 16)

/-- The structure that the handler fills, if the guest has passed one, holds the host's answer;
`machine` is the guest's own. -/
def Holds (a : Fin 7 → BitVec 32) (mem : ByteMem) (r : Ret) : SyscallID → Prop
  | llseek => a 3 ≠ 0 → mem.load (a 3).toNat 8 = BitVec.ofNat 64 r.rc
  | uname => a 0 ≠ 0 → ∀ i < 390, i < 260 ∨ 325 ≤ i → mem ((a 0).toNat + i) = r.data i
  | sysinfo => a 0 ≠ 0 → InfoHolds mem (a 0).toNat r.data
  | prlimit64 => a 3 ≠ 0 → mem.load (a 3).toNat 8 = (r.data.load 0 8 : BitVec 64) ∧
      mem.load ((a 3).toNat + 8) 8 = (r.data.load 8 8 : BitVec 64)
  | _ => True

/-- What the host answers to the requests for a mapping. -/
def MapSays (s : Sim) (a : Fin 7 → BitVec 32) (o : Except (BitVec 32) ℕ) : SyscallID → Prop
  | munmap =>
      o = match s.host.munmap (a 0).toNat (a 1).toNat with
        | (true, _) => .ok 0
        | (false, h) => .error h.errno
  | mmap2 =>
      if a 3 &&& MAP_FIXED ≠ 0 then
        o = Mmu.answer
          (s.host.mmap (some (a 0).toNat) (roundupPage (a 1)).toNat (a 2) (a 3) (a 4) (a 5).toNat)
      else s.proc.mmu.Says (roundupPage (a 1)) (a 2) (a 3) (a 4) (a 5).toNat o
  | _ => False

/-- The handlers that pass on a call of the host. -/
def forwarded (s : Sim) (a : Fin 7 → BitVec 32) : SyscallID → Option (Handling (BitVec 32 × Sim))
  | openat => some (env_syscall.linux_openat s (a 0) (a 1) (a 2) (a 3))
  | close => some (env_syscall.linux_close s (a 0))
  | llseek => some (env_syscall.linux_llseek s (a 0) (a 1) (a 2) (a 3) (a 4))
  | read => some (env_syscall.linux_read s (a 0) (a 1) (a 2))
  | write => some (env_syscall.linux_write s (a 0) (a 1) (a 2))
  | readlinkat => some (env_syscall.linux_readlinkat s (a 0) (a 1) (a 2) (a 3))
  | fstat64 => some (env_syscall.linux_fstat64 s (a 0) (a 1))
  | set_tid_address => some (env_syscall.linux_set_tid_address s (a 0))
  | uname => some (env_syscall.linux_uname s (a 0))
  | getuid => some (env_syscall.linux_getuid s)
  | geteuid => some (env_syscall.linux_geteuid s)
  | getgid => some (env_syscall.linux_getgid s)
  | getegid => some (env_syscall.linux_getegid s)
  | sysinfo => some (env_syscall.linux_sysinfo s (a 0))
  | munmap => some (env_syscall.linux_munmap s (a 0) (a 1))
  | mmap2 => some (env_syscall.linux_mmap2 s (a 0) (a 1) (a 2) (a 3) (a 4) (a 5))
  | mprotect => some (env_syscall.linux_mprotect s (a 0) (a 1) (a 2))
  | prlimit64 => some (env_syscall.linux_prlimit64 s (a 0) (a 1) (a 2) (a 3))
  | getrandom => some (env_syscall.linux_getrandom s (a 0) (a 1) (a 2))
  | statx => some (env_syscall.linux_statx s (a 0) (a 1) (a 2) (a 3) (a 4))
  | exit | exit_group | set_robust_list | rt_sigaction | brk | clock_gettime64 => none

end SyscallID

/-- An answer as the result of a system call. -/
def result : Except (BitVec 32) ℕ → BitVec 32
  | .error e => -e
  | .ok a => .ofNat 32 a

/-- A handler reports what the last call has answered. -/
def Reports (id : SyscallID) (s : Sim) (a : Fin 7 → BitVec 32)
    (run : Option (BitVec 32 × Sim) × Log) : Prop :=
  ∃ rc s', run.1 = some (rc, s') ∧ (∀ c e, run.2.getLast? = some (c, .error e) → rc = -e) ∧
    (∀ c r, run.2.getLast? = some (c, .ok r) → rc = id.value r ∧ id.Holds a s'.mem r) ∧
    ∀ o, id.MapSays s a o → rc = result o

/-- The system call comes to an end: `a0` is what the last call of the host has answered, with
which the structure of the handler is filled, and the other registers are unchanged. -/
def Reported (linux_clock_gettime64 : Sim → BitVec 32 → BitVec 32 → Handling (BitVec 32 × Sim))
    (env : Answers) (s : Sim) (cpu : ByteMem) (id : SyscallID) : Prop :=
  ∃ s' cpu' log,
    (s.SyscallLinux linux_clock_gettime64 cpu).run env 0 = (some (s', cpu'), log) ∧
    (∀ i < 32, i ≠ 10 → CPUState.gpr cpu' i = CPUState.gpr cpu i) ∧
    Reports id s (env_syscall.args cpu) (some (CPUState.gpr cpu' 10, s'), log)

/-! ### The dispatch -/

variable {clk : Sim → BitVec 32 → BitVec 32 → Handling (BitVec 32 × Sim)} {env : Answers}
  {s : Sim} {cpu : ByteMem} {id : SyscallID} {a : Fin 7 → BitVec 32} {n : ℕ}

lemma args_setTrapno (cpu : ByteMem) (t : TrapCode) :
    env_syscall.args (CPUState.setTrapno cpu t) = env_syscall.args cpu :=
  funext fun i => CPUState.gpr_setTrapno cpu (by omega) t

/-- The handler of a call. -/
lemma dispatch_eq {h : Handling (BitVec 32 × Sim)} (hno : CPUState.gpr cpu 17 = id.no)
    (hf : id.forwarded s (env_syscall.args cpu) = some h) :
    env_syscall.dispatch s clk (CPUState.setTrapno cpu .NONE) =
      (h >>= fun o => pure (o.1, o.2, CPUState.setTrapno cpu .NONE)) := by
  have h17 : SyscallID.ofNo (CPUState.gpr (CPUState.setTrapno cpu .NONE) 17) = some id := by
    rw [CPUState.gpr_setTrapno cpu (by norm_num), hno, SyscallID.ofNo_no]
  rw [env_syscall.dispatch, h17, args_setTrapno]
  cases id
  case exit | exit_group | set_robust_list | rt_sigaction | brk | clock_gettime64 => cases hf
  all_goals rw [← Option.some.inj hf]

lemma reported_iff_reports {h : Handling (BitVec 32 × Sim)} (hno : CPUState.gpr cpu 17 = id.no)
    (hf : id.forwarded s (env_syscall.args cpu) = some h) :
    Reported clk env s cpu id ↔ Reports id s (env_syscall.args cpu) (h.run env 0) := by
  have hrun : (s.SyscallLinux clk cpu).run env 0 =
      ((h.run env 0).1.map fun o =>
        (o.2, CPUState.setGpr (CPUState.setTrapno cpu .NONE) 10 o.1), (h.run env 0).2) := by
    rw [Sim.SyscallLinux]
    simp only
    rw [dispatch_eq hno hf, Asking.run_bind, Asking.run_bind]
    rcases h.run env 0 with ⟨_ | ⟨rc, s'⟩, log⟩
    · rfl
    · simp
  rw [Reported, hrun]
  constructor
  · rintro ⟨s', cpu', log, heq, -, hrep⟩
    rw [Prod.mk.injEq] at heq
    obtain ⟨heq, rfl⟩ := heq
    obtain ⟨⟨rc, s1⟩, ho, heq⟩ := Option.map_eq_some_iff.mp heq
    cases heq
    rw [CPUState.gpr_setGpr_same] at hrep
    rwa [← Prod.eta (h.run env 0), ho]
  · rintro ⟨rc, s', ho, hrest⟩
    rw [ho]
    refine ⟨s', _, _, rfl, fun i hi hne => ?_, rc, s', ?_, hrest⟩
    · rw [CPUState.gpr_setGpr_of_ne _ hne, CPUState.gpr_setTrapno cpu hi]
    · rw [CPUState.gpr_setGpr_same]

/-! ### The handlers that convert the result -/

/-- The call is none for a position and none for the user's numbers. -/
def HostCall.Small (c : HostCall) : Prop :=
  (∀ fd off whence, c ≠ .lseek fd off whence) ∧ c ∉ HostCall.ids

/-- The call is answered apart from requests for mappings. -/
def SyscallID.NoMapping (id : SyscallID) : Prop := ∀ s a o, ¬ id.MapSays s a o

/-- The calls without a structure of their own. -/
structure SyscallID.Plain (id : SyscallID) : Prop where
  value : ∀ r, id.value r = .ofNat 32 r.rc
  holds : ∀ a mem r, id.Holds a mem r
  noMapping : id.NoMapping

lemma noMapping (h1 : id ≠ .munmap) (h2 : id ≠ .mmap2) : id.NoMapping := by
  intro s a o
  cases id
  case munmap => exact absurd rfl h1
  case mmap2 => exact absurd rfl h2
  all_goals exact id

lemma not_reports_abort {s0 : Sim} {run : Option (BitVec 32 × Sim) × Log} (h : run.1 = none) :
    ¬ Reports id s0 a run := by
  rintro ⟨rc, s', hrun, -⟩
  rw [h] at hrun
  cases hrun

/-- A handler that ends after a call reports its answer. -/
lemma reports_iff (hid : id.NoMapping) (s0 : Sim) (rc : BitVec 32) (s' : Sim) (log : Log)
    (c : HostCall) (o : HostCall.Answer) :
    Reports id s0 a (some (rc, s'), log ++ [(c, o)]) ↔
      match o with
      | .error e => rc = -e
      | .ok r => rc = id.value r ∧ id.Holds a s'.mem r := by
  have hlast : (log ++ [(c, o)]).getLast? = some (c, o) := List.getLast?_concat
  constructor
  · rintro ⟨rc', s1, heq, herr, hok, -⟩
    cases heq
    cases o with
    | error e => exact herr c e hlast
    | ok r => exact hok c r hlast
  · intro hrep
    refine ⟨rc, s', rfl, fun c' e he => ?_, fun c' r hr => ?_, fun o ho => absurd ho (hid _ _ _)⟩
    · rw [hlast] at he
      cases he
      exact hrep
    · rw [hlast] at hr
      cases hr
      exact hrep

/-- A handler through `rcerrno` reports what its call has answered, after a log of other calls. -/
lemma Documented.forward_reports (hdoc : Documented env) (hid : id.Plain) {c : HostCall}
    (hc : c.Small) (serve : Ret → Sim → Sim) (s0 : Sim) (log : Log) :
    Reports id s0 a (((env_syscall.forward s c serve).run env n).1,
      log ++ ((env_syscall.forward s c serve).run env n).2) := by
  rw [run_forward]
  refine (reports_iff hid.noMapping s0 _ _ log c _).mpr ?_
  cases ha : env n c with
  | error e =>
    show env_syscall.rcerrno _ _ = -e
    rw [setWidth_rc_error, rcerrno_error]
    rfl
  | ok r =>
    refine ⟨?_, hid.holds _ _ _⟩
    rw [setWidth_rc_ok, rcerrno_ok _ (hdoc.small n c r ha hc.1 hc.2), hid.value]

/-- The calls for the user's numbers. -/
lemma Documented.plain_reports (hdoc : Documented env) (hid : id.Plain) {c : HostCall}
    (hc : c ∈ HostCall.ids) (s0 : Sim) :
    Reports id s0 a ((env_syscall.plain s c).run env 0) := by
  obtain ⟨r, hr⟩ := hdoc.ids 0 c hc
  have hrun : (env_syscall.plain s c).run env 0 =
      (some ((env 0 c).rc.setWidth 32, s.after (env 0 c)), [(c, env 0 c)]) := rfl
  rw [hrun, hr]
  refine (reports_iff hid.noMapping s0 _ _ [] c _).mpr ⟨?_, hid.holds _ _ _⟩
  rw [setWidth_rc_ok, hid.value]

/-! ### The handlers that fill a structure -/

/-- Condition for `llseek`: the call succeeds, and the position is less than 2 GiB and can be
stored, or its low word is negative as an `int` and the position is already there. -/
def LlseekSound (env : Answers) (s : Sim) (a : Fin 7 → BitVec 32) : Prop :=
  ∃ r, env 0 (.lseek (a 0) (wordsOffset (a 1) (a 2)) (a 4)) = .ok r ∧
    if r.rc % 2 ^ 32 < 2 ^ 31 then
      Host.reaches (a 3).toNat 8 s.host.writable = true ∧ (a 3 ≠ 0 → r.rc % 2 ^ 64 < 2 ^ 31)
    else a 3 ≠ 0 → s.mem.load (a 3).toNat 8 = BitVec.ofNat 64 r.rc

/-- Condition for `sysinfo`: the call fails, or the host's answer is already there. -/
def SysinfoSound (env : Answers) (s : Sim) (a : Fin 7 → BitVec 32) : Prop :=
  ∀ r, env 0 .sysinfo = .ok r → a 0 ≠ 0 → SyscallID.InfoHolds s.mem (a 0).toNat r.data

/-- Condition for `uname`: `machine` can be written. -/
def UnameSound (s : Sim) (a : Fin 7 → BitVec 32) : Prop :=
  Host.reaches ((a 0).toNat + 260) 8 s.host.writable = true

/-- Condition for `set_tid_address`: the call fails, or the variable can be written. -/
def SetTidSound (env : Answers) (s : Sim) (a : Fin 7 → BitVec 32) : Prop :=
  ∀ r, env 0 .set_tid_address = .ok r → Host.reaches (a 0).toNat 4 s.host.writable = true

/-- The limit that `prlimit64` passes on. -/
def limitGiven (s : Sim) (a : Fin 7 → BitVec 32) : Option (BitVec 64 × BitVec 64) :=
  if env_syscall.takesLimit s (a 1) (a 2) then
    some (s.mem.load (a 2).toNat 8, s.mem.load ((a 2).toNat + 8) 8)
  else none

/-- A limit that is taken can be read. -/
def LimitReadable (s : Sim) (a : Fin 7 → BitVec 32) : Prop :=
  env_syscall.takesLimit s (a 1) (a 2) → Host.reaches (a 2).toNat 8 s.host.readable = true ∧
    Host.reaches ((a 2).toNat + 8) 8 s.host.readable = true

/-- Condition for `prlimit64`: a limit that is taken can be read; and the call fails, or the old
limit can be written. -/
def PrlimitSound (env : Answers) (s : Sim) (a : Fin 7 → BitVec 32) : Prop :=
  LimitReadable s a ∧
  ∀ r, env 0 (.prlimit64 (a 0) (a 1) (limitGiven s a)) = .ok r →
    Host.reaches (a 3).toNat 8 s.host.writable = true ∧
      Host.reaches ((a 3).toNat + 8) 8 s.host.writable = true

lemma llseek_reports (hdoc : Documented env) :
    Reports .llseek s a
        ((env_syscall.linux_llseek s (a 0) (a 1) (a 2) (a 3) (a 4)).run env 0) ↔
      LlseekSound env s a := by
  have hno : SyscallID.llseek.NoMapping := noMapping (by decide) (by decide)
  rw [run_llseek, LlseekSound]
  simp only
  cases ha : env 0 (.lseek (a 0) (wordsOffset (a 1) (a 2)) (a 4)) with
  | error e =>
    -- the handler returns 0
    have hneg : ¬ 0 ≤ ((HostCall.Answer.rc (.error e)).setWidth 32).toInt := by
      rw [setWidth_rc_error]
      decide
    rw [if_neg hneg]
    refine iff_of_false (fun hrep => hdoc.errno _ _ _ ha ?_) (by rintro ⟨r, hr, -⟩; cases hr)
    have hzero := (reports_iff hno s _ _ [] _ _).mp hrep
    exact BitVec.neg_eq_zero_iff.mp hzero.symm
  | ok r =>
    simp only [Except.ok.injEq, exists_eq_left', HostCall.Answer.rc, toInt_nonneg_iff]
    by_cases hint : r.rc % 2 ^ 32 < 2 ^ 31
    · simp only [if_pos hint]
      by_cases hw : Host.reaches (a 3).toNat 8 s.host.writable = true
      · rw [if_pos hw]
        refine (reports_iff hno s _ _ [] _ _).trans ?_
        simp only [SyscallID.value, SyscallID.Holds, true_and, hw, Sim.mem_setMem]
        rw [ByteMem.load_store, ByteMem.lowBytes_of_le (by norm_num), signExtend_eq_iff hint]
      · rw [if_neg hw]
        exact iff_of_false (not_reports_abort rfl) fun hs => hw hs.1
    · simp only [if_neg hint]
      refine (reports_iff hno s _ _ [] _ _).trans ?_
      simp only [SyscallID.value, SyscallID.Holds, true_and, Sim.mem_after]

variable (env s a) in
/-- The run of `linux_sysinfo` if the host's result is 0 or an error: nothing is filled in. -/
lemma run_sysinfo (hzero : ∀ r, env 0 .sysinfo = .ok r → r.rc = 0) :
    (env_syscall.linux_sysinfo s (a 0)).run env 0 =
      (some (env_syscall.rcerrno (s.after (env 0 .sysinfo)) ((env 0 .sysinfo).rc.setWidth 32),
        s.after (env 0 .sysinfo)), [(.sysinfo, env 0 .sysinfo)]) := by
  have hpos : ¬ 0 < ((env 0 .sysinfo).rc.setWidth 32).toInt := by
    cases ha : env 0 .sysinfo with
    | error e =>
      rw [setWidth_rc_error]
      decide
    | ok r =>
      rw [setWidth_rc_ok, hzero r ha]
      decide
  rw [env_syscall.linux_sysinfo, run_hostCall_bind]
  simp only [if_neg hpos]
  rfl

lemma sysinfo_reports (hdoc : Documented env) :
    Reports .sysinfo s a ((env_syscall.linux_sysinfo s (a 0)).run env 0) ↔
      SysinfoSound env s a := by
  have hno : SyscallID.sysinfo.NoMapping := noMapping (by decide) (by decide)
  rw [run_sysinfo env s a (hdoc.sysinfo 0), SysinfoSound]
  refine (reports_iff hno s _ _ [] _ _).trans ?_
  cases ha : env 0 .sysinfo with
  | error e =>
    refine iff_of_true ?_ fun r hr => nomatch hr
    show env_syscall.rcerrno _ _ = -e
    rw [setWidth_rc_error, rcerrno_error]
    rfl
  | ok r =>
    have hsmall : r.rc < 2 ^ 31 := by
      rw [hdoc.sysinfo 0 r ha]
      norm_num
    simp only [Except.ok.injEq, forall_eq', Sim.after_ok]
    rw [setWidth_rc_ok, rcerrno_ok _ hsmall]
    exact ⟨fun h => h.2, fun h => ⟨rfl, h⟩⟩

lemma writable_served (n : ℕ) (o : HostCall.Answer) (addr : ℕ) :
    ((s.after o).served (fun r s => s.fill addr n r.data) o).host.writable = s.host.writable := by
  cases o <;> rfl

lemma uname_reports (hdoc : Documented env) :
    Reports .uname s a ((env_syscall.linux_uname s (a 0)).run env 0) ↔ UnameSound s a := by
  have hno : SyscallID.uname.NoMapping := noMapping (by decide) (by decide)
  rw [env_syscall.linux_uname, run_hostCall_bind, UnameSound]
  simp only
  rw [run_store_bind, writable_served]
  by_cases hw : Host.reaches ((a 0).toNat + 260) 8 s.host.writable = true
  · refine iff_of_true ?_ hw
    rw [if_pos hw]
    refine (reports_iff hno s _ _ [] _ _).mpr ?_
    cases ha : env 0 (.uname (a 0).toNat) with
    | error e =>
      show env_syscall.rcerrno _ _ = -e
      rw [setWidth_rc_error, rcerrno_error]
      rfl
    | ok r =>
      refine ⟨?_, fun _ i hi hmachine => ?_⟩
      · rw [setWidth_rc_ok, rcerrno_ok _ (hdoc.small 0 _ r ha (by simp) (by simp [HostCall.ids]))]
        rfl
      · rw [Sim.mem_setMem, ByteMem.store_apply_of_notMem _ (by omega)]
        show (s.host.fillBytes (a 0).toNat 390 r.data).mem _ = _
        rw [Host.fillBytes]
        simp only
        rw [if_pos (by omega), Nat.add_sub_cancel_left]
  · refine iff_of_false (not_reports_abort ?_) hw
    rw [if_neg hw]

/-- A system call returns `long`. -/
lemma toInt_rc_error (e : BitVec 32) : (HostCall.Answer.rc (.error e)).toInt < 0 := by
  show (-1 : BitVec 64).toInt < 0
  decide

lemma toInt_rc_ok {r : Ret} (h : r.rc < 2 ^ 31) : ¬ (HostCall.Answer.rc (.ok r)).toInt < 0 := by
  rw [HostCall.Answer.rc, BitVec.toInt_eq_toNat_cond, BitVec.toNat_ofNat,
    Nat.mod_eq_of_lt (by omega)]
  split <;> omega

lemma set_tid_address_reports (hdoc : Documented env) :
    Reports .set_tid_address s a ((env_syscall.linux_set_tid_address s (a 0)).run env 0) ↔
      SetTidSound env s a := by
  have hno : SyscallID.set_tid_address.NoMapping := noMapping (by decide) (by decide)
  rw [env_syscall.linux_set_tid_address, run_hostCall_bind, SetTidSound]
  simp only
  cases ha : env 0 .set_tid_address with
  | error e =>
    refine iff_of_true ?_ fun r hr => nomatch hr
    rw [if_pos (toInt_rc_error e)]
    exact (reports_iff hno s _ _ [] _ _).mpr rfl
  | ok r =>
    have hsmall := hdoc.small 0 _ r ha (by simp) (by simp [HostCall.ids])
    simp only [Except.ok.injEq, forall_eq']
    rw [if_neg (toInt_rc_ok hsmall), run_store_bind]
    by_cases hw : Host.reaches (a 0).toNat 4 s.host.writable = true
    · refine iff_of_true ?_ hw
      rw [Sim.writable_after, if_pos hw]
      refine (reports_iff hno s _ _ [] _ _).mpr ⟨?_, trivial⟩
      rw [setWidth_rc_ok]
      rfl
    · refine iff_of_false (not_reports_abort ?_) hw
      rw [Sim.writable_after, if_neg hw]

/-- All fields of a structure can be written. -/
def FieldsWritable (s : Sim) (addr : ℕ) (fields : List (ℕ × ℕ × BitVec 64)) : Prop :=
  ∀ f ∈ fields, Host.reaches (addr + f.1) f.2.1 s.host.writable = true

lemma run_storeFields {addr : ℕ} {fields : List (ℕ × ℕ × BitVec 64)}
    (hw : FieldsWritable s addr fields) :
    (storeFields s addr fields).run env n =
      (some (s.setMem (fields.foldl (fun m f => m.store (addr + f.1) f.2.1 f.2.2) s.mem)), []) := by
  induction fields generalizing s with
  | nil => rfl
  | cons f fields ih =>
    obtain ⟨hf, hfields⟩ := List.forall_mem_cons.mp hw
    have hrest : FieldsWritable (s.setMem (s.mem.store (addr + f.1) f.2.1 f.2.2)) addr fields :=
      hfields
    rw [storeFields, run_store_bind, if_pos hf, ih hrest]
    rfl

lemma run_storeFields_abort {addr : ℕ} {fields : List (ℕ × ℕ × BitVec 64)}
    (hw : ¬ FieldsWritable s addr fields) : ((storeFields s addr fields).run env n).1 = none := by
  induction fields generalizing s with
  | nil => exact absurd (fun f hf => nomatch hf) hw
  | cons f fields ih =>
    rw [storeFields, run_store_bind]
    split
    · rename_i hf
      refine ih (s := s.setMem _) fun hrest => hw ?_
      exact List.forall_mem_cons.mpr ⟨hf, hrest⟩
    · rfl

lemma run_newLimit (hread : LimitReadable s a) :
    (env_syscall.newLimit s (a 1) (a 2)).run env n = (some (limitGiven s a), []) := by
  rw [env_syscall.newLimit, limitGiven]
  by_cases ht : env_syscall.takesLimit s (a 1) (a 2)
  · simp only [if_pos ht]
    rw [run_load_bind, if_pos (hread ht).1, run_load_bind, if_pos (hread ht).2]
    rfl
  · simp only [if_neg ht]
    rfl

lemma run_newLimit_abort (hread : ¬ LimitReadable s a) :
    ((env_syscall.newLimit s (a 1) (a 2)).run env n).1 = none := by
  rw [LimitReadable, Classical.not_imp, not_and_or] at hread
  obtain ⟨ht, hno⟩ := hread
  rw [env_syscall.newLimit, if_pos ht, run_load_bind]
  split
  · rename_i h1
    rw [run_load_bind, if_neg (hno.resolve_left (not_not.mpr h1))]
  · rfl

lemma prlimit64_reports (hdoc : Documented env) :
    Reports .prlimit64 s a ((env_syscall.linux_prlimit64 s (a 0) (a 1) (a 2) (a 3)).run env 0) ↔
      PrlimitSound env s a := by
  have hno : SyscallID.prlimit64.NoMapping := noMapping (by decide) (by decide)
  rw [env_syscall.linux_prlimit64, PrlimitSound]
  by_cases hread : LimitReadable s a
  · rw [Asking.run_bind_some _ (run_newLimit hread)]
    simp only [hread, true_and, List.length_nil, List.nil_append, Nat.add_zero]
    rw [run_hostCall_bind]
    cases ha : env 0 (.prlimit64 (a 0) (a 1) (limitGiven s a)) with
    | error e =>
      refine iff_of_true ?_ fun r hr => nomatch hr
      simp only
      rw [if_pos (toInt_rc_error e)]
      exact (reports_iff hno s _ _ [] _ _).mpr rfl
    | ok r =>
      have hsmall := hdoc.small 0 _ r ha (by simp) (by simp [HostCall.ids])
      simp only [Except.ok.injEq, forall_eq']
      rw [if_neg (toInt_rc_ok hsmall)]
      have hall : FieldsWritable (s.after (.ok r)) (a 3).toNat
          [(0, 8, r.data.load 0 8), (8, 8, r.data.load 8 8)] ↔
          Host.reaches (a 3).toNat 8 s.host.writable = true ∧
            Host.reaches ((a 3).toNat + 8) 8 s.host.writable = true := by
        simp [FieldsWritable]
      refine Iff.trans ?_ hall
      by_cases hw : FieldsWritable (s.after (.ok r)) (a 3).toNat
          [(0, 8, r.data.load 0 8), (8, 8, r.data.load 8 8)]
      · refine iff_of_true ?_ hw
        rw [HostCall.Answer.data, Asking.run_bind_some _ (run_storeFields hw)]
        refine (reports_iff hno s _ _ [] _ _).mpr ⟨?_, fun _ => ?_⟩
        · rw [setWidth_rc_ok]
          rfl
        · simp only [Sim.mem_setMem, List.foldl_cons, List.foldl_nil, Nat.add_zero]
          constructor
          · rw [ByteMem.load_store_disjoint _ _ (by omega), ByteMem.load_store,
              ByteMem.lowBytes_of_le (by norm_num)]
          · rw [ByteMem.load_store, ByteMem.lowBytes_of_le (by norm_num)]
      · refine iff_of_false (not_reports_abort ?_) hw
        exact Asking.run_bind_none _ (run_storeFields_abort hw)
  · refine iff_of_false (not_reports_abort ?_) fun hs => hread hs.1
    exact Asking.run_bind_none _ (run_newLimit_abort hread)

/-! ### The calls on paths -/

/-- The last call of the log has failed. -/
def LastFailed (log : Log) (e : BitVec 32) : Prop := ∃ c, log.getLast? = some (c, .error e)

/-- Condition on a path: the string that is checked can be put together, it starts with `fsroot`,
and so does what `realpath` makes of it. -/
def PathAccepted (env : Answers) (s : Sim) (dfd : BitVec 32) (path : List Char) : Prop :=
  match (rpBuf s dfd path).run env 0 with
  | (none, _) => False
  | (some (none, _), _) => True
  | (some (some rp_buf, _), log) =>
    s.fsroot <+: rp_buf ∧
      (HandleSpecialPath s (rp_buf.drop (s.fsroot.length + 1)) = none →
        ∀ r, env log.length (.realpath rp_buf) = .ok r → s.fsroot <+: r.str)

/-- Condition for `readlinkat` and `statx`: the path can be read, and it is accepted or empty. -/
def PathSound (env : Answers) (s : Sim) (a : Fin 7 → BitVec 32) : Prop :=
  Host.reaches (a 1).toNat 1 s.host.readable = true ∧
    ((s.mem.load (a 1).toNat 1 : BitVec 64) ≠ 0 →
      ∃ path, guestString s ASPACE_SIZE (a 1).toNat = some path ∧ PathAccepted env s (a 0) path)

/-- A path that is accepted is resolved, or the last call has failed. -/
lemma pathResolution_told {dfd : BitVec 32} {path : List Char}
    (hacc : PathAccepted env s dfd path) :
    ∃ o s' log, (PathResolution s dfd path).run env 0 = (some (o, s'), log) ∧
      (o = none → LastFailed log s'.errno) := by
  rw [PathAccepted] at hacc
  rcases hrun : (rpBuf s dfd path).run env 0 with ⟨_ | ⟨_ | rp_buf, s1⟩, log⟩
  · rw [hrun] at hacc
    exact hacc.elim
  · exact ⟨none, s1, log, run_unchecked hrun, (run_rpBuf_told hrun).2.2⟩
  · rw [hrun] at hacc
    obtain ⟨hpre, hreal⟩ := hacc
    rw [run_checked hrun, if_pos hpre]
    cases hsp : HandleSpecialPath s (rp_buf.drop (s.fsroot.length + 1)) with
    | some r => exact ⟨_, _, _, rfl, fun ho => nomatch ho⟩
    | none =>
      cases ha : env log.length (.realpath rp_buf) with
      | error e => exact ⟨_, _, _, rfl, fun _ => ⟨_, List.getLast?_concat⟩⟩
      | ok r =>
        simp only [if_pos (hreal hsp r ha)]
        exact ⟨_, _, _, rfl, fun ho => nomatch ho⟩

lemma pathResolution_abort {dfd : BitVec 32} {path : List Char}
    (hacc : ¬ PathAccepted env s dfd path) : ((PathResolution s dfd path).run env 0).1 = none := by
  rw [PathAccepted] at hacc
  rcases hrun : (rpBuf s dfd path).run env 0 with ⟨_ | ⟨_ | rp_buf, s1⟩, log⟩
  · exact run_abort (by rw [hrun])
  · rw [hrun] at hacc
    exact absurd trivial hacc
  · rw [hrun] at hacc
    rw [run_checked hrun]
    by_cases hpre : s.fsroot <+: rp_buf
    · rw [if_pos hpre]
      simp only [hpre, true_and, Classical.not_imp, not_forall] at hacc
      obtain ⟨hsp, r, ha, hr⟩ := hacc
      simp only [hsp, ha, if_neg hr]
    · rw [if_neg hpre]

lemma pathbuf_told (h : PathSound env s a) :
    ∃ o s' log, (env_syscall.pathbuf s (a 0) (a 1)).run env 0 = (some (o, s'), log) ∧
      (o = none → LastFailed log s'.errno) := by
  obtain ⟨hread, hpath⟩ := h
  rw [env_syscall.pathbuf, run_load_bind, if_pos hread]
  split
  · rename_i hne
    obtain ⟨path, hstr, hacc⟩ := hpath hne
    rw [hstr]
    exact pathResolution_told hacc
  · exact ⟨_, _, _, rfl, fun ho => nomatch ho⟩

lemma pathbuf_abort (h : ¬ PathSound env s a) :
    ((env_syscall.pathbuf s (a 0) (a 1)).run env 0).1 = none := by
  rw [PathSound] at h
  rw [env_syscall.pathbuf, run_load_bind]
  split
  · rename_i hread
    split
    · rename_i hne
      cases hstr : guestString s ASPACE_SIZE (a 1).toNat with
      | none => rfl
      | some path =>
        refine pathResolution_abort fun hacc => h ⟨hread, fun _ => ⟨path, hstr, hacc⟩⟩
    · rename_i hzero
      exact absurd ⟨hread, fun hne => absurd hne hzero⟩ h
  · rfl

/-- A call on a path reports the last call: the one that has been passed on, or the one that has
failed to resolve the path. -/
lemma onPath_reports (hdoc : Documented env) (hid : id.Plain) {c : List Char → HostCall}
    (hc : ∀ p, (c p).Small) (serve : Ret → Sim → Sim) :
    Reports id s a ((env_syscall.onPath s (a 0) (a 1) c serve).run env 0) ↔ PathSound env s a := by
  by_cases h : PathSound env s a
  · refine iff_of_true ?_ h
    obtain ⟨o, s', log, hrun, hlast⟩ := pathbuf_told h
    rw [env_syscall.onPath, Asking.run_bind_some _ hrun]
    cases o with
    | none =>
      obtain ⟨c', hc'⟩ := hlast rfl
      have hlog : (log ++ [] : Log).getLast? = some (c', .error s'.errno) := by
        rwa [List.append_nil]
      refine ⟨-s'.errno, s', rfl, fun c'' e he => ?_, fun c'' r hr => ?_,
        fun o ho => absurd ho (hid.noMapping _ _ _)⟩
      · cases hlog.symm.trans he
        rfl
      · cases hlog.symm.trans hr
    | some p => exact hdoc.forward_reports hid (hc p) serve s log
  · refine iff_of_false (not_reports_abort ?_) h
    rw [env_syscall.onPath]
    exact Asking.run_bind_none _ (pathbuf_abort h)

/-! ### The requests for mappings -/

/-- A handler that has made no other call reports the answers for mappings. -/
lemma reports_mapping (rc : BitVec 32) (s' : Sim) :
    Reports id s a (some (rc, s'), []) ↔ ∀ o, id.MapSays s a o → rc = result o := by
  constructor
  · rintro ⟨rc', s1, heq, -, -, hmap⟩
    cases heq
    exact hmap
  · intro hmap
    refine ⟨rc, s', rfl, fun c e he => ?_, fun c r hr => ?_, hmap⟩
    · cases he
    · cases hr

lemma munmap_reports :
    Reports .munmap s a ((env_syscall.linux_munmap s (a 0) (a 1)).run env 0) := by
  have hanswer : ∀ o, SyscallID.munmap.MapSays s a o → o =
      match s.host.munmap (a 0).toNat (a 1).toNat with
      | (true, _) => .ok 0
      | (false, h) => .error h.errno := fun o ho => ho
  rw [env_syscall.linux_munmap]
  rcases hreq : s.host.munmap (a 0).toNat (a 1).toNat with ⟨_ | _, h⟩
  · refine (reports_mapping _ _).mpr fun o ho => ?_
    rw [hanswer o ho, hreq]
    exact rcerrno_error _
  · refine (reports_mapping _ _).mpr fun o ho => ?_
    rw [hanswer o ho, hreq]
    exact rcerrno_ok (k := 0) _ (by norm_num)

/-- Condition for `mmap2`: the range is one of the guest's memory, and the place is fixed or no
request of the search, nor the one for the mapping at the place that is found, is refused. -/
def Mmap2Sound (s : Sim) (a : Fin 7 → BitVec 32) : Prop :=
  Mmu.InAspace (a 0) (a 1) ∧
    (a 3 &&& MAP_FIXED = 0 →
      ∀ e, ¬ s.proc.mmu.Says (roundupPage (a 1)) (a 2) (a 3) (a 4) (a 5).toNat (.error e))

variable (s a) in
/-- The handler in terms of `mmu::mmap`. -/
lemma run_mmap2 :
    (env_syscall.linux_mmap2 s (a 0) (a 1) (a 2) (a 3) (a 4) (a 5)).run env 0 =
      match s.proc.mmu.mmap (a 0) (a 1) (a 2) (a 3) (a 4) (a 5).toNat with
      | none => (none, [])
      | some (none, m) => (some (-m.host.errno, { s with proc := { s.proc with mmu := m } }), [])
      | some (some addr, m) =>
        (some (.ofNat 32 addr, { s with proc := { s.proc with mmu := m } }), []) := by
  rw [env_syscall.linux_mmap2, Env.linux_mmap2]
  rcases s.proc.mmu.mmap (a 0) (a 1) (a 2) (a 3) (a 4) (a 5).toNat with _ | ⟨_ | addr, m⟩ <;> rfl

lemma mmap2_reports :
    Reports .mmap2 s a
        ((env_syscall.linux_mmap2 s (a 0) (a 1) (a 2) (a 3) (a 4) (a 5)).run env 0) ↔
      Mmap2Sound s a := by
  rw [run_mmap2, Mmap2Sound, Mmu.mmap]
  by_cases hin : Mmu.InAspace (a 0) (a 1)
  · rw [if_pos (Mmu.inAspace_iff.mpr hin)]
    simp only [hin, true_and]
    by_cases hfixed : a 3 &&& MAP_FIXED ≠ 0
    · -- the host's answer is passed on
      refine iff_of_true ?_ fun hzero => absurd hzero hfixed
      simp only [if_pos hfixed, Mmu.mmapFixed]
      have hanswer : ∀ o, SyscallID.mmap2.MapSays s a o → o = Mmu.answer
          (s.host.mmap (some (a 0).toNat) (roundupPage (a 1)).toNat (a 2) (a 3) (a 4)
            (a 5).toNat) := by
        intro o ho
        rwa [SyscallID.MapSays, if_pos hfixed] at ho
      rcases hreq : s.proc.mmu.host.mmap (some (a 0).toNat) (roundupPage (a 1)).toNat (a 2) (a 3)
        (a 4) (a 5).toNat with ⟨_ | addr, h⟩
      · refine (reports_mapping _ _).mpr fun o ho => ?_
        rw [hanswer o ho, show s.host = s.proc.mmu.host from rfl, hreq]
        rfl
      · refine (reports_mapping _ _).mpr fun o ho => ?_
        rw [hanswer o ho, show s.host = s.proc.mmu.host from rfl, hreq]
        rfl
    · -- the answers that end the search decide
      have hanswer : ∀ o, SyscallID.mmap2.MapSays s a o →
          s.proc.mmu.Says (roundupPage (a 1)) (a 2) (a 3) (a 4) (a 5).toNat o := by
        intro o ho
        rwa [SyscallID.MapSays, if_neg hfixed] at ho
      have hcases := s.proc.mmu.says_of_mmapAnywhere (roundupPage (a 1)) (a 2) (a 3) (a 4)
        (a 5).toNat
      have hend : ∀ o, s.proc.mmu.Says (roundupPage (a 1)) (a 2) (a 3) (a 4) (a 5).toNat o →
          match o with
          | .error _ => s.proc.mmu.mmapAnywhere (roundupPage (a 1)) (a 2) (a 3) (a 4)
              (a 5).toNat = none
          | .ok addr => ∃ m, s.proc.mmu.mmapAnywhere (roundupPage (a 1)) (a 2) (a 3) (a 4)
              (a 5).toNat = some (some addr, m) := by
        intro o ho
        cases o with
        | error e => exact Mmu.mmapAnywhere_refused ho
        | ok addr => exact Mmu.mmapAnywhere_mapped ho
      simp only [if_neg hfixed]
      rw [imp_iff_right (not_not.mp hfixed)]
      rcases hm : s.proc.mmu.mmapAnywhere (roundupPage (a 1)) (a 2) (a 3) (a 4) (a 5).toNat
        with _ | ⟨_ | addr, m⟩
      · rw [hm] at hcases
        obtain ⟨e, he⟩ := hcases
        exact iff_of_false (not_reports_abort rfl) fun hs => hs e he
      · have hno : ∀ o, ¬ s.proc.mmu.Says (roundupPage (a 1)) (a 2) (a 3) (a 4) (a 5).toNat o := by
          intro o ho
          have heq := hend o ho
          rw [hm] at heq
          cases o with
          | error e => cases heq
          | ok addr =>
            obtain ⟨m', heq⟩ := heq
            cases heq
        exact iff_of_true ((reports_mapping _ _).mpr fun o ho => absurd (hanswer o ho) (hno o))
          fun e => hno (.error e)
      · refine iff_of_true ((reports_mapping _ _).mpr fun o ho => ?_) fun e he => ?_
        · have heq := hend o (hanswer o ho)
          rw [hm] at heq
          cases o with
          | error e => cases heq
          | ok addr' =>
            obtain ⟨m', heq⟩ := heq
            cases heq
            rfl
        · have heq := hend _ he
          rw [hm] at heq
          cases heq
  · rw [if_neg fun h => hin (Mmu.inAspace_iff.mp h)]
    exact iff_of_false (not_reports_abort rfl) fun hs => hin hs.1

/-! ### All calls -/

/-- Condition under which a system call is reported as it should be. -/
def SyscallID.Sound (env : Answers) (s : Sim) (a : Fin 7 → BitVec 32) : SyscallID → Prop
  | llseek => LlseekSound env s a
  | readlinkat | statx => PathSound env s a
  | set_tid_address => SetTidSound env s a
  | uname => UnameSound s a
  | sysinfo => SysinfoSound env s a
  | mmap2 => Mmap2Sound s a
  | prlimit64 => PrlimitSound env s a
  | _ => True

lemma plain_of_ne (h1 : id ≠ .llseek) (h2 : id ≠ .uname) (h3 : id ≠ .sysinfo)
    (h4 : id ≠ .prlimit64) (h5 : id ≠ .munmap) (h6 : id ≠ .mmap2) : id.Plain := by
  refine ⟨fun r => ?_, fun a mem r => ?_, noMapping h5 h6⟩
  · cases id
    case llseek => exact absurd rfl h1
    all_goals rfl
  · cases id
    case llseek => exact absurd rfl h1
    case uname => exact absurd rfl h2
    case sysinfo => exact absurd rfl h3
    case prlimit64 => exact absurd rfl h4
    all_goals trivial

lemma close_reports (hdoc : Documented env) :
    Reports .close s a ((env_syscall.linux_close s (a 0)).run env 0) := by
  have hid : SyscallID.close.Plain := by apply plain_of_ne <;> decide
  rw [env_syscall.linux_close]
  split
  · exact (reports_mapping _ _).mpr fun o ho => absurd ho (hid.noMapping _ _ _)
  · exact hdoc.forward_reports hid ⟨by simp, by simp [HostCall.ids]⟩ _ s []

/-- Every handler that passes on a call reports its outcome if and only if its condition is met. -/
lemma reports_iff_sound (hdoc : Documented env) {h : Handling (BitVec 32 × Sim)}
    (hf : id.forwarded s a = some h) : Reports id s a (h.run env 0) ↔ id.Sound env s a := by
  cases id
  case exit | exit_group | set_robust_list | rt_sigaction | brk | clock_gettime64 => cases hf
  all_goals rw [← Option.some.inj hf]
  case llseek => exact llseek_reports hdoc
  case set_tid_address => exact set_tid_address_reports hdoc
  case uname => exact uname_reports hdoc
  case sysinfo => exact sysinfo_reports hdoc
  case munmap => exact iff_of_true munmap_reports trivial
  case mmap2 => exact mmap2_reports
  case prlimit64 => exact prlimit64_reports hdoc
  case close => exact iff_of_true (close_reports hdoc) trivial
  case readlinkat | statx =>
    refine onPath_reports hdoc ?_ (fun p => ⟨by simp, by simp [HostCall.ids]⟩) _
    apply plain_of_ne <;> decide
  case getuid | geteuid | getgid | getegid =>
    refine iff_of_true (hdoc.plain_reports ?_ (by simp [HostCall.ids]) s) trivial
    apply plain_of_ne <;> decide
  case openat | read | write | fstat64 | mprotect | getrandom =>
    refine iff_of_true (hdoc.forward_reports ?_ ⟨by simp, by simp [HostCall.ids]⟩ _ s []) trivial
    apply plain_of_ne <;> decide

/-- A host that fails with `EBADF` where it may. -/
def failing : Answers := fun _ c =>
  if c ∈ HostCall.ids then .ok ⟨0, fun _ => 0, []⟩ else .error EBADF

lemma documented_failing : Documented failing where
  errno n c e h := by
    rw [failing] at h
    split at h
    · cases h
    · cases h
      decide
  small n c r h _ hc := by
    rw [failing, if_neg hc] at h
    cases h
  ids n c hc := ⟨_, if_pos hc⟩
  sysinfo n r h := by
    rw [failing, if_neg (by simp [HostCall.ids])] at h
    cases h

/-- A system call that passes on a call of the host is reported faithfully, whatever the host
answers, if and only if the condition of its handler is met. -/
theorem reported_iff_sound
    (linux_clock_gettime64 : Sim → BitVec 32 → BitVec 32 → Handling (BitVec 32 × Sim))
    (env : Answers) (hdoc : Documented env) (s : Sim) (cpu : ByteMem) (id : SyscallID)
    (hno : CPUState.gpr cpu 17 = id.no) (hf : (id.forwarded s (env_syscall.args cpu)).isSome) :
    Reported linux_clock_gettime64 env s cpu id ↔ id.Sound env s (env_syscall.args cpu) := by
  obtain ⟨h, hh⟩ := Option.isSome_iff_exists.mp hf
  exact (reported_iff_reports hno hh).trans (reports_iff_sound hdoc hh)

/-- A host that grants all calls, and has every file at the position 0x1000. -/
def seeking : Answers
  | _, .lseek _ _ _ => .ok ⟨0x1000, fun _ => 0, []⟩
  | _, _ => .ok ⟨0, fun _ => 0, []⟩

lemma documented_seeking : Documented seeking where
  errno n c e h := by cases c <;> cases h
  small n c r h hne _ := by
    cases c with
    | lseek fd off whence => exact absurd rfl (hne fd off whence)
    | _ =>
      cases h
      exact Nat.two_pow_pos 31
  ids n c _ := by cases c <;> exact ⟨_, rfl⟩
  sysinfo n r h := by
    cases h
    rfl

/-- The simulator with a page that the guest can write. -/
def pageSim : Sim where
  proc := startedIn.proc.setHost (startedIn.proc.host.place 0x20000 0x1000 3 fun _ => 0)
  fsroot := startedIn.fsroot
  exe_fd := 3
  zero_mmu_base := true
  stack := startedIn.stack
  local_var := 0

/-- A call of `llseek` to the position 0x1000 of a file, which goes to the guest's address
0x20000. -/
def llseekCpu : ByteMem :=
  CPUState.setGpr (CPUState.setGpr (CPUState.setGpr (fun _ => 0) 12 0x1000) 13 0x20000) 17 62

/-- A position below 2 GiB that can be stored is reported. -/
theorem llseek_reported :
    Reported (fun s _ _ => pure (0, s)) seeking pageSim llseekCpu .llseek :=
  (reported_iff_sound (fun s _ _ => pure (0, s)) seeking documented_seeking pageSim llseekCpu
    .llseek (CPUState.gpr_setGpr_same _ 17 62) rfl).mpr
      ⟨⟨0x1000, fun _ => 0, []⟩, rfl, by decide +kernel⟩

/-- A failed `llseek` is not: the handler returns 0. -/
theorem llseek_not_reported : Documented failing ∧ ¬ Reported (fun s _ _ => pure (0, s)) failing
    startedIn (CPUState.setGpr (fun _ => 0) 17 62) .llseek := by
  refine ⟨documented_failing, fun hrep => ?_⟩
  have hrep := (reported_iff_reports (CPUState.gpr_setGpr_same _ 17 62) rfl).mp hrep
  obtain ⟨r, hr, -⟩ := (llseek_reports documented_failing).mp hrep
  rw [failing, if_neg (by simp [HostCall.ids])] at hr
  cases hr

end Rv32jit.Env
