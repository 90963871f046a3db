/-
# The operating system

The system calls of the emulator as an operating system of a hart: what a call does follows from
the registers and the memory of the hart and from the answers of the host.
-/
import Rv32jit.Env.Reported
import Rv32jit.Lib.Rv32iProcess

namespace Rv32jit.Env

open CPUState

/-- There is a first argument. -/
local instance neZero_params : NeZero 7 := ⟨by decide⟩

/-- There are registers. -/
local instance neZero_regs : NeZero 32 := ⟨by decide⟩

/-- A handler for `linux_clock_gettime64`. -/
abbrev Clock : Type := Sim → BitVec 32 → BitVec 32 → Handling (BitVec 32 × Sim)

/-- The handler of a call with its arguments; those that end the program have none. -/
def SyscallID.handler (clk : Clock) (s : Sim) (a : Fin 7 → BitVec 32) :
    SyscallID → Option (Handling (BitVec 32 × Sim))
  | exit | exit_group => none
  | set_robust_list => some (pure (-ENOSYS, s))
  | rt_sigaction => some (pure (0, s))
  | brk => some (env_syscall.linux_brk s (a 0))
  | clock_gettime64 => some (clk s (a 0) (a 1))
  | id => id.forwarded s a

/-- The simulator with the bytes of the guest. -/
def Sim.withGuest (s : Sim) (mem : BitVec 32 → BitVec 8) : Sim :=
  s.setMem fun x => if x < ASPACE_SIZE then mem (.ofNat 32 x) else s.mem x

/-- The memory that has the bytes of the guest in the address space and those of the simulator
beyond. -/
lemma Sim.withGuest_eq {s : Sim} {mem : BitVec 32 → BitVec 8} {m : ByteMem}
    (hin : ∀ a, m (BitVec.toNat a) = mem a) (hout : ∀ x, 2 ^ 32 ≤ x → m x = s.mem x) :
    s.withGuest mem = s.setMem m := by
  rw [withGuest]
  congr 1
  funext x
  split
  · rename_i hx
    have hx : x < 2 ^ 32 := hx
    rw [← hin, BitVec.toNat_ofNat, Nat.mod_eq_of_lt hx]
  · rename_i hx
    exact (hout x (Nat.le_of_not_lt hx)).symm

/-- The statuses with which an exception ends a program. -/
def Exits (st : Rv32i.State) : Rv32i.Trap → BitVec 32 → Prop
  | .call, v => (st.x 17 = SyscallID.no .exit ∨ st.x 17 = SyscallID.no .exit_group) ∧ v = st.x 10
  | .breakpoint, v | .illegal, v => v = 1
  | .misaligned, _ => False

/-- The operating system that the emulator is to a program, which is seen to call the host. -/
def linux (clk : Clock) : Rv32i.Kernel Sim (HostCall × HostCall.Answer) where
  Answers st s log v mem s' :=
    ∃ (id : SyscallID) (h : Handling (BitVec 32 × Sim)) (answers : Answers),
      st.x 17 = id.no ∧
      id.handler clk (s.withGuest st.mem) (fun i => st.x ⟨10 + i, by omega⟩) = some h ∧
      h.run answers 0 = (some (v, s'), log) ∧ mem = fun a => s'.mem a.toNat
  Exits := Exits

/-! ### `SyscallLinux` -/

variable {clk : Clock} {answers : Answers} {s s' : Sim} {cpu cpu' : ByteMem} {id : SyscallID}
  {a : Fin 7 → BitVec 32} {n : ℕ} {log : Log}

lemma SyscallID.ofNo_eq_some {no : BitVec 32} : ofNo no = some id ↔ no = id.no := by
  constructor
  · intro h
    have := List.find?_some h
    rw [decide_eq_true_iff] at this
    exact this.symm
  · rintro rfl
    exact ofNo_no id

lemma SyscallID.handler_eq_none :
    id.handler clk s a = none ↔ id = .exit ∨ id = .exit_group := by
  cases id <;> simp [handler, forwarded]

/-- A call that the dispatch gives to its handler. -/
lemma run_handler {h : Handling (BitVec 32 × Sim)} (hno : gpr cpu 17 = id.no)
    (hf : id.handler clk s (env_syscall.args cpu) = some h) :
    (s.SyscallLinux clk cpu).run answers n = ((h.run answers n).1.map fun o =>
      (o.2, setGpr (setTrapno cpu .NONE) 10 o.1), (h.run answers n).2) := by
  have h17 : SyscallID.ofNo (gpr (setTrapno cpu .NONE) 17) = some id := by
    rw [gpr_setTrapno cpu (by norm_num), hno, SyscallID.ofNo_no]
  have hdisp : env_syscall.dispatch s clk (setTrapno cpu .NONE) =
      (h >>= fun o => pure (o.1, o.2, setTrapno cpu .NONE)) := by
    rw [env_syscall.dispatch, h17, args_setTrapno]
    cases id
    case exit | exit_group => cases hf
    all_goals rw [← Option.some.inj hf]
  rw [Sim.SyscallLinux]
  simp only
  rw [hdisp, Asking.run_bind, Asking.run_bind]
  rcases h.run answers n with ⟨_ | ⟨rc, s'⟩, log⟩
  · rfl
  · simp

/-- `exit` and `exit_group`. -/
lemma run_exit (hno : gpr cpu 17 = id.no) (hid : id = .exit ∨ id = .exit_group) :
    (s.SyscallLinux clk cpu).run answers n =
      (some (s, setGpr (setTrapno (setTrapno cpu .NONE) .TERMINATED) 10 (gpr cpu 10)), []) := by
  have h17 : SyscallID.ofNo (gpr (setTrapno cpu .NONE) 17) = some id := by
    rw [gpr_setTrapno cpu (by norm_num), hno, SyscallID.ofNo_no]
  rw [Sim.SyscallLinux]
  simp only
  rw [env_syscall.dispatch, h17, args_setTrapno]
  rcases hid with rfl | rfl <;> rfl

/-- A call that nothing handles ends in a panic. -/
lemma run_unhandled (hno : ∀ id : SyscallID, gpr cpu 17 ≠ id.no) :
    (s.SyscallLinux clk cpu).run answers n = (none, []) := by
  have h17 : SyscallID.ofNo (gpr (setTrapno cpu .NONE) 17) = none := by
    rw [gpr_setTrapno cpu (by norm_num)]
    cases h : SyscallID.ofNo (gpr cpu 17) with
    | none => rfl
    | some id => exact absurd (SyscallID.ofNo_eq_some.mp h) (hno id)
  rw [Sim.SyscallLinux]
  simp only
  rw [env_syscall.dispatch, h17]
  rfl

/-- What a system call that comes to an end has done. -/
lemma syscallLinux_cases (h : (s.SyscallLinux clk cpu).run answers n = (some (s', cpu'), log)) :
    ∃ id : SyscallID, gpr cpu 17 = id.no ∧
      ((id = .exit ∨ id = .exit_group) ∧
          cpu' = setGpr (setTrapno (setTrapno cpu .NONE) .TERMINATED) 10 (gpr cpu 10) ∨
        ∃ hd rc, id.handler clk s (env_syscall.args cpu) = some hd ∧
          hd.run answers n = (some (rc, s'), log) ∧
          cpu' = setGpr (setTrapno cpu .NONE) 10 rc) := by
  by_cases hno : ∀ id : SyscallID, gpr cpu 17 ≠ id.no
  · rw [run_unhandled hno] at h
    cases h
  · simp only [ne_eq, not_forall, not_not] at hno
    obtain ⟨id, hno⟩ := hno
    refine ⟨id, hno, ?_⟩
    cases hf : id.handler clk s (env_syscall.args cpu) with
    | none =>
      have hid := SyscallID.handler_eq_none.mp hf
      rw [run_exit hno hid] at h
      simp only [Prod.mk.injEq, Option.some.injEq] at h
      exact Or.inl ⟨hid, h.1.2.symm⟩
    | some hd =>
      rw [run_handler hno hf, Prod.mk.injEq, Option.map_eq_some_iff] at h
      obtain ⟨⟨⟨rc, s₁⟩, hrc, heq⟩, hlog⟩ := h
      rw [Prod.mk.injEq] at heq
      obtain ⟨rfl, rfl⟩ := heq
      exact Or.inr ⟨hd, rc, rfl, Prod.ext hrc hlog, rfl⟩

/-! ### The calls on memory -/

/-- A call on memory as one of all calls. -/
def MemCall.sysId : MemCall → SyscallID
  | read => .read
  | write => .write
  | brk => .brk
  | munmap => .munmap
  | mmap2 => .mmap2
  | mprotect => .mprotect
  | getrandom => .getrandom

/-- The request that a call passes on to the host. -/
def MemCall.request (cpu : ByteMem) : MemCall → Option HostCall
  | read => some (.read (gpr cpu 10) (gpr cpu 11).toNat (gpr cpu 12))
  | write => some (.write (gpr cpu 10) (gpr cpu 11).toNat (gpr cpu 12))
  | mprotect => some (.mprotect (gpr cpu 10).toNat (gpr cpu 11).toNat (gpr cpu 12))
  | getrandom => some (.getrandom (gpr cpu 10).toNat (gpr cpu 11) (gpr cpu 12))
  | brk | munmap | mmap2 => none

variable {c : MemCall} {r : Reply} {other : Process → ByteMem → Option Outcome}

lemma MemCall.no_sysId (c : MemCall) : c.sysId.no = c.no := by
  cases c <;> rfl

variable (clk) in
/-- The handler of a call on memory does what the model of these calls says. -/
lemma run_memCall
    (hs : ∀ call, c.request cpu = some call → Serves r s.host call (answers n call)) :
    ∃ h, c.sysId.handler clk s (env_syscall.args cpu) = some h ∧
      (h.run answers n).1 =
        (c.run s.proc cpu r).map fun o => (o.rc, { s with proc := o.proc }) := by
  cases c with
  | read =>
    have hserve := hs _ rfl
    exact ⟨_, rfl, run_forward_fill (hserve.fill _ _ _ rfl) hserve.failed⟩
  | write =>
    have hserve := hs _ rfl
    exact ⟨_, rfl, run_forward_drain (hserve.drain _ _ _ rfl)⟩
  | getrandom =>
    have hserve := hs _ rfl
    exact ⟨_, rfl, run_forward_fill (hserve.fillRandom _ _ _ rfl) hserve.failed⟩
  | mprotect =>
    have hserve := hs _ rfl
    exact ⟨_, rfl, run_linux_mprotect (hserve.protect _ _ _ rfl) hserve.failed⟩
  | munmap => exact ⟨_, rfl, run_linux_munmap⟩
  | brk =>
    refine ⟨_, rfl, ?_⟩
    change ((env_syscall.linux_brk s (gpr cpu 10)).run answers n).1 = _
    rw [env_syscall.linux_brk, MemCall.run]
    cases linux_brk s.proc (gpr cpu 10) <;> rfl
  | mmap2 =>
    refine ⟨_, rfl, ?_⟩
    change ((env_syscall.linux_mmap2 s (gpr cpu 10) (gpr cpu 11) (gpr cpu 12) (gpr cpu 13)
      (gpr cpu 14) (gpr cpu 15)).run answers n).1 = _
    rw [env_syscall.linux_mmap2, MemCall.run]
    cases linux_mmap2 s.proc (gpr cpu 10) (gpr cpu 11) (gpr cpu 12) (gpr cpu 13) (gpr cpu 14)
      (gpr cpu 15) <;> rfl

variable (clk other) in
/-- On a call on memory the two dispatches come to the same. -/
lemma syscallLinux_same (hno : gpr cpu 17 = c.no)
    (hs : ∀ call, c.request cpu = some call → Serves r s.host call (answers n call)) :
    ((s.SyscallLinux clk cpu).run answers n).1 =
      (SyscallLinux other r s.proc cpu).map fun o => ({ s with proc := o.1.proc }, o.2) := by
  obtain ⟨h, hh, hrun⟩ := run_memCall clk hs
  rw [run_handler (hno.trans c.no_sysId.symm) hh, syscallLinux_eq hno, hrun]
  cases c.run s.proc cpu r <;> rfl

/-- A call on memory that names guest memory leaves all other memory of the host as it is, and so
does one that reaches beyond the guest's memory: it fails. -/
theorem syscallLinux_stays (hno : gpr cpu 17 = c.no) (hn : NamesGuest c cpu)
    (hs : ∀ call, c.request cpu = some call → Serves r s.host call (answers n call))
    (hrun : (s.SyscallLinux clk cpu).run answers n = (some (s', cpu'), log)) :
    s.host.Keeps (ASPACE_SIZE ≤ ·) s'.host ∧
      (c.Leaves cpu → IsErrno (gpr cpu' 10) ∧ s.host.Keeps (fun _ => True) s'.host) := by
  have hsame := syscallLinux_same clk (fun _ _ => none) hno hs
  rw [hrun] at hsame
  obtain ⟨⟨o, cpu₁⟩, ho, heq⟩ := Option.map_eq_some_iff.mp hsame.symm
  obtain ⟨rfl, rfl⟩ := Prod.mk.inj heq
  have hstays : Stays (fun _ _ => none) c cpu := stays_of_namesGuest hno hn
  have hinside := hstays r s.proc
  rw [ho] at hinside
  exact ⟨hinside.changed, hinside.refused⟩

end Rv32jit.Env
