/-
# Calls of the host

The handlers of `env.cpp` as computations that call the host: what a call is given, what it may
answer, and the state of the simulator that the handlers work on.  Addresses in the guest's memory
are the guest's own.
-/
import Rv32jit.Env.Syscall
import Rv32jit.Lib.Asking

namespace Rv32jit.Env

/-- The C library's calls, with the arguments that decide what the host does.  Those for mappings
are answered by the `Host`. -/
inductive HostCall
  | openat (dfd : BitVec 32) (filename : ℕ) (flags mode : BitVec 32)
  | close (fd : BitVec 32)
  | lseek (fd : BitVec 32) (off : BitVec 64) (whence : BitVec 32)
  | read (fd : BitVec 32) (buf : ℕ) (count : BitVec 32)
  | write (fd : BitVec 32) (buf : ℕ) (count : BitVec 32)
  | readlinkat (dfd : BitVec 32) (path : List Char) (buf : ℕ) (bufsiz : BitVec 32)
  | fstatat (fd : BitVec 32) (statbuf : ℕ)
  | set_tid_address
  | uname (name : ℕ)
  | getuid | geteuid | getgid | getegid
  | sysinfo
  | mprotect (addr len : ℕ) (prot : BitVec 32)
  | prlimit64 (pid resource : BitVec 32) (new_limit : Option (BitVec 64 × BitVec 64))
  | getrandom (buf : ℕ) (count flags : BitVec 32)
  | statx (dfd : BitVec 32) (path : List Char) (flags mask : BitVec 32) (buffer : ℕ)
  | getcwd
  | readlink (path : List Char)
  | realpath (path : List Char)
deriving DecidableEq

/-- What a call gives back: its value, and the bytes or the characters that it has for its
buffers. -/
structure Ret where
  rc : ℕ
  data : ByteMem
  str : List Char

/-- The answer to a call; an error comes with its number. -/
abbrev HostCall.Answer := Except (BitVec 32) Ret

/-- A handler: host calls and what it makes of their answers. -/
abbrev Handling := Asking HostCall HostCall.Answer

/-- The simulator, as far as the handlers use it. -/
structure Sim where
  proc : Process
  fsroot : List Char
  exe_fd : BitVec 32
  /-- `CONFIG_ZERO_MMU_BASE`: the guest's address 0 is the host's null pointer. -/
  zero_mmu_base : Bool
  /-- What a buffer on the stack holds that nothing has been written to. -/
  stack : ℕ → Char
  /-- The same for a variable. -/
  local_var : BitVec 64

namespace Sim

variable (s : Sim)

/-- The host under the process. -/
def host : Host := s.proc.host

/-- Replaces the host under the process. -/
def setHost (h : Host) : Sim := { s with proc := s.proc.setHost h }

/-- The memory of the host. -/
def mem : ByteMem := s.host.mem

/-- `errno` of the host. -/
def errno : BitVec 32 := s.host.errno

/-- Sets `errno`. -/
def setErrno (e : BitVec 32) : Sim := s.setHost { s.host with errno := e }

/-- The host has filled a buffer. -/
def fill (addr n : ℕ) (data : ByteMem) : Sim := s.setHost (s.host.fillBytes addr n data)

/-- Replaces the memory of the host. -/
def setMem (m : ByteMem) : Sim := s.setHost { s.host with mem := m }

/-- The C library leaves the number of an error in `errno`. -/
def after : HostCall.Answer → Sim
  | .error e => s.setErrno e
  | .ok _ => s

end Sim

/-- The value of a call in C. -/
def HostCall.Answer.rc : HostCall.Answer → BitVec 64
  | .error _ => -1
  | .ok r => .ofNat 64 r.rc

/-- One host call, whose effect on memory and `errno` is applied to the state. -/
def hostCall (s : Sim) (c : HostCall) : Handling (HostCall.Answer × Sim) := do
  let a ← Asking.ask c
  pure (a, s.after a)

/-- A handler reads the guest's memory; a fault ends in a panic. -/
def load (s : Sim) (addr n : ℕ) : Handling (BitVec 64) :=
  if Host.reaches addr n s.host.readable then pure (s.mem.load addr n) else .abort

/-- A handler writes the guest's memory. -/
def store (s : Sim) (addr n : ℕ) (v : BitVec 64) : Handling Sim :=
  if Host.reaches addr n s.host.writable then pure (s.setMem (s.mem.store addr n v)) else .abort

namespace Sim

variable (s : Sim) (h : Host) (m : ByteMem) (e : BitVec 32) (a : HostCall.Answer)

@[simp] lemma host_setHost : (s.setHost h).host = h := rfl
@[simp] lemma setHost_setHost (h' : Host) : (s.setHost h).setHost h' = s.setHost h' := rfl
@[simp] lemma errno_setErrno : (s.setErrno e).errno = e := rfl
@[simp] lemma errno_setMem : (s.setMem m).errno = s.errno := rfl
@[simp] lemma mem_setMem : (s.setMem m).mem = m := rfl
@[simp] lemma mem_setErrno : (s.setErrno e).mem = s.mem := rfl
@[simp] lemma setMem_setMem (m' : ByteMem) : (s.setMem m).setMem m' = s.setMem m' := rfl
@[simp] lemma writable_setMem : (s.setMem m).host.writable = s.host.writable := rfl
@[simp] lemma readable_setMem : (s.setMem m).host.readable = s.host.readable := rfl
@[simp] lemma writable_setErrno : (s.setErrno e).host.writable = s.host.writable := rfl
@[simp] lemma errno_fill (addr n : ℕ) (data : ByteMem) : (s.fill addr n data).errno = s.errno := rfl
@[simp] lemma writable_fill (addr n : ℕ) (data : ByteMem) :
    (s.fill addr n data).host.writable = s.host.writable := rfl
@[simp] lemma after_ok (r : Ret) : s.after (.ok r) = s := rfl
@[simp] lemma after_error : s.after (.error e) = s.setErrno e := rfl
@[simp] lemma mem_after : (s.after a).mem = s.mem := by cases a <;> rfl
@[simp] lemma writable_after : (s.after a).host.writable = s.host.writable := by cases a <;> rfl
@[simp] lemma readable_after : (s.after a).host.readable = s.host.readable := by cases a <;> rfl
@[simp] lemma fsroot_after : (s.after a).fsroot = s.fsroot := by cases a <;> rfl
@[simp] lemma stack_after : (s.after a).stack = s.stack := by cases a <;> rfl
@[simp] lemma exe_fd_after : (s.after a).exe_fd = s.exe_fd := by cases a <;> rfl

end Sim

variable {s : Sim} {env : ℕ → HostCall → HostCall.Answer} {n : ℕ}

lemma run_hostCall (c : HostCall) : (hostCall s c).run env n =
    (some (env n c, s.after (env n c)), [(c, env n c)]) := rfl

section

variable {α : Type}

lemma run_hostCall_bind (c : HostCall) (f : HostCall.Answer × Sim → Handling α) :
    (hostCall s c >>= f).run env n =
      let r := (f (env n c, s.after (env n c))).run env (n + 1)
      (r.1, (c, env n c) :: r.2) := rfl

lemma run_load_bind (addr k : ℕ) (f : BitVec 64 → Handling α) :
    (load s addr k >>= f).run env n =
      if Host.reaches addr k s.host.readable then (f (s.mem.load addr k)).run env n
      else (none, []) := by
  rw [load]
  split <;> rfl

lemma run_store_bind (addr k : ℕ) (v : BitVec 64) (f : Sim → Handling α) :
    (store s addr k v >>= f).run env n =
      if Host.reaches addr k s.host.writable then
        (f (s.setMem (s.mem.store addr k v))).run env n
      else (none, []) := by
  rw [store]
  split <;> rfl

end

end Rv32jit.Env
