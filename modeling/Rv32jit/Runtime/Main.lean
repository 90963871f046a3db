/-
# The whole program

`main`: an executable is loaded and started with its arguments, and `env::Execute` runs it.  The
runs of the emulator are those of the program on a hart that has the executable and the arguments
in its memory.
-/
import Rv32jit.Env.Boot
import Rv32jit.Runtime.Emulator

namespace Rv32jit.Runtime.Emulator

open Qir Insn CPUState Translate Interp Machine
open Env (Sim Clock HostCall linux HostFile WellFormed LoadsOk Grants Constructed HostIds ElfImage)
open Rv32i (State Trap)

/-- The state of the instruction set that the CPU state and the memory show. -/
def shown (cpu mem : ByteMem) (h0 : gpr cpu 0 = 0) : State where
  pc := ip cpu
  x r := gpr cpu r
  x0 := h0
  mem a := mem a.toNat

/-- Every run of the emulator from what `main` has prepared is one of the program from a state of
the hart. -/
def Emulates (clk : Clock) (env : HelperEnv) (b : Env.Booted) (st : State) : Prop :=
  ∀ (tb_base code_base : ℕ) (s : QState) (sim : Sim) (l : List Label) (e : Emulator),
    s.cpu = b.cpu → s.mem = b.proc.host.mem → sim.proc = b.proc →
    Run clk env ⟨start tb_base code_base s, sim⟩ l e →
    (∀ f, .inl f ∈ l → Faithful f ∧ Standard (insnOf f)) →
    ∃ y, Rv32i.Process.Run Spells (linux clk) ⟨⟨st, none⟩, sim⟩ (l.map seen) y ∧
      e.m.Shows y.hart ∧ e.sim = y.system.withGuest y.hart.state.mem ∧
      ∀ v, e.Exits clk v ↔ y.Exits (linux clk) v

variable {clk : Clock}
  {other : RuntimeStubId → BitVec 32 → ByteMem → ByteMem → HelperRes}
  {clobber : RuntimeStubId → (ℕ → BitVec 32) → ByteMem → ByteMem → ℕ → BitVec 32}

/-- From a well-formed executable whose segments are loaded, and arguments that fit on the stack,
to the end of the program: `main` starts it with its segments in memory and its arguments on the
stack, and every run of the emulator is then a run of the program on a hart that starts at the
entry point with that memory. -/
theorem boot_emulates (ids : HostIds) (fd : BitVec 32) (f : HostFile) (argv : List CString)
    (cpu : ByteMem) (m : Env.Mmu) (elf : ElfImage) (hw : WellFormed f) (ho : LoadsOk f)
    (hg : Grants fd f m.host) (hfit : Env.Fits Env.stk_addr.toNat Env.stk_top argv)
    (hshort : ∀ str ∈ argv, str.strlen + 1 < 2 ^ 16) (hcpu : Constructed cpu)
    (halign : f.ehdr.e_entry.toNat % 4 = 0) :
    ∃ b st, Env.boot ids fd f argv cpu m elf = some b ∧ Env.Started f argv b.proc.host b.cpu ∧
      Insn.Shows ⟨b.cpu, f.ehdr.e_entry, b.proc.host.mem⟩ st ∧
      Emulates clk (helperEnv other clobber) b st := by
  obtain ⟨b, hboot, hstart⟩ := Env.boot_starts ids fd f argv cpu m elf hw ho hg hfit hshort hcpu
  have h0 : gpr b.cpu 0 = 0 := hstart.gpr 0 (by decide) (by decide)
  have hst : Insn.Shows ⟨b.cpu, f.ehdr.e_entry, b.proc.host.mem⟩
      (shown b.cpu b.proc.host.mem h0) :=
    ⟨hstart.ip.symm, fun _ => rfl, fun _ => rfl⟩
  refine ⟨b, _, hboot, hstart, hst, ?_⟩
  intro tb_base code_base s sim l e hs hmem hproc hrun hl
  have hip : ip s.cpu = f.ehdr.e_entry := by rw [hs, hstart.ip]
  have hst' : Insn.Shows ⟨s.cpu, ip s.cpu, s.mem⟩ (shown b.cpu b.proc.host.mem h0) := by
    rw [hip, hs, hmem]
    exact hst
  have hpc : (shown b.cpu b.proc.host.mem h0).pc.toNat % 4 = 0 := by
    rw [← hst.pc]
    exact halign
  have htrap : trapno s.cpu = TrapCode.NONE.toBits := by rw [hs, hstart.trapno]
  have hsim : sim.mem = s.mem := by rw [hmem, ← hproc]; rfl
  exact (Sims.start tb_base code_base hst' hpc htrap hsim).emulates hrun hl

/-! ### An executable of one segment -/

/-- The executable that has a part of a page in the file and a part that is cleared. -/
def smallFile : HostFile := Env.elfFile 0x10F00 0xF00 0x10 0x80 6

lemma wellFormed_smallFile : WellFormed smallFile := by
  refine ⟨by decide, rfl, rfl, rfl, by decide, ?_, ?_⟩
  · rw [smallFile, Env.elfFile_segments.2]
    simp only [List.mem_singleton, forall_eq]
    exact ⟨by decide, rfl, by decide, by decide⟩
  · rw [smallFile, Env.elfFile_segments.2]
    exact List.pairwise_singleton _ _

lemma loadsOk_smallFile : LoadsOk smallFile := by
  refine ⟨?_, ?_⟩
  · rw [smallFile, Env.elfFile_segments.2]
    simp only [List.mem_singleton, forall_eq]
    refine ⟨by decide, fun _ => by decide, fun h => absurd h (by decide), fun _ _ => ?_⟩
    rw [Env.BssOk, if_neg (by decide)]
    exact ⟨by decide, by decide, Or.inr (by decide)⟩
  · rw [smallFile, Env.elfFile_segments.2]
    simp only [List.mem_singleton, forall_eq]
    intro _ _ hwrap
    exact absurd hwrap (by decide)

/-- It is started with one argument. -/
theorem boot_emulates_smallFile :
    ∃ b st, Env.boot Env.noIds 3 smallFile [Env.fooStr] (fun _ => 0)
        (Env.grantingHost smallFile) ⟨⟨0, 0, 0, 0, 0, 0⟩, 0, 0, 0, 0⟩ = some b ∧
      Env.Started smallFile [Env.fooStr] b.proc.host b.cpu ∧
      Insn.Shows ⟨b.cpu, smallFile.ehdr.e_entry, b.proc.host.mem⟩ st ∧
      Emulates stopClock noHelper b st :=
  boot_emulates Env.noIds 3 smallFile [Env.fooStr] (fun _ => 0) (Env.grantingHost smallFile) _
    wellFormed_smallFile loadsOk_smallFile ⟨rfl, fun _ => ⟨0, rfl⟩⟩
    (by
      rw [Env.Fits, Env.toNat_stk_addr, Env.stk_top_eq]
      decide)
    (by
      simp only [List.mem_singleton, forall_eq]
      decide)
    ⟨fun _ _ => by simp [gpr, ByteMem.load], by decide +kernel⟩ (by decide +kernel)

end Rv32jit.Runtime.Emulator
