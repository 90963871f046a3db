/-
# The emulator

`env::Execute`: the machine runs the program, and the simulator does its system calls and ends with
its status.  As a whole it is a process on a hart of the instruction set, with the system calls of
`env.cpp` for an operating system.
-/
import Rv32jit.Env.Kernel
import Rv32jit.Runtime.IsaRun
import Rv32jit.Runtime.Progress

namespace Rv32jit.Runtime

open Qir Insn CPUState Translate Interp Machine
open Env (Sim Clock HostCall linux)
open Rv32i (State Trap)

/-! ### The emulator -/

/-- The machine, and the simulator around it, which has the same memory of the guest. -/
structure Emulator where
  m : Machine
  sim : Sim

namespace Emulator

/-- What can be seen of the emulator: the instructions that the machine executes, and the calls of
the host with the answers. -/
abbrev Label : Type := Fetch ⊕ (HostCall × HostCall.Answer)

/-- A step.  What the host answers is left open. -/
inductive Step (clk : Clock) (env : HelperEnv) : Emulator → List Label → Emulator → Prop
  /-- Inside `Execute`. -/
  | code {m m' : Machine} {sim : Sim} {fs : List Fetch}
      (hne : trapno m.s.cpu ≠ TrapCode.ECALL.toBits) (h : Machine.Step env m fs m') :
      Step clk env ⟨m, sim⟩ (fs.map .inl) ⟨m', sim.setMem m'.s.mem⟩
  /-- `SyscallLinux` on an `ecall`, unless the program has been terminated. -/
  | ecall {j : Jit} {code : ℕ → Option RegionCode} {s s' : QState} {sim sim' : Sim}
      {cpu' : ByteMem} {answers : Env.Answers} {log : Env.Log}
      (htrap : trapno s.cpu = TrapCode.ECALL.toBits)
      (hrun : (sim.SyscallLinux clk (setIp s.cpu (ip s.cpu + 4))).run answers 0 =
        (some (sim', cpu'), log))
      (hgo : trapno cpu' ≠ TrapCode.TERMINATED.toBits)
      (hs : SameState { s with cpu := cpu', mem := sim'.mem } s') :
      Step clk env ⟨⟨j, code, s, .loop none⟩, sim⟩ (log.map .inr)
        ⟨⟨j, code, s', .loop none⟩, sim'⟩

/-- Runs of the emulator, with the instructions and the host calls that they make. -/
inductive Run (clk : Clock) (env : HelperEnv) (e₀ : Emulator) : List Label → Emulator → Prop
  | nil : Run clk env e₀ [] e₀
  | step {l l' : List Label} {e e' : Emulator} (hrun : Run clk env e₀ l e)
      (hstep : Step clk env e l' e') : Run clk env e₀ (l ++ l') e'

/-- `env::Execute` returns a value. -/
inductive Exits (clk : Clock) : Emulator → BitVec 32 → Prop
  | trap {j : Jit} {code : ℕ → Option RegionCode} {s : QState} {sim : Sim}
      (htrap : trapno s.cpu = TrapCode.EBREAK.toBits ∨
        trapno s.cpu = TrapCode.ILLEGAL_INSN.toBits) :
      Exits clk ⟨⟨j, code, s, .loop none⟩, sim⟩ 1
  | terminated {j : Jit} {code : ℕ → Option RegionCode} {s : QState} {sim sim' : Sim}
      {cpu' : ByteMem} {answers : Env.Answers} {log : Env.Log}
      (htrap : trapno s.cpu = TrapCode.ECALL.toBits)
      (hrun : (sim.SyscallLinux clk (setIp s.cpu (ip s.cpu + 4))).run answers 0 =
        (some (sim', cpu'), log))
      (hend : trapno cpu' = TrapCode.TERMINATED.toBits) :
      Exits clk ⟨⟨j, code, s, .loop none⟩, sim⟩ (gpr cpu' 10)

end Emulator

/-! ### The guest's memory -/

variable {clk : Clock} {h : Hart} {g g' : Guest} {l : List Guest.Insn} {raw : BitVec 32}
  {y : Rv32i.Process Sim}

/-- The memory is that of the body of the handler. -/
lemma mem_step (raw : BitVec 32) (h : Hart) :
    (Interp.step raw h).hart.mem = (implFamily (family (decode raw)) raw (if
      (family (decode raw)).saves then { h with cpu := setIp h.cpu h.gip } else h)).hart.mem := by
  rw [Interp.step, handler_family, handlerFamily]
  generalize implFamily _ raw _ = r
  simp only
  split
  · rfl
  · split <;> split <;> rfl

/-- An instruction writes inside the address space only. -/
lemma mem_step_outside (hfit : ∀ a ∈ (Interp.step raw h).acc, Fits a) {x : ℕ} (hx : 2 ^ 32 ≤ x) :
    (Interp.step raw h).hart.mem x = h.mem x := by
  obtain ⟨h₁, hh₁⟩ : ∃ h₁, h₁ =
      if (family (decode raw)).saves then { h with cpu := setIp h.cpu h.gip } else h := ⟨_, rfl⟩
  have hmem : h.mem = h₁.mem := by
    rw [hh₁]
    split <;> rfl
  rw [acc_step, ← hh₁] at hfit
  rw [mem_step, ← hh₁, hmem]
  cases hf : family (decode raw) with
  | store sz =>
    rw [hf] at hfit
    have hfit := hfit _ (List.mem_singleton_self _)
    exact ByteMem.store_apply_of_notMem _ (Or.inr (Nat.le_trans hfit hx))
  | jal | jalr | brcc =>
    simp only [implFamily, implJal, implJalr, implBranch, raiseTrap]
    split <;> first | rfl | (split <;> rfl)
  | _ => rfl

lemma Guest.Exec.mem_outside (hx : Guest.Exec g l g') (hl : ∀ f ∈ l, Standard f) {x : ℕ}
    (hout : 2 ^ 32 ≤ x) : g'.hart.mem x = g.hart.mem x := by
  induction hx with
  | nil => rfl
  | @step g' g'' l l' hrun htr hstep ih =>
    rw [← ih fun f hf => hl f (List.mem_append_left _ hf)]
    cases hstep with
    | insn h =>
      exact mem_step_outside (hl _ (List.mem_append_right _ (List.mem_singleton_self _))).fits hout
    | ecall htrap rc mem => cases htr

/-- What the guest does without calls is done by the hart of a process. -/
lemma Guest.Exec.process (hx : Guest.Exec g l g') (hg : g.Shows y.hart)
    (hpc : y.hart.state.pc.toNat % 4 = 0) (hl : ∀ f ∈ l, Standard f) :
    ∃ y', Rv32i.Process.Run Spells (linux clk) y (l.map fun f => .inl (spelling f)) y' ∧
      g'.Shows y'.hart ∧ y'.hart.state.pc.toNat % 4 = 0 ∧ y'.system = y.system := by
  induction hx with
  | nil => exact ⟨y, .nil, hg, hpc, rfl⟩
  | @step g' g'' l l' hrun htr hstep ih =>
    obtain ⟨⟨⟨st, stopped⟩, k⟩, hp, hshows, hpc', hk⟩ :=
      ih fun f hf => hl f (List.mem_append_left _ hf)
    obtain ⟨x, hx, hshows'⟩ := hshows.step hpc' hstep fun f hf =>
      hl f (List.mem_append_right _ hf)
    -- a hart that the guest runs with has not stopped
    obtain rfl : stopped = none := by
      cases stopped with
      | none => rfl
      | some t => exact absurd ((hshows.stopped t rfl).1.symm.trans htr) (by decide)
    have hs : Rv32i.Process.Step Spells (linux clk) ⟨⟨st, none⟩, k⟩
        ((l'.map spelling).map .inl) ⟨x, k⟩ := .hart hx
    refine ⟨⟨x, k⟩, ?_, hshows', hx.aligned hpc', hk⟩
    rw [List.map_append]
    rw [List.map_map] at hs
    exact hp.step hs

lemma Matches.mem {ip₀ : BitVec 32} {H : List Fetch} {m : Machine} (hm : Matches ip₀ H m g) :
    m.s.mem = g.hart.mem := by
  by_cases hnone : trapno m.s.cpu = TrapCode.NONE.toBits
  · exact (hm.running hnone).2.1.mem
  · exact (hm.trapped hnone).2.2

/-! ### Runs of the emulator -/

namespace Emulator

/-- What is seen of the process. -/
def seen : Label → (BitVec 32 × BitVec 32) ⊕ (HostCall × HostCall.Answer) :=
  Sum.map (fun f => (f.ip, f.raw)) id

/-- The instructions among what is seen. -/
def fetches (l : List Label) : List Fetch := l.filterMap Sum.getLeft?

lemma fetches_inl (fs : List Fetch) : fetches (fs.map .inl) = fs := by
  simp [fetches, List.filterMap_map, Function.comp_def]

lemma fetches_inr (log : Env.Log) : fetches (log.map .inr) = [] := by
  simp [fetches, List.filterMap_map, Function.comp_def]

lemma fetches_append (l l' : List Label) : fetches (l ++ l') = fetches l ++ fetches l' :=
  List.filterMap_append

/-- The emulator is where the process is. -/
structure Sims (ip₀ : BitVec 32) (H : List Fetch) (e : Emulator) (y : Rv32i.Process Sim) :
    Prop where
  ok : Ok ip₀ H e.m
  held : ∀ slot, e.m.ctl = .loop (some slot) → trapno e.m.s.cpu = TrapCode.NONE.toBits
  shows : ∃ g, Matches ip₀ H e.m g ∧ g.Shows y.hart
  aligned : y.hart.state.pc.toNat % 4 = 0
  mem : e.sim.mem = e.m.s.mem
  sim : e.sim = y.system.withGuest y.hart.state.mem

variable {ip₀ : BitVec 32} {H : List Fetch} {e e' : Emulator} {l : List Label}
  {other : RuntimeStubId → BitVec 32 → ByteMem → ByteMem → HelperRes}
  {clobber : RuntimeStubId → (ℕ → BitVec 32) → ByteMem → ByteMem → ℕ → BitVec 32}

/-- One step of the emulator. -/
lemma Sims.step (hs : Sims ip₀ H e y) (hstep : Step clk (helperEnv other clobber) e l e')
    (hl : ∀ f ∈ fetches l, Faithful f ∧ Standard (insnOf f)) :
    ∃ y', Rv32i.Process.Run Spells (linux clk) y (l.map seen) y' ∧
      Sims ip₀ (H ++ fetches l) e' y' := by
  obtain ⟨g, hmatch, hshows⟩ := hs.shows
  cases hstep with
  | @code m m' sim fs hne h =>
    rw [fetches_inl] at hl ⊢
    obtain ⟨g', hx, hmatch'⟩ := hmatch.exec hs.ok (hs.ok.running h hne) h fun f hf => (hl f hf).1
    have hstd : ∀ f ∈ fs.map insnOf, Standard f := by
      intro f hf
      obtain ⟨f', hf', rfl⟩ := List.mem_map.mp hf
      exact (hl f' hf').2
    obtain ⟨y', hp, hshows', hpc, hsys⟩ := hx.process hshows hs.aligned hstd
    refine ⟨y', ?_, hs.ok.step h, fun slot hctl => held_of_step h hs.ok hctl,
      ⟨g', hmatch', hshows'⟩, hpc, rfl, ?_⟩
    · rw [List.map_map] at hp ⊢
      exact hp
    · have hsim : sim = y.system.withGuest y.hart.state.mem := hs.sim
      have hmem : sim.mem = m.s.mem := hs.mem
      have hin : ∀ a, m'.s.mem (BitVec.toNat a) = y'.hart.state.mem a :=
        (machine_shows (hs.ok.step h) hmatch' hshows').mem
      have hout : ∀ x, 2 ^ 32 ≤ x → m'.s.mem x = y'.system.mem x := by
        intro x hx'
        have hself : sim.mem x = y.system.mem x := by
          rw [hsim, Sim.withGuest, Env.Sim.mem_setMem]
          exact if_neg (Nat.not_lt.mpr hx')
        rw [hmatch'.mem, hx.mem_outside hstd hx', ← hmatch.mem, ← hmem, hself, hsys]
      rw [Sim.withGuest_eq hin hout, hsys, hsim]
      rfl
  | @ecall j code s s' sim sim' cpu' answers log htrap hrun hgo hs' =>
    rw [fetches_inr, List.append_nil]
    obtain ⟨id, hno, ⟨-, hcpu⟩ | ⟨hd, rc, hf, hdrun, hcpu⟩⟩ := Env.syscallLinux_cases hrun
    · refine absurd ?_ hgo
      rw [hcpu, trapno_setGpr _ (by decide), trapno_setTrapno]
    · subst hcpu
      obtain ⟨htr, hcpu, hmem, hmatch'⟩ := hmatch.call hs.ok htrap rc sim'.mem hs'
      have hstep : Machine.Step noHelper ⟨j, code, s, .loop none⟩ [] ⟨j, code, s', .loop none⟩ :=
        .ecall htrap rc sim'.mem hs'
      have hok' := hs.ok.step hstep
      rw [List.append_nil] at hok'
      obtain ⟨⟨cpu, gip, mem⟩, tr⟩ := g
      obtain rfl : cpu = s.cpu := hcpu
      obtain rfl : tr = true := htr
      obtain ⟨⟨st, stopped⟩, k⟩ := y
      -- the hart has stopped on the call
      obtain ⟨t, rfl⟩ : ∃ t, stopped = some t := by
        cases hst : stopped with
        | none => cases hshows.running hst
        | some t => exact ⟨t, rfl⟩
      obtain ⟨-, hcode, hip⟩ := hshows.stopped t rfl
      obtain rfl : t = .call := trapCode_inj (hcode.symm.trans htrap)
      have hgpr : ∀ r : Rv32i.Reg, gpr (setIp s.cpu (ip s.cpu + 4)) r = st.x r :=
        fun r => (gpr_setIp _ r.isLt _).trans (hshows.state.x r)
      have hargs : Env.env_syscall.args (setIp s.cpu (ip s.cpu + 4)) =
          fun i : Fin 7 => st.x ⟨10 + i, by omega⟩ :=
        funext fun i : Fin 7 => hgpr ⟨10 + i, by omega⟩
      rw [hargs, show sim = k.withGuest st.mem from hs.sim] at hf
      have hcall : Rv32i.Process.Step Spells (linux clk) ⟨⟨st, some .call⟩, k⟩ (log.map .inr)
          ⟨⟨{ (st.set 10 rc).next with mem := fun a => sim'.mem a.toNat }, none⟩, sim'⟩ :=
        .call ⟨id, hd, answers, (hgpr 17).symm.trans hno, hf, hdrun, rfl⟩
      refine ⟨_, ?_, hok', fun slot hctl => (by cases hctl), ⟨_, hmatch',
        shows_call hshows.state hip rc sim'.mem⟩, hcall.aligned hs.aligned, hs'.mem.symm, ?_⟩
      · rw [List.map_map]
        exact Rv32i.Process.Run.nil.step hcall
      · exact (Sim.withGuest_eq (fun _ => rfl) fun _ _ => rfl).symm

lemma Sims.run (hs : Sims ip₀ [] e y) (hrun : Run clk (helperEnv other clobber) e l e')
    (hl : ∀ f ∈ fetches l, Faithful f ∧ Standard (insnOf f)) :
    ∃ y', Rv32i.Process.Run Spells (linux clk) y (l.map seen) y' ∧
      Sims ip₀ (fetches l) e' y' := by
  induction hrun with
  | nil => exact ⟨y, .nil, hs⟩
  | @step l l' e' e'' hrun hstep ih =>
    rw [fetches_append] at hl ⊢
    obtain ⟨y₁, hp, hs₁⟩ := ih fun f hf => hl f (List.mem_append_left _ hf)
    obtain ⟨y₂, hp', hs₂⟩ := hs₁.step hstep fun f hf => hl f (List.mem_append_right _ hf)
    refine ⟨y₂, ?_, hs₂⟩
    rw [List.map_append]
    exact hp.trans hp'

/-- With a trap pending the emulator is where it looks at the trap. -/
lemma Sims.ctl_eq (hs : Sims ip₀ H e y) (hne : trapno e.m.s.cpu ≠ TrapCode.NONE.toBits) :
    e.m.ctl = .loop none := by
  obtain ⟨⟨j, code, s, ctl⟩, sim⟩ := e
  cases ctl with
  | loop branch_slot =>
    cases branch_slot with
    | none => rfl
    | some slot => exact absurd (hs.held slot rfl) hne
  | _ => exact absurd hs.ok.here.1 hne

/-- The exception that the hart has stopped on is the trap of the machine. -/
lemma Sims.stopped_iff (hs : Sims ip₀ H e y) (t : Trap) :
    y.hart.stopped = some t ↔ trapno e.m.s.cpu = (trapCode t).toBits := by
  obtain ⟨g, hmatch, hshows⟩ := hs.shows
  have hm := machine_shows hs.ok hmatch hshows
  constructor
  · intro ht
    by_cases hnone : trapno e.m.s.cpu = TrapCode.NONE.toBits
    · rw [(hm.running hnone).1] at ht
      cases ht
    · obtain ⟨-, t', ht', hcode⟩ := hm.stopped hnone
      rw [ht] at ht'
      cases ht'
      exact hcode
  · intro hcode
    have hne : trapno e.m.s.cpu ≠ TrapCode.NONE.toBits := by
      rw [hcode]
      cases t <;> decide
    obtain ⟨-, t', ht', hcode'⟩ := hm.stopped hne
    rw [ht', trapCode_inj (hcode'.symm.trans hcode)]

/-- The emulator returns what the program ends with. -/
lemma Sims.exits_iff (hs : Sims ip₀ H e y) (v : BitVec 32) :
    e.Exits clk v ↔ y.Exits (linux clk) v := by
  obtain ⟨⟨j, code, s, ctl⟩, sim⟩ := e
  have hgpr : ∀ r : Rv32i.Reg, gpr (setIp s.cpu (ip s.cpu + 4)) r = y.hart.state.x r := by
    intro r
    obtain ⟨g, hmatch, hshows⟩ := hs.shows
    exact (gpr_setIp _ r.isLt _).trans ((machine_shows hs.ok hmatch hshows).gpr r)
  constructor
  · intro hx
    cases hx with
    | trap htrap =>
      rcases htrap with htrap | htrap
      · exact ⟨.breakpoint, (hs.stopped_iff .breakpoint).mpr htrap, rfl⟩
      · exact ⟨.illegal, (hs.stopped_iff .illegal).mpr htrap, rfl⟩
    | terminated htrap hrun hend =>
      refine ⟨.call, (hs.stopped_iff .call).mpr htrap, ?_⟩
      obtain ⟨id, hno, ⟨hid, hcpu⟩ | ⟨hd, rc, -, -, hcpu⟩⟩ := Env.syscallLinux_cases hrun
      · refine ⟨?_, ?_⟩
        · rw [← hgpr 17]
          rcases hid with rfl | rfl
          · exact Or.inl hno
          · exact Or.inr hno
        · rw [hcpu, gpr_setGpr_same]
          exact hgpr 10
      · rw [hcpu, trapno_setGpr _ (by decide), trapno_setTrapno] at hend
        cases hend
  · rintro ⟨t, ht, hv⟩
    have htrap := (hs.stopped_iff t).mp ht
    have hctl := hs.ctl_eq (by rw [htrap]; cases t <;> decide)
    obtain rfl : ctl = .loop none := hctl
    cases t with
    | misaligned => exact hv.elim
    | breakpoint =>
      obtain rfl : v = 1 := hv
      exact .trap (Or.inl htrap)
    | illegal =>
      obtain rfl : v = 1 := hv
      exact .trap (Or.inr htrap)
    | call =>
      obtain ⟨hno, rfl⟩ : (y.hart.state.x 17 = Env.SyscallID.no .exit ∨
        y.hart.state.x 17 = Env.SyscallID.no .exit_group) ∧ v = y.hart.state.x 10 := hv
      obtain ⟨no, hid, hno⟩ : ∃ no : Env.SyscallID, (no = .exit ∨ no = .exit_group) ∧
          gpr (setIp s.cpu (ip s.cpu + 4)) 17 = no.no := by
        rcases hno with hno | hno
        · exact ⟨_, Or.inl rfl, (hgpr 17).trans hno⟩
        · exact ⟨_, Or.inr rfl, (hgpr 17).trans hno⟩
      have hrun : (sim.SyscallLinux clk (setIp s.cpu (ip s.cpu + 4))).run
          (fun _ _ => .error 0) 0 = _ := Env.run_exit hno hid
      have hx : Exits clk ⟨⟨j, code, s, .loop none⟩, sim⟩ _ :=
        .terminated htrap hrun (by rw [trapno_setGpr _ (by decide), trapno_setTrapno])
      rw [gpr_setGpr_same] at hx
      rw [← hgpr 10]
      exact hx

lemma mem_fetches {f : Fetch} : f ∈ fetches l ↔ .inl f ∈ l := by
  rw [fetches, List.mem_filterMap]
  constructor
  · rintro ⟨x, hx, hf⟩
    rwa [Sum.getLeft?_eq_some_iff.mp hf] at hx
  · exact fun hf => ⟨_, hf, rfl⟩

/-- At the start of `env::Execute` the emulator is where the process is. -/
lemma Sims.start (tb_base code_base : ℕ) {s : QState} {sim : Sim} {st : State}
    (hst : Insn.Shows ⟨s.cpu, ip s.cpu, s.mem⟩ st) (hpc : st.pc.toNat % 4 = 0)
    (htrap : trapno s.cpu = TrapCode.NONE.toBits) (hmem : sim.mem = s.mem) :
    Sims (ip s.cpu) [] ⟨Machine.start tb_base code_base s, sim⟩ ⟨⟨st, none⟩, sim⟩ := by
  have h0 : gpr s.cpu 0 = 0 := hst.x0
  have hmatch : Matches (ip s.cpu) [] (Machine.start tb_base code_base s)
      ⟨⟨s.cpu, ip s.cpu, s.mem⟩, false⟩ :=
    ⟨fun _ => ⟨rfl, ⟨.refl _, rfl, h0⟩, rfl⟩, fun hne => absurd htrap hne⟩
  have hshows : Guest.Shows ⟨⟨s.cpu, ip s.cpu, s.mem⟩, false⟩ ⟨st, none⟩ :=
    ⟨hst, fun _ => rfl, fun t h => by cases h⟩
  have hin : ∀ a, sim.mem (BitVec.toNat a) = st.mem a := by
    rw [hmem]
    exact hst.mem
  exact ⟨ok_start tb_base code_base h0 htrap, fun slot h => (by cases h), ⟨_, hmatch, hshows⟩, hpc,
    hmem, (Sim.withGuest_eq hin fun _ _ => rfl).symm⟩

/-- What comes of a run of the emulator. -/
lemma Sims.emulates (hs : Sims ip₀ [] e y) (hrun : Run clk (helperEnv other clobber) e l e')
    (hl : ∀ f, .inl f ∈ l → Faithful f ∧ Standard (insnOf f)) :
    ∃ y', Rv32i.Process.Run Spells (linux clk) y (l.map seen) y' ∧ e'.m.Shows y'.hart ∧
      e'.sim = y'.system.withGuest y'.hart.state.mem ∧
      ∀ v, e'.Exits clk v ↔ y'.Exits (linux clk) v := by
  obtain ⟨y', hp, hs'⟩ := hs.run hrun fun f hf => hl f (mem_fetches.mp hf)
  obtain ⟨g, hmatch, hshows⟩ := hs'.shows
  exact ⟨y', hp, machine_shows hs'.ok hmatch hshows, hs'.sim, hs'.exits_iff⟩

/-- Every run of the emulator is a run of the program on a hart of the instruction set, under the
system calls for an operating system: the same words at the same addresses and, between them, the
same calls of the host with the same answers.  The machine has the registers and the memory of the
hart, and `env::Execute` returns a value if and only if the program ends with that status. -/
theorem run_emulates (tb_base code_base : ℕ) {s : QState} {sim : Sim} {st : State}
    (hst : Insn.Shows ⟨s.cpu, ip s.cpu, s.mem⟩ st) (hpc : st.pc.toNat % 4 = 0)
    (htrap : trapno s.cpu = TrapCode.NONE.toBits) (hmem : sim.mem = s.mem)
    (hrun : Run clk (helperEnv other clobber) ⟨start tb_base code_base s, sim⟩ l e)
    (hl : ∀ f, .inl f ∈ l → Faithful f ∧ Standard (insnOf f)) :
    ∃ y, Rv32i.Process.Run Spells (linux clk) ⟨⟨st, none⟩, sim⟩ (l.map seen) y ∧
      e.m.Shows y.hart ∧ e.sim = y.system.withGuest y.hart.state.mem ∧
      ∀ v, e.Exits clk v ↔ y.Exits (linux clk) v := by
  exact (Sims.start tb_base code_base hst hpc htrap hmem).emulates hrun hl

/-! ### A program that exits -/

/-- An `ecall` at address 4. -/
def exitMem : ByteMem := ByteMem.store (fun _ => 0) 4 4 0x73#32

/-- The call is `exit`, with the status 7. -/
def exitState : QState where
  vreg _ := 0
  preg _ := 0
  frame _ := 0
  cpu := setIp (setGpr (setGpr (fun _ => 0) 17 93) 10 7) 4
  mem := exitMem

lemma compile_exitMem : (compile (word exitMem) [(4, 0x1000)]).isSome := by decide +kernel

lemma storeLayout_nonempty : 0 < storeLayout.code_sz := by decide

/-- The region of the program, which leaves for no fixed address. -/
def exitRegion : RegionCode where
  prog := word exitMem
  range := (4, 0x1000)
  t := ((compile (word exitMem) [(4, 0x1000)]).get compile_exitMem).1
  r := ((compile (word exitMem) [(4, 0x1000)]).get compile_exitMem).2
  compiled := (Option.some_get compile_exitMem).symm
  layout := storeLayout
  nonempty := storeLayout_nonempty
  slotOf _ := 0
  placed := by
    intro b blk ins tpc hblk hins hop
    have hno : ∀ blk ∈ ((compile (word exitMem) [(4, 0x1000)]).get compile_exitMem).2.blist,
        ∀ ins ∈ blk.ilist, isGbr ins.op = false := by decide +kernel
    have := hno blk (List.mem_of_getElem? hblk) ins hins
    rw [hop] at this
    cases this

/-- The hart that starts there. -/
def exitHart : State where
  pc := 4
  x r := gpr exitState.cpu r
  x0 := by decide +kernel
  mem a := exitMem a.toNat

/-- A clock that stands still. -/
def stopClock : Clock := fun s _ _ => pure (0, s)

/-- A simulator with the program in its memory. -/
def exitSim : Sim := Env.startedIn.setMem exitMem

/-- The program runs up to its call. -/
lemma exitState_run : ∃ e, Run stopClock noHelper ⟨start 0 0 exitState, exitSim⟩
    [.inl (fetch (word exitMem) 4 exitState)] e ∧ e.Exits stopClock 7 := by
  have hip : ip exitState.cpu = 4 := ip_setIp _ _
  have hnone : trapno exitState.cpu = TrapCode.NONE.toBits := by decide +kernel
  have hcall : family (decode (word exitMem 4)) = .call .rv32_ecall .ECALL := by
    rw [show word exitMem 4 = 0x73 by decide +kernel]
    rfl
  have hexec : BlockExecutes exitRegion.prog noHelper exitRegion.t 0 4 exitState
      [fetch exitRegion.prog 4 exitState] :=
    Or.inl ⟨1, insnCode (family (decode (word exitMem 4))) (word exitMem 4) 4 32, [],
      by decide +kernel, by decide +kernel, .call hcall,
      .last (by decide) (.call hcall) (by decide +kernel)⟩
  obtain ⟨x, hx⟩ : ∃ x, execBlock noHelper exitRegion.r 0 exitState = x := ⟨_, rfl⟩
  obtain ⟨ev, out, s'⟩ := x
  have hres : (execBlock noHelper exitRegion.r 0 exitState).2.1 = .trap ∧
      trapno (execBlock noHelper exitRegion.r 0 exitState).2.2.cpu = TrapCode.ECALL.toBits ∧
      gpr (execBlock noHelper exitRegion.r 0 exitState).2.2.cpu 17 = 93 ∧
      gpr (execBlock noHelper exitRegion.r 0 exitState).2.2.cpu 10 = 7 := by
    decide +kernel
  rw [hx] at hres
  obtain ⟨rfl, htrap, h17, h10⟩ : out = .trap ∧ trapno s'.cpu = TrapCode.ECALL.toBits ∧
    gpr s'.cpu 17 = 93 ∧ gpr s'.cpu 10 = 7 := hres
  -- the region is compiled and entered
  have hlook : (Jit.init 0 0).cache.lookup 4 = (none, TCache.init) := rfl
  obtain ⟨tb, j', hj⟩ : ∃ tb j', { Jit.init 0 0 with cache := TCache.init }.compilerDoJob 4
      storeLayout = some (tb, j') := ⟨_, _, rfl⟩
  have hrange : exitRegion.range = getCompilationIPRange TCache.init 4 := by decide +kernel
  have hfit : exitRegion.layout.alloc_sz ≤ CODE_POOL_SIZE := by decide
  obtain ⟨j, hjit⟩ : ∃ j, j = j'.linkOrCache none tb := ⟨_, rfl⟩
  obtain ⟨code, hcode⟩ : ∃ code : ℕ → Option RegionCode,
      code = Function.update (fun _ => none) tb.tcode.ptr (some exitRegion) := ⟨_, rfl⟩
  have hcompile : Machine.Step noHelper (start 0 0 exitState) []
      ⟨j, code, exitState, .block tb.tcode.ptr 0⟩ := by
    rw [hjit, hcode]
    exact .compile hnone (by rw [hip]; exact hlook) rfl (by rw [hip]; exact hrange) hfit
      (by rw [hip]; exact hj) ⟨rfl, rfl⟩
  have hblock : Machine.Step noHelper ⟨j, code, exitState, .block tb.tcode.ptr 0⟩
      [fetch exitRegion.prog 4 exitState] ⟨j, code, s', .loop none⟩ :=
    .block (by rw [hcode]; exact Function.update_self _ _ _) hexec hx rfl
  have hne : trapno exitState.cpu ≠ TrapCode.ECALL.toBits := by
    rw [hnone]
    decide
  have hstep₁ : Step stopClock noHelper ⟨start 0 0 exitState, exitSim⟩ []
      ⟨⟨j, code, exitState, .block tb.tcode.ptr 0⟩, exitSim.setMem exitState.mem⟩ :=
    .code (m := start 0 0 exitState) hne hcompile
  have hstep₂ : Step stopClock noHelper
      ⟨⟨j, code, exitState, .block tb.tcode.ptr 0⟩, exitSim.setMem exitState.mem⟩
      [.inl (fetch (word exitMem) 4 exitState)]
      ⟨⟨j, code, s', .loop none⟩, (exitSim.setMem exitState.mem).setMem s'.mem⟩ :=
    .code (m := ⟨j, code, exitState, .block tb.tcode.ptr 0⟩) hne hblock
  refine ⟨_, (Run.nil.step hstep₁).step hstep₂, ?_⟩
  -- the call ends the program
  have hset : ∀ {i}, i < 32 → gpr (setIp s'.cpu (ip s'.cpu + 4)) i = gpr s'.cpu i :=
    fun hi => gpr_setIp _ hi _
  have hrun : ((exitSim.setMem exitState.mem).setMem s'.mem |>.SyscallLinux stopClock
      (setIp s'.cpu (ip s'.cpu + 4))).run (fun _ _ => .error 0) 0 = _ :=
    Env.run_exit ((hset (by decide)).trans h17 : _ = Env.SyscallID.no .exit) (Or.inl rfl)
  have hexit : Exits stopClock
      ⟨⟨j, code, s', .loop none⟩, (exitSim.setMem exitState.mem).setMem s'.mem⟩ _ :=
    .terminated htrap hrun (by rw [trapno_setGpr _ (by decide), trapno_setTrapno])
  rw [gpr_setGpr_same, hset (by decide), h10] at hexit
  exact hexit

/-- That program ends with its status. -/
theorem run_emulates_exitState :
    ∃ l e, Run stopClock noHelper ⟨start 0 0 exitState, exitSim⟩ l e ∧ l.length = 1 ∧
      e.Exits stopClock 7 ∧
      ∃ y, Rv32i.Process.Run Spells (linux stopClock) ⟨⟨exitHart, none⟩, exitSim⟩ (l.map seen) y ∧
        e.m.Shows y.hart ∧ e.sim = y.system.withGuest y.hart.state.mem ∧
        ∀ v, e.Exits stopClock v ↔ y.Exits (linux stopClock) v := by
  obtain ⟨e, hrun, hexit⟩ := exitState_run
  have hpc : ip exitState.cpu = 4 := ip_setIp _ _
  have hst : Insn.Shows ⟨exitState.cpu, ip exitState.cpu, exitState.mem⟩ exitHart :=
    ⟨hpc, fun _ => rfl, fun _ => rfl⟩
  have hmem : exitSim.mem = exitState.mem := Env.Sim.mem_setMem _ _
  have hraw : word exitMem 4 = 0x73#32 := by decide +kernel
  have hacc : (Interp.step (word exitMem 4) ⟨exitState.cpu, 4, exitState.mem⟩).acc = [] := by
    rw [hraw, acc_step]
    rfl
  refine ⟨_, e, hrun, rfl, hexit, run_emulates 0 0 hst (by decide) (by decide +kernel) hmem hrun
    fun f hf => ?_⟩
  obtain rfl := Sum.inl.inj (List.mem_singleton.mp hf)
  refine ⟨⟨rfl, ?_, ?_⟩, ?_, ?_⟩
  · change isX0Load (family (decode (word exitMem 4))) (word exitMem 4) = false
    rw [hraw]
    rfl
  · change misaligned (word exitMem 4) _ = false
    rw [hraw]
    rfl
  · change ¬ LooseFunct7 (word exitMem 4)
    rw [hraw]
    exact fun hloose => hloose.1 (by decide)
  · intro a ha
    change a ∈ (Interp.step (word exitMem 4) ⟨exitState.cpu, 4, exitState.mem⟩).acc at ha
    rw [hacc] at ha
    cases ha

end Emulator

end Rv32jit.Runtime
