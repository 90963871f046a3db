/-
# The machine implements the instruction set

From the machine down to the instruction set: a run of the machine is a run of the guest, which
executes the interpreter's handlers, and that is a run of a hart of RV32I whose environment answers
its calls.
-/
import Rv32jit.Guest.Isa
import Rv32jit.Runtime.Refines

namespace Rv32jit.Runtime

open Qir Insn CPUState Translate Interp Machine
open Rv32i (State Trap)

/-! ### The guest and the instruction set -/

/-- The guest is in the state of the hart, and has stopped where the hart has. -/
structure Guest.Shows (g : Guest) (x : Rv32i.Hart) : Prop where
  state : Insn.Shows g.hart x.state
  running : x.stopped = none → g.trapped = false
  stopped : ∀ t, x.stopped = some t → g.trapped = true ∧
    trapno g.hart.cpu = (trapCode t).toBits ∧ ip g.hart.cpu = x.state.pc

/-- The instruction is in the decoder's reach, and its accesses stay in the address space. -/
structure Standard (f : Guest.Insn) : Prop where
  funct7 : ¬ LooseFunct7 f.2.1
  fits : ∀ a ∈ f.2.2, Fits a

/-- The address and the word of an instruction. -/
def spelling (f : Guest.Insn) : BitVec 32 × BitVec 32 := (f.1, f.2.1)

variable {g g' : Guest} {x : Rv32i.Hart} {l : List Guest.Insn} {h : Hart} {s s' : QState}
  {st : State} {m : Machine}
  {other : RuntimeStubId → BitVec 32 → ByteMem → ByteMem → HelperRes}
  {clobber : RuntimeStubId → (ℕ → BitVec 32) → ByteMem → ByteMem → ℕ → BitVec 32}

lemma trapCode_inj {t t' : Trap} (h : (trapCode t).toBits = (trapCode t').toBits) : t = t' := by
  cases t <;> cases t' <;> first | rfl | exact absurd h (by decide)

/-- The word that the guest executes is the one that the hart does. -/
lemma fetch_of_shows (hs : Insn.Shows h st) (hpc : st.pc.toNat % 4 = 0) :
    word h.mem h.gip = st.fetch := by
  rw [word, hs.pc, State.fetch, ← hs.load (n := 4) le_rfl (by omega), BitVec.ofNat_toNat,
    BitVec.setWidth_eq]

/-- After an instruction. -/
lemma shows_after {r : Res} {y : Except Trap State} (ha : Agree r st y) :
    Guest.Shows ⟨r.hart, r.trapped⟩ (.after st y) := by
  cases y with
  | ok s' =>
    obtain ⟨ht, hs⟩ := ha
    exact ⟨hs, fun _ => ht, fun t h => by cases h⟩
  | error t =>
    obtain ⟨ht, hs, hno, hip⟩ := ha
    refine ⟨hs, fun h => (by cases h), fun t' h => ?_⟩
    cases h
    exact ⟨ht, hno, hip⟩

/-- After a call. -/
lemma shows_call (hs : Insn.Shows h st) (hip : ip h.cpu = st.pc) (rc : BitVec 32) (mem : ByteMem) :
    Guest.Shows ⟨⟨syscallLinux (setIp h.cpu (ip h.cpu + 4)) rc, ip h.cpu + 4, mem⟩, false⟩
      ⟨{ (st.set 10 rc).next with mem := fun a => mem a.toNat }, none⟩ := by
  refine ⟨⟨?_, fun r => ?_, fun _ => rfl⟩, fun _ => rfl, fun t h => (by cases h)⟩
  · exact congrArg (· + 4) hip
  · have hx := hs.x r
    have h10 : ((r : ℕ) = 10) ↔ r = 10 ∧ r ≠ 0 := by
      rw [Fin.ext_iff, Ne, Fin.ext_iff]
      exact ⟨fun h => ⟨h, by rw [h]; decide⟩, fun h => h.1⟩
    simp only [syscallLinux, gpr_setGpr, State.next, State.set, h10]
    rw [gpr_setTrapno _ r.isLt, gpr_setIp _ r.isLt, hx]

/-- A step of the guest is one of the hart. -/
lemma Guest.Shows.step (hg : g.Shows x) (hpc : x.state.pc.toNat % 4 = 0) (hs : Guest.Step g l g')
    (hl : ∀ f ∈ l, Standard f) : ∃ x', Rv32i.Step Spells x (l.map spelling) x' ∧ g'.Shows x' := by
  obtain ⟨st, stopped⟩ := x
  cases hs with
  | insn h =>
    have hnone : stopped = none := by
      cases stopped with
      | none => rfl
      | some t => cases (hg.stopped t rfl).1
    subst hnone
    have hstd := hl _ (List.mem_singleton_self _)
    have hshows : Insn.Shows h st := hg.state
    have hpc : st.pc.toNat % 4 = 0 := hpc
    have h7 : ¬ LooseFunct7 (word h.mem h.gip) := hstd.funct7
    have hfit : ∀ a ∈ (Interp.step (word h.mem h.gip) h).acc, Fits a := hstd.fits
    rw [List.map_singleton, spelling]
    rw [fetch_of_shows hshows hpc] at h7 hfit ⊢
    rw [hshows.pc]
    by_cases hi : ∃ i, Spells i st.fetch
    · obtain ⟨i, hi⟩ := hi
      exact ⟨_, .insn hi, shows_after (agree_step hi hshows hpc hfit)⟩
    · have hno : ∀ i, ¬ Spells i st.fetch := fun i h => hi ⟨i, h⟩
      exact ⟨_, .illegal hno, shows_after (agree_illegal hno h7 hshows)⟩
  | @ecall h htrap rc mem =>
    cases stopped with
    | none => cases hg.running rfl
    | some t =>
      obtain ⟨-, hno, hip⟩ := hg.stopped t rfl
      obtain rfl : t = .call := trapCode_inj (hno.symm.trans htrap)
      exact ⟨_, .call rc fun a => mem a.toNat, shows_call hg.state hip rc mem⟩

/-- A run of the guest is one of the hart, over the same words at the same addresses. -/
lemma Guest.Shows.run (hg : g.Shows x) (hpc : x.state.pc.toNat % 4 = 0) (hrun : Guest.Run g l g')
    (hl : ∀ f ∈ l, Standard f) : ∃ x', Rv32i.Run Spells x (l.map spelling) x' ∧ g'.Shows x' := by
  induction hrun with
  | nil => exact ⟨x, .nil, hg⟩
  | step hrun hstep ih =>
    obtain ⟨y, hy, hshows⟩ := ih fun f hf => hl f (List.mem_append_left _ hf)
    obtain ⟨z, hz, hshows'⟩ := hshows.step (hy.aligned hpc) hstep fun f hf =>
      hl f (List.mem_append_right _ hf)
    refine ⟨z, ?_, hshows'⟩
    rw [List.map_append]
    exact hy.step hz

/-! ### The machine -/

/-- What the machine holds of the hart: the registers, the memory, the exception, and the
instruction address where the machine is not inside translated code. -/
structure Machine.Shows (m : Machine) (x : Rv32i.Hart) : Prop where
  gpr : ∀ r : Rv32i.Reg, CPUState.gpr m.s.cpu r = x.state.x r
  mem : ∀ a : BitVec 32, m.s.mem a.toNat = x.state.mem a
  running : trapno m.s.cpu = TrapCode.NONE.toBits → x.stopped = none ∧
    ∀ branch_slot, m.ctl = .loop branch_slot → ip m.s.cpu = x.state.pc
  stopped : trapno m.s.cpu ≠ TrapCode.NONE.toBits → ip m.s.cpu = x.state.pc ∧
    ∃ t, x.stopped = some t ∧ trapno m.s.cpu = (trapCode t).toBits

lemma machine_shows {ip₀ : BitVec 32} {H : List Fetch} (hok : Ok ip₀ H m)
    (hm : Matches ip₀ H m g) (hg : g.Shows x) : m.Shows x := by
  by_cases hnone : trapno m.s.cpu = TrapCode.NONE.toBits
  · obtain ⟨htr, hr, hgip⟩ := hm.running hnone
    refine ⟨fun r => ?_, fun a => ?_, fun _ => ⟨?_, fun branch_slot hctl => ?_⟩,
      fun hne => absurd hnone hne⟩
    · rw [← hg.state.x r]
      exact hr.gpr r.isLt
    · rw [hr.mem]
      exact hg.state.mem a
    · cases hx : x.stopped with
      | none => rfl
      | some t =>
        have := (hg.stopped t hx).1
        rw [htr] at this
        cases this
    · obtain ⟨j, code, s', ctl⟩ := m
      obtain rfl : ctl = .loop branch_slot := hctl
      rw [hok.ip_eq hnone, ← hgip, hg.state.pc]
  · obtain ⟨htr, hcpu, hmem⟩ := hm.trapped hnone
    obtain ⟨t, ht⟩ : ∃ t, x.stopped = some t := by
      cases hx : x.stopped with
      | none =>
        rw [hg.running hx] at htr
        cases htr
      | some t => exact ⟨t, rfl⟩
    obtain ⟨-, hno, hip⟩ := hg.stopped t ht
    rw [← hcpu] at hno hip
    refine ⟨fun r => ?_, fun a => ?_, fun h => absurd h hnone, fun _ => ⟨hip, t, ht, hno⟩⟩
    · rw [hcpu]
      exact hg.state.x r
    · rw [hmem]
      exact hg.state.mem a

/-- Every run of the machine is a run of a hart of the instruction set, over the same words at the
same addresses, whose environment answers its calls: whatever has been compiled, cached, linked and
flushed in between, the machine holds the registers, the memory and the exceptions that the
instruction set gives.  The hart starts at an address that is a multiple of four; no instruction of
the run is stale, and each of them is one that both engines execute alike, that the decoder looks at
in whole, and that does not access memory past the end of the address space. -/
theorem run_implements (tb_base code_base : ℕ) (h0 : gpr s.cpu 0 = 0)
    (htrap : trapno s.cpu = TrapCode.NONE.toBits)
    (hst : Insn.Shows ⟨s.cpu, ip s.cpu, s.mem⟩ st) (hpc : st.pc.toNat % 4 = 0)
    {H : List Executed}
    (hrun : Machine.Run (helperEnv other clobber) (start tb_base code_base s) H m)
    (hfs : ∀ e ∈ H, Faithful e.toFetch ∧ Standard (insnOf e.toFetch)) :
    ∃ x, Rv32i.Run Spells ⟨st, none⟩ (H.map fun e => (e.ip, e.raw)) x ∧ m.Shows x := by
  have hok := ok_start tb_base code_base h0 htrap
  have hg : Matches (ip s.cpu) [] (start tb_base code_base s) ⟨⟨s.cpu, ip s.cpu, s.mem⟩, false⟩ :=
    ⟨fun _ => ⟨rfl, ⟨.refl _, rfl, h0⟩, rfl⟩, fun hne => absurd htrap hne⟩
  obtain ⟨g, hguest, hmatch⟩ := hg.run hok hrun fun e he => (hfs e he).1
  have hx : Guest.Shows ⟨⟨s.cpu, ip s.cpu, s.mem⟩, false⟩ ⟨st, none⟩ :=
    ⟨hst, fun _ => rfl, fun t h => by cases h⟩
  obtain ⟨x, hisa, hshows⟩ := hx.run hpc hguest fun f hf => by
    obtain ⟨e, he, rfl⟩ := List.mem_map.mp hf
    exact (hfs e he).2
  refine ⟨x, ?_, machine_shows (hok.run hrun) hmatch hshows⟩
  rw [List.map_map] at hisa
  exact hisa

/-! ### A run -/

/-- The state that the program that stores an `ecall` starts in. -/
def storeHart : State where
  pc := 4
  x r := gpr (storeState 0x73).cpu r
  x0 := by decide +kernel
  mem a := storeMem a.toNat

/-- That program with the `ecall` that is already there, up to its trap. -/
theorem run_implements_storeRegion :
    ∃ H m, Machine.Run noHelper (start 0 0 (storeState 0x73)) H m ∧ H.length = 3 ∧
      ∃ x, Rv32i.Run Spells ⟨storeHart, none⟩ (H.map fun e => (e.ip, e.raw)) x ∧ m.Shows x := by
  obtain ⟨H, m, hrun, hlen, hfs⟩ := storeRegion_faithful
  have hpc : ip (storeState 0x73).cpu = 4 := by decide +kernel
  refine ⟨H, m, hrun, hlen, run_implements 0 0 (by decide +kernel) (by decide +kernel)
    ⟨hpc, fun _ => rfl, fun _ => rfl⟩ (by decide) hrun fun e he => ?_⟩
  obtain ⟨hfaithful, hraw⟩ := hfs e he
  refine ⟨hfaithful, ?_, ?_⟩
  · change ¬ LooseFunct7 e.raw
    rcases hraw with ⟨hraw, -⟩ | hraw | hraw <;> rw [hraw] <;> exact fun hl => hl.1 (by decide)
  · intro a ha
    rw [insnOf] at ha
    rcases hraw with ⟨hraw, hcpu⟩ | hraw | hraw <;> rw [hraw, acc_step] at ha
    · rw [hcpu] at ha
      obtain rfl := List.mem_singleton.mp ha
      have haddr : gpr (setIp (storeState 0x73).cpu e.ip) (rs1 0x00502623#32) +
          immS 0x00502623#32 = 12 := by
        rw [gpr_setIp _ (rs1_lt _)]
        decide +kernel
      change (gpr (setIp (storeState 0x73).cpu e.ip) (rs1 0x00502623#32) +
        immS 0x00502623#32).toNat + 4 ≤ 2 ^ 32
      rw [haddr]
      decide
    · cases ha
    · cases ha

end Rv32jit.Runtime
