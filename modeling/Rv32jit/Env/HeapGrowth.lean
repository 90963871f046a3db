/-
# The memory that the heap grows by

`linux_brk` in any state of the process: the bytes between the old break and the new one should be
mapped, and zero.  Between its calls the guest stores to its memory and makes system calls, in any
order.
-/
import Rv32jit.Env.Heap

namespace Rv32jit.Env

namespace Host

/-- The byte can be read, and is zero. -/
def ReadsZero (h : Host) (x : ℕ) : Prop := h.readable (x / PAGE_SIZE) = true ∧ h.mem x = 0

end Host

/-- A call of `linux_brk` has raised the break, and the memory below it is zero; or it has changed
nothing. -/
inductive GrowsZeroed (p : Process) (newbrk rc : BitVec 32) (p' : Process) : Prop
  | raised : p.brk < newbrk → rc = newbrk → p'.brk = newbrk →
      (∀ x, p.brk.toNat ≤ x → x < newbrk.toNat → p'.host.ReadsZero x) → GrowsZeroed p newbrk rc p'
  | unchanged : rc = p.brk → p'.brk = p.brk → (∀ x, p'.host.view x = p.host.view x) →
      GrowsZeroed p newbrk rc p'

/-- When the break is raised to the end of its page, the bytes in between are mapped and zero; when
it is raised further or less far, bytes that have to be cleared can be written. -/
def TailReady (p : Process) (newbrk : BitVec 32) : Prop :=
  p.brk < newbrk →
    (newbrk = p.brk_p → ∀ x, p.brk.toNat ≤ x → x < newbrk.toNat → p.host.ReadsZero x) ∧
    (newbrk ≠ p.brk_p → p.brk.toNat % PAGE_SIZE ≠ 0 → (p.brk_p < newbrk → p.Granted newbrk) →
      p.host.writable (p.brk.toNat / PAGE_SIZE) = true)

/-- What happens to the memory of the process: a system call with the registers of the guest, or a
store of a byte. -/
inductive ProcEvent
  | syscall (r : Reply) (cpu : ByteMem)
  | store (x : BitVec 32) (v : BitVec 8)

namespace ProcEvent

/-- The byte is stored; nothing for a memory fault. -/
def storeByte (p : Process) (x : BitVec 32) (v : BitVec 8) : Option Process :=
  if p.host.writable (x.toNat / PAGE_SIZE) then
    some (p.setHost { p.host with mem := fun y => if y = x.toNat then v else p.host.mem y })
  else none

variable (other : Process → ByteMem → Option Outcome)

/-- One event; nothing where it does not return. -/
def step (p : Process) : ProcEvent → Option Process
  | .syscall r cpu => (SyscallLinux other r p cpu).map fun o => o.1.proc
  | .store x v => storeByte p x v

/-- If the event is a call of `brk`, it returns, and has done what it should. -/
def BrkZeroed (p : Process) : ProcEvent → Prop
  | .syscall r cpu => CPUState.gpr cpu 17 = MemCall.brk.no →
      ∃ o cpu', SyscallLinux other r p cpu = some (o, cpu') ∧
        GrowsZeroed p (CPUState.gpr cpu 10) (CPUState.gpr cpu' 10) o.proc
  | .store _ _ => True

/-- If the event is a call of `brk`, the bytes up to the end of the page are as it needs them. -/
def BrkReady (p : Process) : ProcEvent → Prop
  | .syscall _ cpu => CPUState.gpr cpu 17 = MemCall.brk.no → TailReady p (CPUState.gpr cpu 10)
  | .store _ _ => True

/-- All calls of `brk` in a run do what they should. -/
def BrksZeroed : Process → List ProcEvent → Prop
  | _, [] => True
  | p, e :: events =>
      e.BrkZeroed other p ∧ ∀ p', e.step other p = some p' → BrksZeroed p' events

/-- The bytes up to the end of the page are as `brk` needs them whenever it is called. -/
def BrksReady : Process → List ProcEvent → Prop
  | _, [] => True
  | p, e :: events => e.BrkReady p ∧ ∀ p', e.step other p = some p' → BrksReady p' events

end ProcEvent

/-! ### One call -/

namespace Host

variable {h h' : Host} {p x n : ℕ}

lemma readable_of_writable (hw : h.writable p = true) : h.readable p = true := by
  rw [writable] at hw
  rw [readable]
  cases hpg : h.pages p with
  | none =>
    rw [hpg] at hw
    cases hw
  | some pg =>
    rw [hpg] at hw
    simp only [decide_eq_true_eq] at hw ⊢
    intro h0
    rw [h0] at hw
    exact hw (BitVec.zero_and)

end Host

variable {p p' : Process} {newbrk rc : BitVec 32}

/-- The break is returned. -/
lemma linux_brk_rc (h : linux_brk p newbrk = some (rc, p')) : p'.brk = rc := by
  rw [linux_brk] at h
  split at h
  · cases h
    rfl
  · simp only at h
    split at h
    · split at h
      · obtain ⟨h1, -, h2⟩ := Option.bind_eq_some_iff.mp h
        cases h2
        rfl
      · cases h
        rfl
    · obtain ⟨⟨mem, m⟩, -, h⟩ := Option.bind_eq_some_iff.mp h
      simp only at h
      split at h
      · cases mem <;> cases h <;> rfl
      · obtain ⟨h1, -, h2⟩ := Option.bind_eq_some_iff.mp h
        cases h2
        rfl

lemma GrowsZeroed.zero (hg : GrowsZeroed p newbrk newbrk p') (hlt : p.brk < newbrk) :
    ∀ x, p.brk.toNat ≤ x → x < newbrk.toNat → p'.host.ReadsZero x := by
  cases hg with
  | raised _ _ _ hz => exact hz
  | unchanged heq => exact absurd (heq ▸ hlt) (BitVec.lt_irrefl _)

/-- The end of a page that can be written is zero once it has been cleared. -/
lemma readsZero_clear {h : Host} {brk n x : ℕ} (hw : h.writable (brk / PAGE_SIZE) = true)
    (hpage : brk + n ≤ (brk / PAGE_SIZE + 1) * PAGE_SIZE) (h1 : brk ≤ x) (h2 : x < brk + n) :
    (h.clear brk n).ReadsZero x := by
  have hx : x / PAGE_SIZE = brk / PAGE_SIZE := by
    simp only [PAGE_SIZE] at *
    omega
  refine ⟨?_, if_pos ⟨h1, h2⟩⟩
  rw [hx]
  exact Host.readable_of_writable hw

lemma Host.ReadsZero.clear {h : Host} {x : ℕ} (hz : h.ReadsZero x) (addr n : ℕ) :
    (h.clear addr n).ReadsZero x := by
  refine ⟨hz.1, ?_⟩
  rw [Host.clear]
  simp only [hz.2, ite_self]

/-- The pages of a mapping of the heap are zero. -/
lemma readsZero_place {h : Host} {addr len x : ℕ} (haddr : addr % PAGE_SIZE = 0)
    (hlen : len % PAGE_SIZE = 0) (h1 : addr ≤ x) (h2 : x < addr + len) :
    (h.place addr len (PROT_READ ||| PROT_WRITE) fun _ => 0).ReadsZero x := by
  have hin : ¬ Host.Outside addr len x := by
    rw [Host.Outside]
    omega
  constructor
  · rw [Host.readable, Host.pages_place h hin haddr hlen]
    rfl
  · exact if_pos ⟨h1, h2⟩

/-- A break inside the page of the old one: the bytes up to it are cleared. -/
lemma growsZeroed_inside (hlt : p.brk < newbrk) (hltp : newbrk < p.brk_p) :
    (∃ rc p', (p.host.memset p.brk.toNat (newbrk - p.brk).toNat).map (fun h =>
        (newbrk, { p.setHost h with brk := newbrk })) = some (rc, p') ∧
      GrowsZeroed p newbrk rc p') ↔ TailReady p newbrk := by
  have hlt' := BitVec.lt_def.mp hlt
  have hltp' := BitVec.lt_def.mp hltp
  have hne : newbrk ≠ p.brk_p := by
    rintro rfl
    exact BitVec.lt_irrefl _ hltp
  have hngt : ¬ p.brk_p < newbrk := fun hgt => BitVec.lt_irrefl _ (BitVec.lt_trans hgt hltp)
  have hdvd : p.brk.toNat % PAGE_SIZE ≠ 0 := by
    intro h0
    rw [Process.brk_p, roundupPage_of_dvd h0] at hltp'
    omega
  have hn : (newbrk - p.brk).toNat = newbrk.toNat - p.brk.toNat :=
    BitVec.toNat_sub_of_le (BitVec.le_def.mpr hlt'.le)
  have hpage : p.brk.toNat + (newbrk - p.brk).toNat ≤
      (p.brk.toNat / PAGE_SIZE + 1) * PAGE_SIZE := by
    obtain ⟨hsub, hpage⟩ := HeapState.tail_of_lt (s := ⟨p, []⟩) hlt hltp
    exact hsub ▸ hpage
  rw [HeapState.memset_tail p.host p.brk fun _ => hpage, if_neg (by omega)]
  constructor
  · rintro ⟨rc, p', ho, hg⟩ _
    refine ⟨fun heq => absurd heq hne, fun _ _ _ => ?_⟩
    by_contra hw
    rw [if_neg hw] at ho
    cases ho
  · intro hready
    have hw := (hready hlt).2 hne hdvd fun hgt => absurd hgt hngt
    rw [if_pos hw]
    refine ⟨_, _, rfl, .raised hlt rfl rfl fun x h1 h2 => ?_⟩
    exact readsZero_clear hw hpage h1 (by omega)

/-- The pages behind that of the old break, as the host has mapped them for the new one. -/
structure Enlarged (p : Process) (newbrk : BitVec 32) (p1 : Process) : Prop where
  gt : p.brk_p < newbrk
  granted : p.Granted newbrk
  host : p1.host = p.host.place p.brk_p.toNat (roundupPage (newbrk - p.brk_p)).toNat
    (PROT_READ ||| PROT_WRITE) fun _ => 0

namespace Enlarged

variable {p1 : Process}

/-- The page that holds the break is not in the new mapping. -/
lemma writable (h : Enlarged p newbrk p1) (hlt : p.brk.toNat < p.brk_p.toNat) :
    p1.host.writable (p.brk.toNat / PAGE_SIZE) = p.host.writable (p.brk.toNat / PAGE_SIZE) := by
  rw [h.host]
  refine Host.writable_congr (Host.pages_place_outside p.host (Or.inl ?_) (roundupPage_dvd _)
    (roundupPage_dvd _))
  omega

/-- The new pages up to the new break are zero. -/
lemma readsZero (h : Enlarged p newbrk p1) {x : ℕ} (h1 : p.brk_p.toNat ≤ x)
    (h2 : x < newbrk.toNat) : p1.host.ReadsZero x := by
  have hgt := BitVec.lt_def.mp h.gt
  have hlen := toNat_roundupPage (newbrk - p.brk_p)
  have hnew : (newbrk - p.brk_p).toNat = newbrk.toNat - p.brk_p.toNat :=
    BitVec.toNat_sub_of_le (BitVec.le_def.mpr hgt.le)
  have hne := ne_zero_iff.mp h.granted.1
  rw [h.host]
  refine readsZero_place (roundupPage_dvd _) (roundupPage_dvd _) h1 ?_
  split at hlen <;> omega

/-- A break beyond the page of the old one: the rest of that page is cleared, and the pages behind
it are new. -/
lemma growsZeroed (h : Enlarged p newbrk p1) (hlt : p.brk < newbrk) :
    (∃ rc p', (p1.host.memset p.brk.toNat (p.brk_p - p.brk).toNat).map (fun h =>
        (newbrk, { p1.setHost h with brk := newbrk })) = some (rc, p') ∧
      GrowsZeroed p newbrk rc p') ↔ TailReady p newbrk := by
  have hne : newbrk ≠ p.brk_p := by
    rintro rfl
    exact BitVec.lt_irrefl _ h.gt
  obtain ⟨hbrk_p, -, hsub, htail⟩ := HeapState.tail_of_gt (s := ⟨p, []⟩) hlt h.gt h.granted
  simp only at hbrk_p hsub htail
  have hpage : p.brk.toNat + (p.brk_p - p.brk).toNat ≤
      (p.brk.toNat / PAGE_SIZE + 1) * PAGE_SIZE := hsub ▸ htail
  have hn : (p.brk_p - p.brk).toNat = p.brk_p.toNat - p.brk.toNat :=
    BitVec.toNat_sub_of_le (BitVec.le_def.mpr (by omega))
  rw [HeapState.memset_tail p1.host p.brk fun _ => hpage]
  constructor
  · rintro ⟨rc, p', ho, -⟩ _
    refine ⟨fun heq => absurd heq hne, fun _ h0 _ => ?_⟩
    simp only [PAGE_SIZE] at h0
    rw [← h.writable (by omega)]
    by_contra hw
    rw [if_neg (by omega), if_neg hw] at ho
    cases ho
  · intro hready
    by_cases h0 : (p.brk_p - p.brk).toNat = 0
    · rw [if_pos h0]
      refine ⟨_, _, rfl, .raised hlt rfl rfl fun x h1 h2 => ?_⟩
      exact h.readsZero (by omega) h2
    · have hdvd : p.brk.toNat % PAGE_SIZE ≠ 0 := by
        simp only [PAGE_SIZE]
        omega
      have hw : p1.host.writable (p.brk.toNat / PAGE_SIZE) = true := by
        rw [h.writable (by omega)]
        exact (hready hlt).2 hne hdvd fun _ => h.granted
      rw [if_neg h0, if_pos hw]
      refine ⟨_, _, rfl, .raised hlt rfl rfl fun x h1 h2 => ?_⟩
      rcases Nat.lt_or_ge x p.brk_p.toNat with hx | hx
      · exact readsZero_clear hw hpage h1 (by omega)
      · exact (h.readsZero hx h2).clear _ _

end Enlarged

variable (p newbrk) in
/-- A call of `linux_brk` does what it should if and only if the end of the page is as it needs
it. -/
lemma growsZeroed_iff :
    (∃ rc p', linux_brk p newbrk = some (rc, p') ∧ GrowsZeroed p newbrk rc p') ↔
      TailReady p newbrk := by
  have hdoes := linux_brk_does p newbrk
  have hbrk : ∀ rc p', linux_brk p newbrk = some (rc, p') → p'.brk = rc :=
    fun _ _ => linux_brk_rc
  generalize linux_brk p newbrk = o at hdoes hbrk
  cases hdoes with
  | keep hle =>
    refine iff_of_true ⟨_, _, rfl, .unchanged rfl rfl fun _ => rfl⟩ fun hlt => ?_
    exact absurd hlt (BitVec.not_lt.mpr hle)
  | full hlt heq =>
    constructor
    · rintro ⟨rc, p', ho, hg⟩ _
      cases ho
      exact ⟨fun _ => hg.zero hlt, fun hne => absurd heq hne⟩
    · intro hready
      exact ⟨_, _, rfl, .raised hlt rfl rfl ((hready hlt).1 heq)⟩
  | tail hlt hltp => exact growsZeroed_inside hlt hltp
  | refused hlt hltp hg p1 e hhost =>
    have hsame : ∀ x, p1.host.view x = p.host.view x := by
      intro x
      rw [hhost]
      rfl
    refine iff_of_true ⟨_, _, rfl, .unchanged rfl (hbrk _ _ rfl) hsame⟩ fun _ => ?_
    refine ⟨fun heq => ?_, fun _ _ hgrant => absurd (hgrant hltp) hg⟩
    exact absurd (heq ▸ hltp) (BitVec.lt_irrefl _)
  | grown hlt hltp hg p1 hhost => exact (Enlarged.mk hltp hg hhost).growsZeroed hlt

/-! ### Runs -/

/-- A call of `brk` with the registers of the guest. -/
lemma brkZeroed_iff (other : Process → ByteMem → Option Outcome) (p : Process) (e : ProcEvent) :
    e.BrkZeroed other p ↔ e.BrkReady p := by
  cases e with
  | store x v => exact Iff.rfl
  | syscall r cpu =>
    refine forall_congr' fun hno => ?_
    rw [← growsZeroed_iff, syscallLinux_eq (c := .brk) hno, MemCall.run]
    constructor
    · rintro ⟨o, cpu', hrun, hg⟩
      obtain ⟨o', ho, heq⟩ := Option.map_eq_some_iff.mp hrun
      obtain ⟨⟨rc, p'⟩, hbrk, hout⟩ := Option.map_eq_some_iff.mp ho
      subst hout
      cases heq
      rw [CPUState.gpr_setGpr_same] at hg
      exact ⟨rc, p', hbrk, hg⟩
    · rintro ⟨rc, p', hbrk, hg⟩
      rw [hbrk]
      refine ⟨_, _, rfl, ?_⟩
      rw [CPUState.gpr_setGpr_same]
      exact hg

/-- In a run of stores and system calls, from any state of the process, every call of `brk` that
raises the break gives zeroed memory, and every other one changes nothing, if and only if `brk` is
called only when the end of the page that holds the break is as it needs it. -/
theorem brksZeroed_iff (other : Process → ByteMem → Option Outcome) (p : Process)
    (events : List ProcEvent) :
    ProcEvent.BrksZeroed other p events ↔ ProcEvent.BrksReady other p events := by
  induction events generalizing p with
  | nil => exact Iff.rfl
  | cons e events ih =>
    exact and_congr (brkZeroed_iff other p e) (forall₂_congr fun p' _ => ih p')

/-! ### A request up to the end of the page -/

/-- `brk` is called with a break. -/
def brkCall (newbrk : BitVec 32) : ProcEvent :=
  .syscall ⟨none, 0, fun _ => 0⟩
    (CPUState.setGpr (CPUState.setGpr (fun _ => 0) 17 MemCall.brk.no) 10 newbrk)

/-- The guest has stored above the break, in the last page of an executable's segment, and raises
the break to the end of the page: the byte that it has stored is in the heap. -/
theorem not_brksZeroed_pageEnd : ∃ r,
    BootElf 3 (elfFile 0x10F00 0xF00 0x10 0x80 6)
        (grantingHost (elfFile 0x10F00 0xF00 0x10 0x80 6))
        ⟨⟨0, 0, 0, 0, 0, 0⟩, 0, 0, 0, 0⟩ = some r ∧
      ¬ ProcEvent.BrksZeroed (fun _ _ => none) r.1 [.store 0x10F90 1, brkCall 0x11000] := by
  have hrun : (BootElf 3 (elfFile 0x10F00 0xF00 0x10 0x80 6)
      (grantingHost (elfFile 0x10F00 0xF00 0x10 0x80 6))
      ⟨⟨0, 0, 0, 0, 0, 0⟩, 0, 0, 0, 0⟩).bind (fun r =>
        (ProcEvent.storeByte r.1 0x10F90 1).bind fun p => (linux_brk p 0x11000).map fun r' =>
          (p.brk, r'.1, r'.2.host.mem 0x10F90)) = some (0x10F80, 0x11000, 1) := by
    decide +kernel
  obtain ⟨r, hboot, hrun⟩ := Option.bind_eq_some_iff.mp hrun
  obtain ⟨p, hstore, hrun⟩ := Option.bind_eq_some_iff.mp hrun
  obtain ⟨⟨rc, p'⟩, hbrk, hres⟩ := Option.map_eq_some_iff.mp hrun
  simp only [Prod.mk.injEq] at hres
  obtain ⟨hold, rfl, hbyte⟩ := hres
  refine ⟨r, hboot, fun hz => ?_⟩
  have hz := ((hz.2 p hstore).1 : ProcEvent.BrkZeroed _ p (brkCall 0x11000))
  rw [brkZeroed_iff] at hz
  have hready : TailReady p 0x11000 := hz rfl
  rw [← growsZeroed_iff, hbrk] at hready
  obtain ⟨rc, q, heq, hg⟩ := hready
  cases heq
  have hlt : p.brk < 0x11000 := by
    rw [hold]
    decide
  have hzero := (hg.zero hlt 0x10F90 (by rw [hold]; decide) (by decide)).2
  rw [hbyte] at hzero
  exact absurd hzero (by decide)

end Rv32jit.Env
