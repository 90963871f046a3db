/-
# Stale translations

A store changes the memory but no translation, and `fence.i` does nothing about it: its handler is
empty, and no code calls `InvalidatePage`.  As long as no translation is stale whenever `fence.i`
is executed, the instructions that are executed after it are those in the memory; one that is
stale goes on to be executed.
-/
import Rv32jit.Runtime.Resume

namespace Rv32jit.Runtime

open Qir Insn CPUState Translate Interp TCache Jit Machine

/-- The region has code for the instruction at `a`. -/
def RegionCode.Holds (rc : RegionCode) (a : BitVec 32) : Prop :=
  ∃ a₀ b k code succs, rc.t.find a₀ = some b ∧
    rc.t.region.blist[b]? = some { ilist := code, succs := succs } ∧
    Covers rc.prog rc.t k a₀ code succs ∧ ∃ i < k, a = a₀ + BitVec.ofNat 32 (4 * i)

/-- No region is stale: the memory holds the words that the code has been made from. -/
def Current (code : ℕ → Option RegionCode) (mem : ByteMem) : Prop :=
  ∀ ptr rc, code ptr = some rc → ∀ a, rc.Holds a → word mem a = rc.prog a

/-- If the word at an address has been the same ever since some `fence.i`, the instruction that is
executed at the address is that word. -/
def FetchesCurrent (H : List Executed) : Prop :=
  ∀ (i j : ℕ) (e₁ e₂ : Executed), i < j → H[i]? = some e₁ → H[j]? = some e₂ →
    decode e₁.raw = .fencei →
    (∀ (k : ℕ) (e : Executed), i < k → k ≤ j → H[k]? = some e →
      word e.mem e₂.ip = word e₁.mem e₂.ip) →
    e₂.raw = word e₂.mem e₂.ip

variable {prog : BitVec 32 → BitVec 32} {env : HelperEnv} {vi : VRegsInfo} {a a' ip₀ : BitVec 32}
  {s s' : QState} {ev : List Event} {fs : List Fetch} {f : Fetch} {t : Translator} {b k : ℕ}
  {code : List Inst} {succs : List ℕ} {rc : RegionCode} {out : Outcome} {m m' m₀ : Machine}
  {H : List Executed}
  {other : RuntimeStubId → BitVec 32 → ByteMem → ByteMem → HelperRes}
  {clobber : RuntimeStubId → (ℕ → BitVec 32) → ByteMem → ByteMem → ℕ → BitVec 32}

/-! ### The instructions of a block -/

lemma mem_blockExecutes (h : BlockExecutes rc.prog env rc.t b a s fs) (hf : f ∈ fs) :
    rc.Holds f.ip ∧ f.raw = rc.prog f.ip := by
  rcases h with ⟨k, code, succs, hfind, hblk, hcov, hexec⟩ | ⟨-, -, rfl⟩
  · obtain ⟨i, hi, hip, hraw⟩ := hexec.mem f hf
    exact ⟨⟨a, b, k, code, succs, hfind, hblk, hcov, i, hi, hip⟩, hraw⟩
  · cases hf

/-- The first instruction finds the memory as it was at the start of the block. -/
lemma head_blockExecutes (h : BlockExecutes prog env t b a s (f :: fs)) : f.mem = s.mem := by
  rcases h with ⟨k, code, succs, -, -, -, hexec⟩ | ⟨-, -, hnil⟩
  · cases hexec <;> rfl
  · cases hnil

lemma Insns.eq_of_nil (h : Insns prog env vi a s ev [] a' s') : s' = s := by
  generalize hfs : ([] : List Fetch) = fs at h
  induction h with
  | refl => rfl
  | branch b _ ih => exact ih hfs
  | insn => cases hfs

/-- A block that executes nothing changes nothing, and does not trap. -/
lemma RegionCode.mem_of_nil (rc : RegionCode)
    (hfs : BlockExecutes rc.prog env rc.t b a s [])
    (hexec : execBlock env rc.r b s = (ev, out, s')) (hout : out ≠ .stuck) :
    s'.mem = s.mem ∧ out ≠ .trap := by
  have hc := rc.spec
  obtain ⟨ev₁, ev₂, fs', a', s₂, hins, -, hend⟩ := hfs.byInsns hc.globInfo
  obtain ⟨-, hout', hst⟩ := hc.same env b s s ⟨rfl, rfl⟩
  rw [hexec] at hout' hst
  generalize execBlock env rc.t.region b s = x at hend hout' hst
  obtain ⟨evs, out', s₁⟩ := x
  obtain rfl : out = out' := hout'
  have hmem : s'.mem = s₁.mem := (hst hout).mem
  cases out with
  | stuck => exact absurd rfl hout
  | trap =>
    have := congrArg List.length hend.1
    simp at this
  | «at» | gbr | gbrind =>
    obtain ⟨-, rfl, -, rfl⟩ := hend
    exact ⟨hmem.trans (congrArg QState.mem (Insns.eq_of_nil hins)), Outcome.noConfusion⟩

/-! ### The invariant -/

/-- Since the instruction `e`, the region has been there, or it has been made from the memory that a
later instruction has found. -/
def Since (H : List Executed) (i j : ℕ) (e : Executed) (rc : RegionCode) : Prop :=
  (∃ ptr, e.code ptr = some rc) ∨
    ∃ k e', i < k ∧ k ≤ j ∧ H[k]? = some e' ∧ rc.prog = word e'.mem

/-- The region has been made from the memory as it is, and nothing has been executed since. -/
def Unused (m : Machine) (rc : RegionCode) : Prop :=
  rc.prog = word m.s.mem ∧
    ∀ branch_slot, m.ctl = .loop branch_slot → trapno m.s.cpu = TrapCode.NONE.toBits

/-- Where the words of the regions come from. -/
structure Traced (H : List Executed) (m : Machine) : Prop where
  executed : ∀ e ∈ H, ∃ ptr rc, e.code ptr = some rc ∧ rc.Holds e.ip ∧ e.raw = rc.prog e.ip
  since : ∀ i j e₁ e₂, i < j → H[i]? = some e₁ → H[j]? = some e₂ →
    ∀ ptr rc, e₂.code ptr = some rc → Since H i j e₁ rc
  now : ∀ i e, H[i]? = some e → ∀ ptr rc, m.code ptr = some rc →
    Since H i H.length e rc ∨ Unused m rc

/-- A step that executes nothing. -/
lemma Traced.quiet (h : Traced H m) (hnow : ∀ ptr rc, m'.code ptr = some rc →
    Unused m' rc ∨ m.code ptr = some rc ∧ (Unused m rc → Unused m' rc)) : Traced H m' := by
  refine ⟨h.executed, h.since, fun i e hi ptr rc hrc => ?_⟩
  rcases hnow ptr rc hrc with hu | ⟨hrc', hu⟩
  · exact Or.inr hu
  · exact (h.now i e hi ptr rc hrc').imp_right hu

lemma Since.append {i j j' : ℕ} {e : Executed} (h : Since H i j e rc) (H' : List Executed)
    (hj : j ≤ j') : Since (H ++ H') i j' e rc := by
  refine h.imp_right ?_
  rintro ⟨k, e', hik, hkj, hk, hp⟩
  have hlt := (List.getElem?_eq_some_iff.mp hk).1
  exact ⟨k, e', hik, hkj.trans hj, by rw [List.getElem?_append_left hlt, hk], hp⟩

/-- A block. -/
lemma Traced.block (h : Traced H m) {ptr : ℕ} {ctl : Ctl}
    (hcode : m.code ptr = some rc) (hfs : BlockExecutes rc.prog env rc.t b a m.s fs)
    (hexec : execBlock env rc.r b m.s = (ev, out, s')) (hnext : next ptr rc b out = some ctl) :
    Traced (H ++ fs.map (⟨·, m.code⟩)) ⟨m.jit, m.code, s', ctl⟩ := by
  have hout : out ≠ .stuck := by
    rintro rfl
    cases hnext
  -- a region that has not been used yet is used by the first instruction of the block
  have hold : ∀ i e, H[i]? = some e → ∀ ptr rc, m.code ptr = some rc → ∀ j, H.length ≤ j →
      fs ≠ [] → Since (H ++ fs.map (⟨·, m.code⟩)) i j e rc := by
    intro i e hi ptr' rc' hrc j hj hne
    rcases h.now i e hi ptr' rc' hrc with hs | ⟨hp, -⟩
    · exact hs.append _ hj
    · obtain ⟨f, fs', rfl⟩ := List.exists_cons_of_ne_nil hne
      refine Or.inr ⟨H.length, ⟨f, m.code⟩, (List.getElem?_eq_some_iff.mp hi).1, hj, by simp, ?_⟩
      rw [hp, head_blockExecutes hfs]
  -- an instruction of the block
  have hnew : ∀ j e, H.length ≤ j → (H ++ fs.map (⟨·, m.code⟩))[j]? = some e →
      e.code = m.code ∧ fs ≠ [] := by
    intro j e hj he
    rw [List.getElem?_append_right hj, List.getElem?_map] at he
    obtain ⟨f, hf, rfl⟩ := Option.map_eq_some_iff.mp he
    exact ⟨rfl, List.ne_nil_of_mem (List.mem_of_getElem? hf)⟩
  refine ⟨fun e he => ?_, fun i j e₁ e₂ hij hi hj ptr' rc' hrc => ?_, fun i e hi ptr' rc' hrc => ?_⟩
  · rcases List.mem_append.mp he with he | he
    · exact h.executed e he
    · obtain ⟨f, hf, rfl⟩ := List.mem_map.mp he
      exact ⟨ptr, rc, hcode, mem_blockExecutes hfs hf⟩
  · by_cases hlt : j < H.length
    · rw [List.getElem?_append_left hlt] at hj
      rw [List.getElem?_append_left (hij.trans hlt)] at hi
      exact (h.since i j e₁ e₂ hij hi hj ptr' rc' hrc).append _ le_rfl
    · obtain ⟨hcode₂, hne⟩ := hnew j e₂ (by omega) hj
      rw [hcode₂] at hrc
      by_cases hlt' : i < H.length
      · rw [List.getElem?_append_left hlt'] at hi
        exact hold i e₁ hi ptr' rc' hrc j (by omega) hne
      · exact Or.inl ⟨ptr', by rw [(hnew i e₁ (by omega) hi).1]; exact hrc⟩
  · by_cases hlt : i < H.length
    · rw [List.getElem?_append_left hlt] at hi
      by_cases hne : fs = []
      · subst hne
        obtain ⟨hmem, htrap⟩ := rc.mem_of_nil hfs hexec hout
        simp only [List.map_nil, List.append_nil]
        refine (h.now i e hi ptr' rc' hrc).imp_right fun hu => ⟨?_, fun branch_slot hctl => ?_⟩
        · rw [hu.1, hmem]
        · obtain rfl : ctl = .loop branch_slot := hctl
          cases out with
          | trap => exact absurd rfl htrap
          | _ => cases hnext
      · exact Or.inl (hold i e hi ptr' rc' hrc _ (by simp) hne)
    · exact Or.inl (Or.inl ⟨ptr', by rw [(hnew i e (by omega) hi).1]; exact hrc⟩)

/-- What one step preserves. -/
lemma Traced.step (h : Traced H m) (hok : Ok ip₀ (H.map Executed.toFetch) m)
    (hs : Step (helperEnv other clobber) m fs m') : Traced (H ++ fs.map (⟨·, m.code⟩)) m' := by
  have hmem : ∀ {s s' : QState} {rc : RegionCode}, SameState s s' → rc.prog = word s.mem →
      rc.prog = word s'.mem := fun hs hp => by rw [hs.mem, hp]
  cases hs with
  | @lookup j code s s' branch_slot tb cache hrun hf hs =>
    rw [List.map_nil, List.append_nil]
    exact h.quiet fun ptr rc hrc => Or.inr ⟨hrc, fun hu => ⟨hmem hs hu.1, fun _ hc => by cases hc⟩⟩
  | @compile j j' code s s' branch_slot tb cache rc hrun hf hprog hrange hfit hj hs =>
    rw [List.map_nil, List.append_nil]
    refine h.quiet fun ptr rc' hrc => ?_
    by_cases hptr : ptr = tb.tcode.ptr
    · subst hptr
      simp only [Function.update_self, Option.some.injEq] at hrc
      subst hrc
      exact Or.inl ⟨hmem hs hprog, fun _ hc => by cases hc⟩
    · simp only [Function.update_of_ne hptr] at hrc
      exact Or.inr ⟨hrc, fun hu => ⟨hmem hs hu.1, fun _ hc => by cases hc⟩⟩
  | @block j code s s' ptr b rc a fs ev out ctl hcode hfs hexec hnext =>
    exact Traced.block h hcode hfs hexec hnext
  | linked hsl hs | link hsl hj hs | cached hj hs | brind hslow hj hs =>
    rw [List.map_nil, List.append_nil]
    exact h.quiet fun ptr rc hrc => Or.inr ⟨hrc, fun hu =>
      ⟨hu.1.trans (congrArg word hs.mem.symm), fun _ hc => by cases hc⟩⟩
  | escapeLink hsl hj hs | escapeBrind hslow hj hs =>
    have hrun := hok.here.1
    rw [List.map_nil, List.append_nil]
    refine h.quiet fun ptr rc hrc => Or.inr ⟨hrc, fun hu =>
      ⟨hu.1.trans (congrArg word hs.mem.symm), fun _ _ => ?_⟩⟩
    simp only
    rw [hs.cpu, (EqReserved.setIp _ _).trapno]
    exact hrun
  | @ecall j code s s' htrap rc mem hs =>
    rw [List.map_nil, List.append_nil]
    refine h.quiet fun ptr rc hrc => Or.inr ⟨hrc, fun hu => ?_⟩
    -- with a trap pending, every region has been used
    exact absurd (htrap.symm.trans (hu.2 none rfl)) (by decide)

/-- What a run preserves. -/
lemma traced_run (hok : Ok ip₀ [] m₀)
    (hrun : Run (helperEnv other clobber) m₀ H m) : Traced H m := by
  induction hrun with
  | nil =>
    refine ⟨by simp, fun _ _ _ _ _ hi => by simp at hi, fun _ _ hi => by simp at hi⟩
  | step hrun hstep ih => exact ih.step (hok.run hrun) hstep

/-- In a run in which no translation is stale whenever `fence.i` is executed, every instruction
whose word has not changed since some `fence.i` is the one in the memory. -/
theorem run_fetchesCurrent (tb_base code_base : ℕ) (h0 : gpr s.cpu 0 = 0)
    (htrap : trapno s.cpu = TrapCode.NONE.toBits)
    (hrun : Run (helperEnv other clobber) (start tb_base code_base s) H m)
    (hfence : ∀ e ∈ H, decode e.raw = .fencei → Current e.code e.mem) : FetchesCurrent H := by
  have h := traced_run (ok_start tb_base code_base h0 htrap) hrun
  intro i j e₁ e₂ hij hi hj hdec hsame
  obtain ⟨ptr, rc, hrc, hholds, hraw⟩ := h.executed e₂ (List.mem_of_getElem? hj)
  rw [hraw]
  rcases h.since i j e₁ e₂ hij hi hj ptr rc hrc with ⟨ptr', hrc'⟩ | ⟨k, e', hik, hkj, hk, hp⟩
  · -- the region was there at the fence, and it was not stale
    rw [hsame j e₂ hij le_rfl hj, hfence e₁ (List.mem_of_getElem? hi) hdec ptr' rc hrc' _ hholds]
  · -- it has been made from the memory after the fence
    rw [hp, hsame k e' hik hkj hk, hsame j e₂ hij le_rfl hj]

/-- The program stores a `nop` in the place of the `ecall` behind the `fence.i`, and executes the
`ecall`. -/
theorem not_fetchesCurrent_storeRegion : ∃ H m, gpr (storeState 0x13).cpu 0 = 0 ∧
    trapno (storeState 0x13).cpu = TrapCode.NONE.toBits ∧
    Run noHelper (start 0 0 (storeState 0x13)) H m ∧ ¬ FetchesCurrent H := by
  have htrap : (execBlock noHelper storeRegion.r 0 (storeState 0x13)).2.1 = .trap := by
    decide +kernel
  obtain ⟨code, s₁, s₂, m, -, hrun, -, h₁, h₂⟩ := storeRegion_run 0x13 htrap
  have hfence : decode (storeRegion.prog (4 + 4)) = .fencei := by decide +kernel
  refine ⟨_, m, by decide +kernel, by decide +kernel, hrun, fun hcur => ?_⟩
  have hstale := hcur 1 2 _ _ (by decide) rfl rfl hfence fun k e hk hk' he => by
    obtain rfl : k = 2 := by omega
    cases he
    simp only [fetch, h₁, h₂]
  simp only [fetch, h₂] at hstale
  exact absurd hstale (by decide +kernel)

/-- The program stores the `ecall` that is already there. -/
theorem run_fetchesCurrent_storeRegion : ∃ H m, Run noHelper (start 0 0 (storeState 0x73)) H m ∧
    H.length = 3 ∧ (∃ e ∈ H, decode e.raw = .fencei) ∧ FetchesCurrent H := by
  have htrap : (execBlock noHelper storeRegion.r 0 (storeState 0x73)).2.1 = .trap := by
    decide +kernel
  obtain ⟨code, s₁, s₂, m, hcode, hrun, -, h₁, h₂⟩ := storeRegion_run 0x73 htrap
  have hsame : storeMem.store 12 4 0x73#32 = storeMem := ByteMem.store_store _ _ _ _ _
  have hfence : decode (storeRegion.prog (4 + 4)) = .fencei := by decide +kernel
  refine ⟨_, m, hrun, rfl, ⟨_, List.mem_cons_of_mem _ List.mem_cons_self, hfence⟩,
    run_fetchesCurrent 0 0 (by decide +kernel) (by decide +kernel) hrun fun e he hdec => ?_⟩
  -- all words are as they were
  have hcur : ∀ mem, mem = storeMem → Current code mem := by
    rintro mem rfl ptr rc hrc a -
    rw [hcode ptr rc hrc]
    rfl
  simp only [List.mem_cons, List.not_mem_nil, or_false] at he
  rcases he with rfl | rfl | rfl
  · exact hcur _ rfl
  · exact hcur _ (h₁.trans hsame)
  · exact hcur _ (h₂.trans hsame)

end Rv32jit.Runtime
