/-
# Exhausted pools

Runs of the execution loop and of the stubs, as far as the cache and its pools see them: the loop
finds or compiles a block and enters it, the code links slots and branches indirectly, and comes
back to the loop.  The requests for memory are arbitrary.
-/
import Rv32jit.Runtime.Jit

namespace Rv32jit.Runtime

open TCache

/-- What happens next.  `code` is the code of the region, should it have to be compiled. -/
inductive JitEvent
  | execute (ip : BitVec 32) (code : CodeLayout)
  | link (slot : ℕ)
  | brind (gip : BitVec 32)
  | escape (slot : Option ℕ)

/-- Control is at the head of the loop of `Execute`, which holds a slot or none, or it is in
translated code. -/
inductive JitControl
  | loop (branch_slot : Option ℕ)
  | code

/-- The JIT and where control is. -/
structure JitRun where
  jit : Jit
  ctl : JitControl

namespace JitRun

/-- The slot is not linked yet. -/
def isLazy (j : Jit) (slot : ℕ) : Bool :=
  match j.slots slot with
  | some sl => sl.code = .lazyLink
  | none => false

/-- `state->ip` at the head of the loop, which is the address of the slot if there is one. -/
def target (j : Jit) (branch_slot : Option ℕ) (ip : BitVec 32) : BitVec 32 :=
  match branch_slot.bind j.slots with
  | some sl => sl.gip
  | none => ip

/-- One event; those that cannot happen where control is change nothing, and nothing is left of
the run where the simulator fails. -/
def step (r : JitRun) (ev : JitEvent) : Option JitRun :=
  match r.ctl, ev with
  | .loop branch_slot, .execute ip code => do
      let (tb, j) ← r.jit.findOrCompile (target r.jit branch_slot ip) code
      some ⟨j.linkOrCache branch_slot tb, .code⟩
  | .code, .link slot =>
      match r.jit.slots slot with
      | some ⟨.lazyLink, gip⟩ => some { r with jit := (r.jit.tryLinkBranch slot gip).2 }
      | _ => some r
  | .code, .brind gip => some { r with jit := (r.jit.brind gip).2 }
  | .code, .escape slot => some { r with ctl := .loop (slot.filter (isLazy r.jit)) }
  | _, _ => some r

/-- The events one after another. -/
def run (r : JitRun) (evs : List JitEvent) : Option JitRun := evs.foldlM step r

/-- The start of `Execute`. -/
def start (tb_base code_base : ℕ) : JitRun := ⟨.init tb_base code_base, .loop none⟩

/-- Everything that can be reached lies in memory that is allocated, and no two blocks share
code. -/
structure Intact (r : JitRun) : Prop where
  map : ∀ k tb, r.jit.cache.tcache_map.find k = some tb →
    Jit.InPools r.jit.tb_pool r.jit.code_pool tb
  l1 : ∀ i tb, r.jit.cache.l1_cache i = some tb → Jit.InPools r.jit.tb_pool r.jit.code_pool tb
  brind : ∀ i ptr, (r.jit.cache.l1_brind_cache i).code = some ptr →
    ∃ tb, ptr = tb.tcode.ptr ∧ Jit.InPools r.jit.tb_pool r.jit.code_pool tb
  links : ∀ k slot, (k, slot) ∈ r.jit.cache.link_map.entries →
    r.jit.code_pool.Allocated slot sizeofBranchSlot
  held : ∀ slot, r.ctl = .loop (some slot) → r.jit.code_pool.Allocated slot sizeofBranchSlot
  apart : ∀ k k' tb tb', r.jit.cache.tcache_map.find k = some tb →
    r.jit.cache.tcache_map.find k' = some tb' → tb ≠ tb' → Jit.Apart tb tb'

/-- If the event compiles a region, the pools have room for it. -/
def StepRoom (r : JitRun) (ev : JitEvent) : Prop :=
  match r.ctl, ev with
  | .loop branch_slot, .execute ip code =>
      r.jit.cache.lookupFull (target r.jit branch_slot ip) = none → r.jit.HasRoom code
  | _, _ => True

/-- Whenever a region is compiled, the pools have room for it. -/
def Room (r : JitRun) : List JitEvent → Prop
  | [] => True
  | ev :: evs => StepRoom r ev ∧ ∀ r', step r ev = some r' → Room r' evs

/-- The run does not fail, and nothing that can be reached is lost. -/
def Survives (tb_base code_base : ℕ) (evs : List JitEvent) : Prop :=
  ∃ r, run (start tb_base code_base) evs = some r ∧ Intact r

/-- Every request would fit in empty pools. -/
def EachFits (evs : List JitEvent) : Prop :=
  ∀ ip code, .execute ip code ∈ evs → code.alloc_sz ≤ CODE_POOL_SIZE

/-! ### The invariant -/

/-- The cache is sound, and the slot that the loop holds is lazy. -/
structure Ok (r : JitRun) : Prop where
  sound : r.jit.Sound
  held : ∀ slot, r.ctl = .loop (some slot) → ∃ gip, r.jit.slots slot = some ⟨.lazyLink, gip⟩

variable {r r' : JitRun} {ev : JitEvent} {evs : List JitEvent}

lemma isLazy_iff {j : Jit} {slot : ℕ} :
    isLazy j slot = true ↔ ∃ gip, j.slots slot = some ⟨.lazyLink, gip⟩ := by
  rw [isLazy]
  cases hs : j.slots slot with
  | none => simp
  | some sl =>
    obtain ⟨code, gip⟩ := sl
    simp

lemma ok_start (tb_base code_base : ℕ) : Ok (start tb_base code_base) :=
  ⟨Jit.sound_init tb_base code_base, fun _ h => by cases h⟩

lemma Ok.intact (h : Ok r) : Intact r := by
  have hlive : ∀ k tb, r.jit.cache.tcache_map.find k = some tb → r.jit.cache.Live tb := by
    intro k tb hk
    rw [live_iff, ← h.sound.wf.keyed k tb hk]
    exact hk
  refine ⟨fun k tb hk => h.sound.blocks tb (hlive k tb hk), fun i tb hi => ?_, fun i ptr hi => ?_,
    fun k slot hk => ?_, fun slot hs => ?_, fun k k' tb tb' hk hk' => ?_⟩
  · exact h.sound.blocks tb (h.sound.wf.l1 i tb hi).1
  · rcases h.sound.wf.brind i with he | ⟨tb, hl, -, he⟩
    · rw [he] at hi
      cases hi
    · rw [he] at hi
      exact ⟨tb, (Option.some.inj hi).symm, h.sound.blocks tb hl⟩
  · obtain ⟨tb, -, -, hs⟩ := h.sound.wf.links k slot hk
    exact h.sound.slots slot _ hs
  · obtain ⟨gip, hgip⟩ := h.held slot hs
    exact h.sound.slots slot _ hgip
  · exact h.sound.apart tb tb' (hlive k tb hk) (hlive k' tb' hk')

/-- What one event preserves. -/
lemma Ok.step (h : Ok r) (hfit : ∀ ip code, ev = .execute ip code → code.alloc_sz ≤ CODE_POOL_SIZE)
    (hs : step r ev = some r') : Ok r' := by
  obtain ⟨j, ctl⟩ := r
  cases ctl with
  | loop branch_slot =>
    cases ev with
    | execute ip code =>
      obtain ⟨⟨tb, j'⟩, hj, hs⟩ := Option.bind_eq_some_iff.mp hs
      cases hs
      obtain ⟨hsound, hip, hlive, hkeep⟩ := h.sound.findOrCompile (hfit ip code rfl) hj
      refine ⟨hsound.linkOrCache hlive fun slot hslot => ?_, fun _ hc => by cases hc⟩
      subst hslot
      obtain ⟨gip, hgip⟩ := h.held slot rfl
      have htgt : target j (some slot) ip = gip := by
        simp only [target, Option.bind_some]
        rw [hgip]
      rw [hip, htgt]
      exact hkeep slot _ hgip
    | link | brind | escape =>
      cases hs
      exact h
  | code =>
    cases ev with
    | execute =>
      cases hs
      exact h
    | link slot =>
      simp only [JitRun.step] at hs
      split at hs
      · rename_i gip hgip
        cases hs
        exact ⟨h.sound.tryLinkBranch hgip, fun _ hc => by cases hc⟩
      · cases hs
        exact h
    | brind gip =>
      cases hs
      exact ⟨h.sound.brind gip, fun _ hc => by cases hc⟩
    | escape slot =>
      cases hs
      refine ⟨h.sound, fun slot' hc => ?_⟩
      have hc' : slot.filter (isLazy j) = some slot' := by
        injection hc
      exact isLazy_iff.mp (Option.filter_eq_some_iff.mp hc').2

/-- An event fails if and only if it compiles a region that the pools have no room for. -/
lemma Ok.step_isSome (h : Ok r)
    (hfit : ∀ ip code, ev = .execute ip code → code.alloc_sz ≤ CODE_POOL_SIZE) :
    (∃ r', JitRun.step r ev = some r') ↔ StepRoom r ev := by
  obtain ⟨j, ctl⟩ := r
  cases ctl with
  | loop branch_slot =>
    cases ev with
    | execute ip code =>
      simp only [StepRoom, JitRun.step, Jit.findOrCompile]
      generalize target j branch_slot ip = gip
      rw [← h.sound.wf.lookup_fst]
      cases hf : (j.cache.lookup gip).1 with
      | some tb =>
        rw [show j.cache.lookup gip = (some tb, (j.cache.lookup gip).2) from Prod.ext hf rfl]
        simp
      | none =>
        rw [show j.cache.lookup gip = (none, (j.cache.lookup gip).2) from Prod.ext hf rfl]
        have hroom := Jit.compilerDoJob_isSome gip (h.sound.lookup gip).pools (hfit ip code rfl)
        simp only [forall_const]
        rw [show Jit.HasRoom j code ↔ _ from hroom.symm]
        constructor
        · rintro ⟨r', hr⟩
          obtain ⟨x, hx, -⟩ := Option.bind_eq_some_iff.mp hr
          exact ⟨x, hx⟩
        · rintro ⟨x, hx⟩
          simp only [hx, Option.bind_eq_bind, Option.bind_some]
          exact ⟨_, rfl⟩
    | link | brind | escape => exact ⟨fun _ => trivial, fun _ => ⟨_, rfl⟩⟩
  | code =>
    refine ⟨fun _ => by cases ev <;> trivial, fun _ => ?_⟩
    cases ev with
    | execute | brind | escape => exact ⟨_, rfl⟩
    | link slot =>
      simp only [JitRun.step]
      split <;> exact ⟨_, rfl⟩

/-- What a run preserves. -/
lemma Ok.run (h : Ok r) (hfit : EachFits evs) (hr : JitRun.run r evs = some r') : Ok r' := by
  induction evs generalizing r with
  | nil =>
    cases hr
    exact h
  | cons ev evs ih =>
    obtain ⟨r1, h1, h2⟩ := Option.bind_eq_some_iff.mp ((List.foldlM_cons ..).symm.trans hr)
    refine ih (h.step ?_ h1) (fun ip code hm => hfit ip code (List.mem_cons_of_mem _ hm)) h2
    rintro ip code rfl
    exact hfit ip code List.mem_cons_self

/-- A run from a sound state completes if and only if the pools have room whenever a region is
compiled. -/
lemma Ok.run_isSome (h : Ok r) (hfit : EachFits evs) :
    (∃ r', JitRun.run r evs = some r') ↔ Room r evs := by
  induction evs generalizing r with
  | nil => exact ⟨fun _ => trivial, fun _ => ⟨r, rfl⟩⟩
  | cons ev evs ih =>
    have hfit' : ∀ ip code, ev = .execute ip code → code.alloc_sz ≤ CODE_POOL_SIZE := by
      rintro ip code rfl
      exact hfit ip code List.mem_cons_self
    have hrest : EachFits evs := fun ip code hm => hfit ip code (List.mem_cons_of_mem _ hm)
    rw [Room, ← h.step_isSome hfit']
    constructor
    · rintro ⟨r', hr⟩
      obtain ⟨r1, h1, h2⟩ := Option.bind_eq_some_iff.mp ((List.foldlM_cons ..).symm.trans hr)
      refine ⟨⟨r1, h1⟩, fun r2 hr2 => ?_⟩
      rw [h1, Option.some.injEq] at hr2
      subst hr2
      exact (ih (h.step hfit' h1) hrest).mp ⟨r', h2⟩
    · rintro ⟨⟨r1, h1⟩, h2⟩
      obtain ⟨r', hr⟩ := (ih (h.step hfit' h1) hrest).mpr (h2 r1 h1)
      refine ⟨r', ?_⟩
      rw [JitRun.run, List.foldlM_cons, h1]
      exact hr

/-- If every request would fit in empty pools, a run survives if and only if the pools have room
whenever a region is compiled. -/
theorem survives_iff (tb_base code_base : ℕ) (evs : List JitEvent) (hfit : EachFits evs) :
    Survives tb_base code_base evs ↔ Room (start tb_base code_base) evs := by
  rw [← (ok_start tb_base code_base).run_isSome hfit]
  constructor
  · rintro ⟨r, hr, -⟩
    exact ⟨r, hr⟩
  · rintro ⟨r, hr⟩
    exact ⟨r, hr, ((ok_start tb_base code_base).run hfit hr).intact⟩

/-- A region of the size of a megabyte multiple, without slots. -/
def bigRegion (mb : ℕ) : CodeLayout := ⟨mb * 1024 * 1024, mb * 1024 * 1024, [], le_rfl, by simp⟩

theorem survives_iff_bigRegion :
    Survives 0 0 [.execute 0x1000 (bigRegion 100), .escape none] ↔
      Room (start 0 0) [.execute 0x1000 (bigRegion 100), .escape none] := by
  refine survives_iff 0 0 _ fun ip code h => ?_
  simp only [List.mem_cons, JitEvent.execute.injEq, reduceCtorEq, List.not_mem_nil, or_false] at h
  obtain ⟨rfl, rfl⟩ := h
  decide

/-- Two regions of 100 MB each fit in empty pools, and the second is lost after the first. -/
theorem not_survives_bigRegion :
    ∃ evs, EachFits evs ∧ ¬ Survives 0 0 evs := by
  refine ⟨[.execute 0x1000 (bigRegion 100), .escape none, .execute 0x2000 (bigRegion 100)],
    fun ip code h => ?_, ?_⟩
  · simp only [List.mem_cons, JitEvent.execute.injEq, reduceCtorEq, List.not_mem_nil, or_false,
      false_or] at h
    rcases h with ⟨rfl, rfl⟩ | ⟨rfl, rfl⟩ <;> decide
  · rintro ⟨r, hr, -⟩
    cases hr

end JitRun

end Rv32jit.Runtime
