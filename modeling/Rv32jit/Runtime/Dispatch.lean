/-
# Dispatch

The execution loop and the stubs as a transition system, with the instruction pointer in the CPU
state.  The loop finds or compiles the block at the instruction pointer, links the slot that it
holds or caches the block for indirect branches, and enters it; the code goes on through slots and
through the two ways of an indirect branch, and it comes back to the loop where no block is found
or where a trap is raised.  Whichever way a block is entered, its code is the one that a fresh
look-up of the address finds.
-/
import Rv32jit.Runtime.Exhaustion

namespace Rv32jit.Runtime

open TCache Jit

/-- The cache with its pools, `state->ip`, and where control is. -/
structure Dispatch where
  jit : Jit
  ip : BitVec 32
  ctl : JitControl

namespace Dispatch

/-- The start of `Execute`. -/
def start (tb_base code_base : ℕ) (ip : BitVec 32) : Dispatch :=
  ⟨.init tb_base code_base, ip, .loop none⟩

/-- One step, with the address and the code of the block that it enters, if it enters one.  No
step follows where a pool is exhausted or where an indirect branch takes the null pointer from an
empty entry. -/
inductive Step : Dispatch → Option (BitVec 32 × ℕ) → Dispatch → Prop
  /-- The body of the loop of `Execute`. -/
  | execute {j j' : Jit} {ip : BitVec 32} {branch_slot : Option ℕ} {code : CodeLayout} {tb : TBlock}
      (hfit : code.alloc_sz ≤ CODE_POOL_SIZE) (hj : j.findOrCompile ip code = some (tb, j')) :
      Step ⟨j, ip, .loop branch_slot⟩ (some (ip, tb.tcode.ptr))
        ⟨j'.linkOrCache branch_slot tb, ip, .code⟩
  /-- A slot that is linked. -/
  | linked {j : Jit} {ip gip : BitVec 32} {slot ptr : ℕ}
      (hs : j.slots slot = some ⟨.jump ptr, gip⟩) :
      Step ⟨j, ip, .code⟩ (some (gip, ptr)) ⟨j, ip, .code⟩
  /-- `TryLinkBranch` that finds the block. -/
  | link {j j' : Jit} {ip gip : BitVec 32} {slot ptr : ℕ}
      (hs : j.slots slot = some ⟨.lazyLink, gip⟩) (hj : j.tryLinkBranch slot gip = (some ptr, j')) :
      Step ⟨j, ip, .code⟩ (some (gip, ptr)) ⟨j', ip, .code⟩
  /-- `TryLinkBranch` that does not, and `qcgstub_escape_link`. -/
  | escapeLink {j j' : Jit} {ip gip : BitVec 32} {slot : ℕ}
      (hs : j.slots slot = some ⟨.lazyLink, gip⟩) (hj : j.tryLinkBranch slot gip = (none, j')) :
      Step ⟨j, ip, .code⟩ none ⟨j', gip, .loop (some slot)⟩
  /-- An indirect branch whose target is cached. -/
  | cached {j : Jit} {ip gip : BitVec 32} {ptr : ℕ} (hj : emitGBrind j.cache gip = .code (some ptr)) :
      Step ⟨j, ip, .code⟩ (some (gip, ptr)) ⟨j, ip, .code⟩
  /-- `qcgstub_brind` that finds the block. -/
  | brind {j j' : Jit} {ip gip : BitVec 32} {ptr : ℕ} (hslow : emitGBrind j.cache gip = .slowpath)
      (hj : j.brind gip = (some ptr, j')) :
      Step ⟨j, ip, .code⟩ (some (gip, ptr)) ⟨j', gip, .code⟩
  /-- `qcgstub_brind` that does not, and `qcgstub_escape_brind`. -/
  | escapeBrind {j j' : Jit} {ip gip : BitVec 32} (hslow : emitGBrind j.cache gip = .slowpath)
      (hj : j.brind gip = (none, j')) :
      Step ⟨j, ip, .code⟩ none ⟨j', gip, .loop none⟩
  /-- Code that stores the instruction pointer, and helpers that return. -/
  | code {j : Jit} {ip : BitVec 32} (ip' : BitVec 32) :
      Step ⟨j, ip, .code⟩ none ⟨j, ip', .code⟩
  /-- A trap, which unwinds to the start of `Execute`. -/
  | trap {j : Jit} {ip : BitVec 32} (ip' : BitVec 32) :
      Step ⟨j, ip, .code⟩ none ⟨j, ip', .loop none⟩
  /-- `env::Execute` between two calls of `Execute`. -/
  | env {j : Jit} {ip : BitVec 32} (ip' : BitVec 32) :
      Step ⟨j, ip, .loop none⟩ none ⟨j, ip', .loop none⟩

/-- The states that steps lead to, each with the blocks that have been entered on the way. -/
inductive Run (d₀ : Dispatch) : List (BitVec 32 × ℕ) → Dispatch → Prop
  | nil : Run d₀ [] d₀
  | step {es : List (BitVec 32 × ℕ)} {e : Option (BitVec 32 × ℕ)} {d d' : Dispatch}
      (hrun : Run d₀ es d) (hstep : Step d e d') : Run d₀ (es ++ e.toList) d'

/-- A slot calls the stub that links it, or it jumps to the one block of its address, which is the
one that a look-up returns, and is recorded for that address. -/
def SlotOk (j : Jit) (slot : ℕ) (sl : BranchSlot) : Prop :=
  sl.code = .lazyLink ∨
    ∃ tb, sl.code = .jump tb.tcode.ptr ∧ (j.cache.lookup sl.gip).1 = some tb ∧ tb.ip = sl.gip ∧
      (∀ k tb', j.cache.tcache_map.find k = some tb' → tb'.ip = sl.gip → tb' = tb) ∧
      (sl.gip.toNat, slot) ∈ j.cache.link_map.entries

/-! ### The invariant -/

/-- The cache is sound, and the slot that the loop holds is a lazy one for the instruction
pointer. -/
structure Ok (d : Dispatch) : Prop where
  sound : d.jit.Sound
  held : ∀ slot, d.ctl = .loop (some slot) → d.jit.slots slot = some ⟨.lazyLink, d.ip⟩

variable {d d' : Dispatch} {e : Option (BitVec 32 × ℕ)} {es : List (BitVec 32 × ℕ)}
  {j j' : Jit} {gip : BitVec 32} {ptr slot : ℕ} {tb : TBlock}

lemma codeAt_eq (h : j.Sound) (gip : BitVec 32) :
    j.codeAt gip = (j.cache.tcache_map.find gip.toNat).map fun tb => tb.tcode.ptr := by
  rw [codeAt, h.wf.lookup_fst, lookupFull]

lemma codeAt_of_live (h : j.Sound) (hl : j.cache.Live tb) : j.codeAt tb.ip = some tb.tcode.ptr := by
  rw [codeAt, h.wf.lookup_fst, show j.cache.lookupFull tb.ip = some tb from hl]
  rfl

lemma map_linkOrCache (j : Jit) (branch_slot : Option ℕ) (tb : TBlock) :
    (j.linkOrCache branch_slot tb).cache.tcache_map = j.cache.tcache_map := by
  cases branch_slot <;> rfl

lemma map_tryLinkBranch (j : Jit) (slot : ℕ) (gip : BitVec 32) :
    (j.tryLinkBranch slot gip).2.cache.tcache_map = j.cache.tcache_map := by
  rw [tryLinkBranch_snd]
  split
  · rw [map_linkOrCache, lookup_map]
  · rw [lookup_map]

lemma map_brind (j : Jit) (gip : BitVec 32) :
    (j.brind gip).2.cache.tcache_map = j.cache.tcache_map := by
  rw [brind_snd]
  split
  · rw [map_linkOrCache, lookup_map]
  · rw [lookup_map]

/-- No block is lost: what a look-up finds, a later one finds. -/
def Keeps (j j' : Jit) : Prop := ∀ gip ptr, j.codeAt gip = some ptr → j'.codeAt gip = some ptr

lemma Keeps.of_map (h : j.Sound) (h' : j'.Sound)
    (hmap : j'.cache.tcache_map = j.cache.tcache_map) : Keeps j j' := by
  intro gip ptr hg
  rw [codeAt_eq h', hmap, ← codeAt_eq h, hg]

/-- An entry for an address holds the code of its block. -/
lemma codeAt_of_cached (h : j.Sound) (hc : emitGBrind j.cache gip = .code (some ptr)) :
    j.codeAt gip = some ptr := by
  rw [emitGBrind, brindEntry_eq] at hc
  split at hc
  · rename_i hgip
    rcases h.wf.brind (l1hash gip) with he | ⟨tb, hlive, -, he⟩
    · rw [he] at hc
      cases hc
    · rw [he] at hgip hc
      obtain rfl : tb.ip = gip := hgip
      cases hc
      exact codeAt_of_live h hlive
  · cases hc

/-- A slot that is linked jumps to the code of its block. -/
lemma codeAt_of_linked (h : j.Sound) (hs : j.slots slot = some ⟨.jump ptr, gip⟩) :
    j.codeAt gip = some ptr := by
  obtain ⟨tb, hlive, hip, hsl⟩ := h.wf.links _ _ (h.wf.slots slot _ ptr hs rfl)
  rw [hs] at hsl
  cases hsl
  exact codeAt_of_live h hlive

/-- What one step preserves, and what it enters. -/
lemma Ok.step (h : Ok d) (hs : Step d e d') :
    Ok d' ∧ Keeps d.jit d'.jit ∧ ∀ gip ptr, e = some (gip, ptr) → d'.jit.codeAt gip = some ptr := by
  obtain ⟨hsound, hheld⟩ := h
  cases hs with
  | execute hfit hj =>
    rename_i j j' ip branch_slot code tb
    obtain ⟨hsound', hip, hlive, hslots⟩ := hsound.findOrCompile hfit hj
    have hlink : (j'.linkOrCache branch_slot tb).Sound :=
      hsound'.linkOrCache hlive fun slot hslot => by
        rw [hip]
        exact hslots slot _ (hheld slot (by rw [hslot]))
    have hkeep : Keeps j j' := fun gip ptr hg => by
      rw [codeAt_eq hsound] at hg
      obtain ⟨tb', hfind, rfl⟩ := Option.map_eq_some_iff.mp hg
      have hip' := BitVec.eq_of_toNat_eq (hsound.wf.keyed _ _ hfind)
      rw [hip']
      exact codeAt_of_live hsound' (hsound.live_findOrCompile hj (by
        rw [live_iff, ← hip']
        exact hfind))
    have hkeep' := Keeps.of_map hsound' hlink (map_linkOrCache j' branch_slot tb)
    refine ⟨⟨hlink, fun _ hc => by cases hc⟩, fun gip ptr hg => hkeep' _ _ (hkeep _ _ hg), ?_⟩
    intro gip ptr he
    cases he
    refine hkeep' _ _ ?_
    rw [← hip]
    exact codeAt_of_live hsound' hlive
  | linked hsl =>
    refine ⟨⟨hsound, hheld⟩, fun _ _ hg => hg, fun gip ptr he => ?_⟩
    cases he
    exact codeAt_of_linked hsound hsl
  | link hsl hj =>
    rename_i j j' ip gip slot ptr
    obtain ⟨hfst, rfl⟩ := Prod.ext_iff.mp hj
    have hsound' := hsound.tryLinkBranch hsl
    have hkeep := Keeps.of_map hsound hsound' (map_tryLinkBranch j slot gip)
    refine ⟨⟨hsound', fun _ hc => by cases hc⟩, hkeep, fun gip' ptr' he => ?_⟩
    cases he
    exact hkeep _ _ ((tryLinkBranch_fst j slot gip).symm.trans hfst)
  | escapeLink hsl hj =>
    rename_i j j' ip gip slot
    obtain ⟨hfst, rfl⟩ := Prod.ext_iff.mp hj
    have hsound' := hsound.tryLinkBranch hsl
    refine ⟨⟨hsound', fun slot' hc => ?_⟩,
      Keeps.of_map hsound hsound' (map_tryLinkBranch j slot gip), fun _ _ he => by cases he⟩
    cases hc
    -- nothing is found, so the slot stays as it is
    rw [tryLinkBranch_fst, codeAt, Option.map_eq_none_iff] at hfst
    rw [tryLinkBranch_snd, hfst]
    exact hsl
  | cached hc =>
    refine ⟨⟨hsound, hheld⟩, fun _ _ hg => hg, fun gip ptr he => ?_⟩
    cases he
    exact codeAt_of_cached hsound hc
  | brind hslow hj =>
    rename_i j j' ip gip ptr
    obtain ⟨hfst, rfl⟩ := Prod.ext_iff.mp hj
    have hsound' := hsound.brind gip
    have hkeep := Keeps.of_map hsound hsound' (map_brind j gip)
    refine ⟨⟨hsound', fun _ hc => by cases hc⟩, hkeep, fun gip' ptr' he => ?_⟩
    cases he
    exact hkeep _ _ ((brind_fst j gip).symm.trans hfst)
  | escapeBrind hslow hj =>
    rename_i j j' ip gip
    obtain ⟨-, rfl⟩ := Prod.ext_iff.mp hj
    have hsound' := hsound.brind gip
    exact ⟨⟨hsound', fun _ hc => by cases hc⟩, Keeps.of_map hsound hsound' (map_brind j gip),
      fun _ _ he => by cases he⟩
  | code | trap | env =>
    exact ⟨⟨hsound, fun _ hc => by cases hc⟩, fun _ _ hg => hg, fun _ _ he => by cases he⟩

/-- What a run preserves. -/
lemma Ok.run (h : Ok d) (hr : Run d es d') :
    Ok d' ∧ ∀ e ∈ es, d'.jit.codeAt e.1 = some e.2 := by
  induction hr with
  | nil => exact ⟨h, by simp⟩
  | step hrun hstep ih =>
    obtain ⟨hok, hes⟩ := ih
    obtain ⟨hok', hkeep, hnew⟩ := hok.step hstep
    refine ⟨hok', fun e he => ?_⟩
    rcases List.mem_append.mp he with he | he
    · exact hkeep _ _ (hes e he)
    · exact hnew _ _ (Option.mem_toList.mp he)

lemma ok_start (tb_base code_base : ℕ) (ip : BitVec 32) : Ok (start tb_base code_base ip) :=
  ⟨Jit.sound_init tb_base code_base, fun _ h => by cases h⟩

lemma Ok.slotOk (h : Ok d) {sl : BranchSlot} (hs : d.jit.slots slot = some sl) :
    SlotOk d.jit slot sl := by
  obtain ⟨code, gip⟩ := sl
  cases code with
  | lazyLink => exact Or.inl rfl
  | jump ptr =>
    have hlink := h.sound.wf.slots slot _ ptr hs rfl
    obtain ⟨tb, hlive, -, hsl⟩ := h.sound.wf.links _ _ hlink
    rw [hs] at hsl
    cases hsl
    refine Or.inr ⟨tb, rfl, (h.sound.wf.lookup_fst tb.ip).trans hlive, rfl, fun k tb' hk hip => ?_,
      hlink⟩
    have hkey := h.sound.wf.keyed k tb' hk
    rw [hkey, hip, show d.jit.cache.tcache_map.find tb.ip.toNat = some tb from hlive] at hk
    exact (Option.some.inj hk).symm

/-- In every state that is reached without exhausting a pool, each slot is linked to the block of
its address or calls the stub, and the blocks that have been entered, by whichever way, are those
that fresh look-ups of their addresses find. -/
theorem run_transparent (tb_base code_base : ℕ) (ip : BitVec 32)
    (hrun : Run (start tb_base code_base ip) es d) :
    (∀ slot sl, d.jit.slots slot = some sl → SlotOk d.jit slot sl) ∧
      ∀ e ∈ es, d.jit.codeAt e.1 = some e.2 := by
  obtain ⟨hok, hes⟩ := (ok_start tb_base code_base ip).run hrun
  exact ⟨fun slot sl hs => hok.slotOk hs, hes⟩

/-- A region of 64 bytes with one slot at its start. -/
def slotRegion (gip : BitVec 32) : CodeLayout := ⟨64, 64, [(0, gip)], le_rfl, by simp; decide⟩

/-- A block with a slot is compiled, the slot escapes to the loop, is linked there to the block
that is compiled for it, and is then taken. -/
theorem run_transparent_slotRegion : ∃ es d, Run (start 0 0 0x1000) es d ∧
    es = [(0x1000, 0), (0x2000, 64), (0x2000, 64)] ∧
    (∀ slot sl, d.jit.slots slot = some sl → SlotOk d.jit slot sl) ∧
      ∀ e ∈ es, d.jit.codeAt e.1 = some e.2 := by
  have h1 : Run (start 0 0 0x1000) [(0x1000, 0)] _ := .step .nil (.execute (by decide)
    (show Jit.findOrCompile (.init 0 0) 0x1000 (slotRegion 0x2000) = _ from rfl))
  have h2 : Run (start 0 0 0x1000) [(0x1000, 0)] _ := h1.step (.escapeLink rfl
    (show Jit.tryLinkBranch _ 0 0x2000 = _ from rfl))
  have h3 : Run (start 0 0 0x1000) [(0x1000, 0), (0x2000, 64)] _ := h2.step (.execute (by decide)
    (show Jit.findOrCompile _ 0x2000 (slotRegion 0x3000) = _ from rfl))
  have h4 := h3.step (.linked (show Jit.slots _ 0 = some ⟨.jump 64, 0x2000⟩ from rfl))
  exact ⟨_, _, h4, rfl, run_transparent 0 0 0x1000 h4⟩

end Dispatch

end Rv32jit.Runtime
