/-
# Blocks in their pools

The cache with the pools that its blocks and their code lie in: allocation with its flushes, the
announcement of a compiled region, and what the execution loop and the stubs do with a block.
A request that a pool cannot serve flushes the cache, and then the simulator panics
(`EmitCode`) or constructs the block in a null pointer (`AllocateTBlock`); so a run is sound as
long as every request is served, and no longer.
-/
import Rv32jit.Runtime.Arena
import Rv32jit.Runtime.Brind

namespace Rv32jit.Runtime

open TCache

/-- `TB_POOL_SIZE`. -/
def TB_POOL_SIZE : ℕ := 32 * 1024 * 1024

/-- `CODE_POOL_SIZE`. -/
def CODE_POOL_SIZE : ℕ := 128 * 1024 * 1024

/-- `sizeof(TBlock)`. -/
def sizeofTBlock : ℕ := 24

/-- `sizeof(BranchSlot)`. -/
def sizeofBranchSlot : ℕ := 17

/-- What the assembler has made of a region: the size that it asks for, the size that the code has
after relocation, and the slots with their offsets and addresses. -/
structure CodeLayout where
  alloc_sz : ℕ
  code_sz : ℕ
  slots : List (ℕ × BitVec 32)
  le : code_sz ≤ alloc_sz
  inside : ∀ slot ∈ slots, slot.1 + sizeofBranchSlot ≤ code_sz

/-- The cache, the slots in the code, and the pools. -/
structure Jit where
  cache : TCache
  slots : Slots
  tb_pool : MemArena
  code_pool : MemArena

namespace Jit

/-- `tcache::Init`, where the host has put the pools. -/
def init (tb_base code_base : ℕ) : Jit where
  cache := .init
  slots _ := none
  tb_pool := .init tb_base TB_POOL_SIZE
  code_pool := .init code_base CODE_POOL_SIZE

/-- `tcache::Invalidate`. -/
def invalidate (j : Jit) : Jit where
  cache := .init
  slots _ := none
  tb_pool := j.tb_pool.reset
  code_pool := j.code_pool.reset

/-- `tcache::AllocateCode`. -/
def allocateCode (j : Jit) (code_sz align : ℕ) : Option ℕ × Jit :=
  match j.code_pool.allocate code_sz align with
  | some (res, code_pool) => (some res, { j with code_pool := code_pool })
  | none => (none, j.invalidate)

/-- `tcache::AllocateTBlock` up to the construction of the block in what it has allocated. -/
def allocateTBlock (j : Jit) : Option ℕ × Jit :=
  match j.tb_pool.allocate sizeofTBlock 8 with
  | some (res, tb_pool) => (some res, { j with tb_pool := tb_pool })
  | none => (none, j.invalidate)

/-- The lazy slots of new code. -/
def placeSlots (slots : Slots) (code_ptr : ℕ) (new : List (ℕ × BitVec 32)) : Slots := fun a =>
  if code_ptr ≤ a then
    match new.lookup (a - code_ptr) with
    | some gip => some ⟨.lazyLink, gip⟩
    | none => slots a
  else slots a

/-- `QEmit::EmitCode`; nothing for the panic. -/
def emitCode (j : Jit) (code : CodeLayout) : Option (TCode × Jit) :=
  match j.allocateCode code.alloc_sz 8 with
  | (some code_ptr, j) =>
      some (⟨code_ptr, code.code_sz⟩, { j with slots := placeSlots j.slots code_ptr code.slots })
  | (none, _) => none

/-- `AnnounceRegion`; nothing where the block is constructed in a null pointer. -/
def announceRegion (j : Jit) (ip : BitVec 32) (code : TCode) : Option (TBlock × Jit) :=
  match j.allocateTBlock with
  | (some res, j) =>
      let tb : TBlock := ⟨res, code, ip⟩
      some (tb, { j with cache := j.cache.insert tb })
  | (none, _) => none

/-- `CompilerDoJob`, from the emission of the code on. -/
def compilerDoJob (j : Jit) (ip : BitVec 32) (code : CodeLayout) : Option (TBlock × Jit) := do
  let (tcode, j) ← j.emitCode code
  j.announceRegion ip tcode

/-- The look-up or compilation at the head of the loop of `Execute`. -/
def findOrCompile (j : Jit) (ip : BitVec 32) (code : CodeLayout) : Option (TBlock × Jit) :=
  match j.cache.lookup ip with
  | (some tb, cache) => some (tb, { j with cache := cache })
  | (none, cache) => { j with cache := cache }.compilerDoJob ip code

/-- What the loop does with a block before it enters it. -/
def linkOrCache (j : Jit) (branch_slot : Option ℕ) (tb : TBlock) : Jit :=
  match branch_slot with
  | some slot =>
      { j with
        slots := j.slots.link slot tb.tcode.ptr
        cache := j.cache.recordLink slot tb }
  | none => { j with cache := j.cache.cacheBrind tb }

/-- `TryLinkBranch` on a slot for an address: the code to go on at, or nothing for the escape
stub. -/
def tryLinkBranch (j : Jit) (slot : ℕ) (gip : BitVec 32) : Option ℕ × Jit :=
  match j.cache.lookup gip with
  | (some found, cache) =>
      (some found.tcode.ptr, { j with cache := cache }.linkOrCache (some slot) found)
  | (none, cache) => (none, { j with cache := cache })

/-- `qcgstub_brind`. -/
def brind (j : Jit) (gip : BitVec 32) : Option ℕ × Jit :=
  let r := qcgstubBrind j.cache gip
  (r.1, { j with cache := r.2 })

/-! ### Soundness -/

/-- The block and its code lie in memory that is allocated. -/
structure InPools (tb_pool code_pool : MemArena) (tb : TBlock) : Prop where
  addr : tb_pool.Allocated tb.addr sizeofTBlock
  code : code_pool.Allocated tb.tcode.ptr tb.tcode.size

/-- The codes of two blocks have no byte in common. -/
def Apart (tb tb' : TBlock) : Prop :=
  tb.tcode.ptr + tb.tcode.size ≤ tb'.tcode.ptr ∨ tb'.tcode.ptr + tb'.tcode.size ≤ tb.tcode.ptr

/-- The pools are as large as they are made, and no more of them is handed out. -/
structure PoolsOk (tb_pool code_pool : MemArena) : Prop where
  tb_sz : tb_pool.pool_sz = TB_POOL_SIZE
  code_sz : code_pool.pool_sz = CODE_POOL_SIZE
  tb_used : tb_pool.used ≤ tb_pool.pool_sz
  code_used : code_pool.used ≤ code_pool.pool_sz

/-- All that can be reached lies in memory that is allocated. -/
structure Sound (j : Jit) : Prop where
  pools : PoolsOk j.tb_pool j.code_pool
  wf : WF j.cache j.slots
  blocks : ∀ tb, j.cache.Live tb → InPools j.tb_pool j.code_pool tb
  apart : ∀ tb tb', j.cache.Live tb → j.cache.Live tb' → tb ≠ tb' → Apart tb tb'
  slots : ∀ slot sl, j.slots slot = some sl → j.code_pool.Allocated slot sizeofBranchSlot

variable {j j' : Jit} {tb tb' : TBlock} {ip gip : BitVec 32} {code : CodeLayout} {slot : ℕ}

lemma sound_init (tb_base code_base : ℕ) : Sound (init tb_base code_base) := by
  refine ⟨⟨rfl, rfl, Nat.zero_le _, Nat.zero_le _⟩, .init, ?_, ?_, ?_⟩
  · intro tb h
    cases h
  · intro tb tb' h
    cases h
  · intro slot sl h
    cases h

/-- A change of the cache that leaves the map as it is. -/
lemma Sound.of_cache (h : Sound j) {cache : TCache} (hwf : WF cache j.slots)
    (hmap : cache.tcache_map = j.cache.tcache_map) : Sound { j with cache := cache } := by
  have hlive : ∀ tb, cache.Live tb ↔ j.cache.Live tb := fun tb => by
    rw [live_iff, live_iff, hmap]
  exact ⟨h.pools, hwf, fun tb hl => h.blocks tb ((hlive tb).mp hl),
    fun tb tb' hl hl' => h.apart tb tb' ((hlive tb).mp hl) ((hlive tb').mp hl'), h.slots⟩

lemma lookup_map (c : TCache) (ip : BitVec 32) : (c.lookup ip).2.tcache_map = c.tcache_map := by
  rcases lookup_snd (c := c) ip with heq | ⟨tb, -, heq⟩ <;> rw [heq]

lemma Sound.lookup (h : Sound j) (ip : BitVec 32) :
    Sound { j with cache := (j.cache.lookup ip).2 } :=
  h.of_cache (h.wf.lookup ip) (lookup_map _ _)

lemma lookup_live (h : WF j.cache j.slots) (hf : (j.cache.lookup ip).1 = some tb) :
    tb.ip = ip ∧ (j.cache.lookup ip).2.Live tb := by
  rw [h.lookup_fst] at hf
  have hip : tb.ip = ip := (BitVec.eq_of_toNat_eq (h.keyed _ tb hf)).symm
  exact ⟨hip, by rw [live_iff, lookup_map, hip]; exact hf⟩

lemma Sound.linkOrCache (h : Sound j) {branch_slot : Option ℕ} (hl : j.cache.Live tb)
    (hslot : ∀ slot, branch_slot = some slot → j.slots slot = some ⟨.lazyLink, tb.ip⟩) :
    Sound (j.linkOrCache branch_slot tb) := by
  cases branch_slot with
  | none => exact h.of_cache (h.wf.cacheBrind hl) rfl
  | some slot =>
    have hsl := hslot slot rfl
    refine ⟨h.pools, h.wf.link hl hsl, h.blocks, h.apart, fun slot' sl hs => ?_⟩
    by_cases heq : slot' = slot
    · subst heq
      exact h.slots slot' _ hsl
    · simp only [Jit.linkOrCache, Slots.link, Function.update_of_ne heq] at hs
      exact h.slots slot' sl hs

/-! ### Compilation -/

/-- The pools have room for the code and for its block. -/
def HasRoom (j : Jit) (code : CodeLayout) : Prop :=
  j.code_pool.HasRoom code.alloc_sz 8 ∧ j.tb_pool.HasRoom sizeofTBlock 8

lemma tb_pool_lt {tb_pool code_pool : MemArena} (h : PoolsOk tb_pool code_pool) :
    tb_pool.pool_sz < 2 ^ 62 ∧ code_pool.pool_sz < 2 ^ 62 := by
  rw [h.tb_sz, h.code_sz]
  decide

variable (ip) in
/-- A compilation completes if the pools have room, and only then. -/
lemma compilerDoJob_isSome (h : PoolsOk j.tb_pool j.code_pool)
    (hsz : code.alloc_sz ≤ CODE_POOL_SIZE) :
    (∃ r, j.compilerDoJob ip code = some r) ↔ j.HasRoom code := by
  have hlt : code.alloc_sz < 2 ^ 62 := Nat.lt_of_le_of_lt hsz (by decide)
  rw [HasRoom, ← MemArena.allocate_isSome h.code_used (tb_pool_lt h).2 hlt (by norm_num)
    (by norm_num), ← MemArena.allocate_isSome h.tb_used (tb_pool_lt h).1 (by decide) (by norm_num)
    (by norm_num), compilerDoJob, emitCode, allocateCode]
  cases j.code_pool.allocate code.alloc_sz 8 with
  | none => simp
  | some r =>
    simp only [Option.bind_eq_bind, Option.bind_some, announceRegion, allocateTBlock]
    cases j.tb_pool.allocate sizeofTBlock 8 with
    | none => simp
    | some r' => simp

/-- The slots of new code do not touch those that there are. -/
lemma placeSlots_cases (slots : Slots) (code_ptr : ℕ) (new : List (ℕ × BitVec 32)) (a : ℕ) :
    placeSlots slots code_ptr new a = slots a ∨ code_ptr ≤ a ∧ ∃ gip, (a - code_ptr, gip) ∈ new ∧
      placeSlots slots code_ptr new a = some ⟨.lazyLink, gip⟩ := by
  rw [placeSlots]
  split
  · rename_i hle
    cases hl : new.lookup (a - code_ptr) with
    | none => exact Or.inl rfl
    | some gip => exact Or.inr ⟨hle, gip, by
        obtain ⟨l1, l2, heq, -⟩ := List.lookup_eq_some_iff.mp hl
        simp [heq], rfl⟩
  · exact Or.inl rfl

/-- A completed compilation of an address that has no block gives it one, in new memory. -/
lemma Sound.compilerDoJob (h : Sound j) (hsz : code.alloc_sz ≤ CODE_POOL_SIZE)
    (hnone : j.cache.lookupFull ip = none) (hj : j.compilerDoJob ip code = some (tb, j')) :
    Sound j' ∧ tb.ip = ip ∧ j'.cache.Live tb ∧
      ∀ slot sl, j.slots slot = some sl → j'.slots slot = some sl := by
  have hlt : code.alloc_sz < 2 ^ 62 := Nat.lt_of_le_of_lt hsz (by decide)
  simp only [Jit.compilerDoJob, emitCode, allocateCode] at hj
  cases hcode : j.code_pool.allocate code.alloc_sz 8 with
  | none =>
    rw [hcode] at hj
    cases hj
  | some r =>
    obtain ⟨ptr, code_pool⟩ := r
    rw [hcode] at hj
    simp only [Option.bind_eq_bind, Option.bind_some, announceRegion, allocateTBlock] at hj
    cases htb : j.tb_pool.allocate sizeofTBlock 8 with
    | none =>
      rw [htb] at hj
      cases hj
    | some r =>
      obtain ⟨addr, tb_pool⟩ := r
      rw [htb] at hj
      simp only [Option.some.injEq, Prod.mk.injEq] at hj
      obtain ⟨rfl, rfl⟩ := hj
      obtain ⟨c1, c2, c3, c4, c5, c6⟩ := MemArena.allocate_eq_some h.pools.code_used
        (tb_pool_lt h.pools).2 hlt (by norm_num) (by norm_num) hcode
      obtain ⟨t1, t2, t3, t4, t5, t6⟩ := MemArena.allocate_eq_some h.pools.tb_used
        (tb_pool_lt h.pools).1 (by decide) (by norm_num) (by norm_num) htb
      set new : TBlock := ⟨addr, ⟨ptr, code.code_sz⟩, ip⟩ with hnew
      have hnewcode : code_pool.Allocated ptr code.code_sz := by
        have := code.le
        exact ⟨c6.1, by have := c6.2; omega⟩
      -- the slots of the new code lie behind all others
      have hslots : ∀ slot sl, j.slots slot = some sl →
          placeSlots j.slots ptr code.slots slot = some sl := by
        intro slot sl hs
        have := (h.slots slot sl hs).2
        rw [placeSlots, if_neg, hs]
        simp only [sizeofBranchSlot] at this
        omega
      have hwf : WF j.cache (placeSlots j.slots ptr code.slots) := by
        refine h.wf.emit fun slot => ?_
        rcases placeSlots_cases j.slots ptr code.slots slot with heq | ⟨-, gip, -, heq⟩
        · exact Or.inl heq
        · cases hs : j.slots slot with
          | none => exact Or.inr ⟨rfl, gip, heq⟩
          | some sl => exact Or.inl (hslots slot sl hs)
      have hlive : ∀ tb', (j.cache.insert new).Live tb' → tb' = new ∨ j.cache.Live tb' :=
        fun tb' hl => Live.of_insert hnone hl
      have hold : ∀ tb', j.cache.Live tb' → InPools tb_pool code_pool tb' := by
        intro tb' hl
        obtain ⟨h1, h2⟩ := h.blocks tb' hl
        exact ⟨h1.mono t1 t4, h2.mono c1 c4⟩
      refine ⟨⟨⟨t2.trans h.pools.tb_sz, c2.trans h.pools.code_sz, t3, c3⟩, hwf.insert hnone,
        ?_, ?_, ?_⟩, rfl, ?_, hslots⟩
      · intro tb' hl
        rcases hlive tb' hl with rfl | hl
        · exact ⟨t6, hnewcode⟩
        · exact hold tb' hl
      · -- the code of an older block ends before the new code
        have hbefore : ∀ tb', j.cache.Live tb' → tb'.tcode.ptr + tb'.tcode.size ≤ ptr := by
          intro tb' hl
          have := (h.blocks tb' hl).code.2
          omega
        intro tb' tb'' hl' hl'' hne
        rcases hlive tb' hl' with rfl | hl' <;> rcases hlive tb'' hl'' with rfl | hl''
        · exact absurd rfl hne
        · exact Or.inr (hbefore tb'' hl'')
        · exact Or.inl (hbefore tb' hl')
        · exact h.apart tb' tb'' hl' hl'' hne
      · intro slot sl hs
        rcases placeSlots_cases j.slots ptr code.slots slot with heq | ⟨hle, gip, hmem, -⟩
        · exact (h.slots slot sl (heq.symm.trans hs)).mono c1 c4
        · have h1 := code.inside _ hmem
          have h2 := hnewcode.2
          have h3 := c6.1
          have h4 : code_pool.Allocated slot sizeofBranchSlot := ⟨by omega, by omega⟩
          exact h4
      · rw [live_iff, TCache.insert]
        simp only
        rw [OrdMap.find_insert hnone, if_pos rfl]

/-- The block that the loop of `Execute` goes on with. -/
lemma Sound.findOrCompile (h : Sound j) (hsz : code.alloc_sz ≤ CODE_POOL_SIZE)
    (hj : j.findOrCompile ip code = some (tb, j')) :
    Sound j' ∧ tb.ip = ip ∧ j'.cache.Live tb ∧
      ∀ slot sl, j.slots slot = some sl → j'.slots slot = some sl := by
  rw [Jit.findOrCompile] at hj
  have hl := h.lookup ip
  cases hf : (j.cache.lookup ip).1 with
  | some found =>
    rw [show j.cache.lookup ip = (some found, (j.cache.lookup ip).2) from Prod.ext hf rfl] at hj
    cases hj
    obtain ⟨hip, hlive⟩ := lookup_live h.wf hf
    exact ⟨hl, hip, hlive, fun slot sl hs => hs⟩
  | none =>
    rw [show j.cache.lookup ip = (none, (j.cache.lookup ip).2) from Prod.ext hf rfl] at hj
    refine hl.compilerDoJob hsz ?_ hj
    rw [lookupFull, lookup_map]
    rw [h.wf.lookup_fst] at hf
    exact hf

/-- A completed compilation leaves the other blocks where they are. -/
lemma compilerDoJob_eq (hj : j.compilerDoJob ip code = some (tb, j')) :
    tb.ip = ip ∧ tb.tcode.size = code.code_sz ∧ j'.cache = j.cache.insert tb ∧
      j'.slots = placeSlots j.slots tb.tcode.ptr code.slots := by
  simp only [Jit.compilerDoJob, emitCode, allocateCode] at hj
  cases hcode : j.code_pool.allocate code.alloc_sz 8 with
  | none =>
    rw [hcode] at hj
    cases hj
  | some r =>
    rw [hcode] at hj
    simp only [Option.bind_eq_bind, Option.bind_some, announceRegion, allocateTBlock] at hj
    cases htb : j.tb_pool.allocate sizeofTBlock 8 with
    | none =>
      rw [htb] at hj
      cases hj
    | some r' =>
      rw [htb] at hj
      cases hj
      exact ⟨rfl, rfl, rfl, rfl⟩

lemma Sound.live_findOrCompile (h : Sound j) (hj : j.findOrCompile ip code = some (tb, j'))
    (hl : j.cache.Live tb') : j'.cache.Live tb' := by
  have hmap : ∀ tb', (j.cache.lookup ip).2.Live tb' ↔ j.cache.Live tb' := fun tb' => by
    rw [live_iff, live_iff, lookup_map]
  rw [Jit.findOrCompile] at hj
  cases hf : (j.cache.lookup ip).1 with
  | some found =>
    rw [show j.cache.lookup ip = (some found, (j.cache.lookup ip).2) from Prod.ext hf rfl] at hj
    cases hj
    exact (hmap tb').mpr hl
  | none =>
    rw [show j.cache.lookup ip = (none, (j.cache.lookup ip).2) from Prod.ext hf rfl] at hj
    obtain ⟨rfl, -, hcache, -⟩ := compilerDoJob_eq hj
    rw [h.wf.lookup_fst] at hf
    rw [hcache]
    refine Live.insert ?_ ((hmap tb').mpr hl)
    rw [lookupFull, lookup_map]
    exact hf

/-! ### The stubs -/

/-- The code that a fresh look-up of an address finds. -/
def codeAt (j : Jit) (gip : BitVec 32) : Option ℕ :=
  (j.cache.lookup gip).1.map fun tb => tb.tcode.ptr

lemma tryLinkBranch_fst (j : Jit) (slot : ℕ) (gip : BitVec 32) :
    (j.tryLinkBranch slot gip).1 = j.codeAt gip := by
  rw [tryLinkBranch, codeAt]
  rcases j.cache.lookup gip with ⟨_ | tb, c⟩ <;> rfl

lemma brind_fst (j : Jit) (gip : BitVec 32) : (j.brind gip).1 = j.codeAt gip := by
  rw [brind, qcgstubBrind, codeAt]
  rcases j.cache.lookup gip with ⟨_ | tb, c⟩ <;> rfl

/-- The stub of a lazy slot links the slot to the block of its address, if there is one. -/
lemma tryLinkBranch_snd (j : Jit) (slot : ℕ) (gip : BitVec 32) :
    (j.tryLinkBranch slot gip).2 = match (j.cache.lookup gip).1 with
      | some tb => { j with cache := (j.cache.lookup gip).2 }.linkOrCache (some slot) tb
      | none => { j with cache := (j.cache.lookup gip).2 } := by
  rw [tryLinkBranch]
  rcases j.cache.lookup gip with ⟨_ | tb, c⟩ <;> rfl

lemma brind_snd (j : Jit) (gip : BitVec 32) :
    (j.brind gip).2 = match (j.cache.lookup gip).1 with
      | some tb => { j with cache := (j.cache.lookup gip).2 }.linkOrCache none tb
      | none => { j with cache := (j.cache.lookup gip).2 } := by
  rw [brind, qcgstubBrind]
  rcases j.cache.lookup gip with ⟨_ | tb, c⟩ <;> rfl

lemma Sound.tryLinkBranch (h : Sound j) (hs : j.slots slot = some ⟨.lazyLink, gip⟩) :
    Sound (j.tryLinkBranch slot gip).2 := by
  have hl := h.lookup gip
  rw [tryLinkBranch_snd]
  cases hf : (j.cache.lookup gip).1 with
  | none => exact hl
  | some tb =>
    obtain ⟨hip, hlive⟩ := lookup_live h.wf hf
    refine hl.linkOrCache hlive fun slot' hslot => ?_
    cases hslot
    rw [hip]
    exact hs

lemma Sound.brind (h : Sound j) (gip : BitVec 32) : Sound (j.brind gip).2 := by
  have hl := h.lookup gip
  rw [brind_snd]
  cases hf : (j.cache.lookup gip).1 with
  | none => exact hl
  | some tb => exact hl.linkOrCache (lookup_live h.wf hf).2 (fun _ hslot => by cases hslot)

end Jit

end Rv32jit.Runtime
