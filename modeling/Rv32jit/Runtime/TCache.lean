/-
# The translation cache

`tcache.h`, `tcache.cpp` and the branch slots of `jitabi.h`.  Blocks are found by their guest
address through a map, a direct-mapped cache in front of it and a second one for indirect
branches; direct branches find theirs through a slot in the code that is patched once the target
is known.  In every reachable state the four ways agree.
-/
import Rv32jit.Lib.OrdMap
import Mathlib.Tactic

namespace Rv32jit.Runtime

/-! ### Blocks and slots -/

/-- `TBlock::TCode`. -/
structure TCode where
  ptr : ℕ
  size : ℕ
deriving DecidableEq, Repr

/-- A block: where it lies and what it holds. -/
structure TBlock where
  addr : ℕ
  tcode : TCode
  ip : BitVec 32
deriving DecidableEq, Repr

/-- `tcache::BrindCacheEntry`; the null pointer is no code. -/
structure BrindCacheEntry where
  gip : BitVec 32
  code : Option ℕ
deriving DecidableEq, Repr

/-- What the code of a slot does: call the stub that links it, or jump. -/
inductive SlotCode
  | lazyLink
  | jump (ptr : ℕ)
deriving DecidableEq, Repr

/-- `BranchSlot`. -/
structure BranchSlot where
  code : SlotCode
  gip : BitVec 32
deriving DecidableEq, Repr

/-- The slots in the code, by their addresses. -/
abbrev Slots := ℕ → Option BranchSlot

/-- `BranchSlot::Link` on the slot at an address. -/
def Slots.link (slots : Slots) (slot ptr : ℕ) : Slots :=
  Function.update slots slot ((slots slot).map fun s => { s with code := .jump ptr })

/-- `BranchSlot::LinkLazyJIT`. -/
def Slots.linkLazyJIT (slots : Slots) (slot : ℕ) : Slots :=
  Function.update slots slot ((slots slot).map fun s => { s with code := .lazyLink })

/-! ### The cache -/

/-- `tcache::l1hash`. -/
def l1hash (ip : BitVec 32) : BitVec 12 := (ip >>> 2).setWidth 12

/-- `tcache`: the map of translated blocks, the two caches over it, and the links between blocks. -/
structure TCache where
  tcache_map : OrdMap ℕ TBlock
  l1_cache : BitVec 12 → Option TBlock
  l1_brind_cache : BitVec 12 → BrindCacheEntry
  link_map : OrdMultimap ℕ ℕ

namespace TCache

/-- `tcache::Init`, and what `Invalidate` leaves. -/
def init : TCache where
  tcache_map := .empty
  l1_cache _ := none
  l1_brind_cache _ := ⟨0, none⟩
  link_map := .empty

/-- `tcache::LookupFull`. -/
def lookupFull (c : TCache) (gip : BitVec 32) : Option TBlock := c.tcache_map.find gip.toNat

/-- `tcache::Lookup`. -/
def lookup (c : TCache) (ip : BitVec 32) : Option TBlock × TCache :=
  let hash := l1hash ip
  match (c.l1_cache hash).filter fun tb => tb.ip = ip with
  | some tb => (some tb, c)
  | none =>
      match c.lookupFull ip with
      | some tb => (some tb, { c with l1_cache := Function.update c.l1_cache hash (some tb) })
      | none => (none, c)

/-- `tcache::Insert`. -/
def insert (c : TCache) (tb : TBlock) : TCache :=
  { c with
    tcache_map := c.tcache_map.insert tb.ip.toNat tb
    l1_cache := Function.update c.l1_cache (l1hash tb.ip) (some tb) }

/-- `tcache::LookupUpperBound`. -/
def lookupUpperBound (c : TCache) (gip : BitVec 32) : Option TBlock :=
  c.tcache_map.upperBound gip.toNat

/-- `tcache::CacheBrind`. -/
def cacheBrind (c : TCache) (tb : TBlock) : TCache :=
  { c with
    l1_brind_cache := Function.update c.l1_brind_cache (l1hash tb.ip) ⟨tb.ip, some tb.tcode.ptr⟩ }

/-- `tcache::RecordLink`. -/
def recordLink (c : TCache) (slot : ℕ) (tgt : TBlock) : TCache :=
  { c with link_map := c.link_map.insert tgt.ip.toNat slot }

/-- `rounddown(ip, mmu::PAGE_SIZE) == pvaddr`. -/
def InPage (pvaddr ip : BitVec 32) : Prop := ip.toNat / 4096 * 4096 = pvaddr.toNat

instance (pvaddr ip : BitVec 32) : Decidable (InPage pvaddr ip) :=
  inferInstanceAs (Decidable (_ = _))

/-- `tcache::InvalidatePage`; `none` where a loop runs off the end of its map or an empty entry
of the first cache is dereferenced. -/
def invalidatePage (c : TCache) (slots : Slots) (pvaddr : BitVec 32) : Option (TCache × Slots) := do
  let (links, link_map) ← c.link_map.eraseRange pvaddr.toNat (pvaddr.toNat + 4096)
  let slots := links.foldl (fun s e => s.linkLazyJIT e.2) slots
  let tcache_map ← c.tcache_map.eraseRange pvaddr.toNat (pvaddr.toNat + 4096)
  if ∀ i, (c.l1_cache i).isSome then
    some ({
      tcache_map := tcache_map
      l1_cache := fun i => (c.l1_cache i).filter fun tb => !InPage pvaddr tb.ip
      l1_brind_cache := fun i =>
        if InPage pvaddr (c.l1_brind_cache i).gip then ⟨0, none⟩ else c.l1_brind_cache i
      link_map := link_map }, slots)
  else none

/-! ### Reachable states -/

/-- The block can be found. -/
def Live (c : TCache) (tb : TBlock) : Prop := c.lookupFull tb.ip = some tb

/-- The states of the cache and of the slots that the operations lead to, used as the execution
loop and the stubs use them: a block is inserted if its address has just been looked up in vain, a
slot is linked while it is lazy, and to the block of its address.  `emit` is the code of a new
region with its slots, and `invalidate` also drops the code with all slots. -/
inductive Reachable : TCache → Slots → Prop
  | init : Reachable init fun _ => none
  | emit {c slots slot gip} : Reachable c slots → slots slot = none →
      Reachable c (Function.update slots slot (some ⟨.lazyLink, gip⟩))
  | lookup {c slots} (ip : BitVec 32) : Reachable c slots → Reachable (c.lookup ip).2 slots
  | insert {c slots tb} : Reachable c slots → (c.lookup tb.ip).1 = none →
      Reachable ((c.lookup tb.ip).2.insert tb) slots
  | cacheBrind {c slots tb} : Reachable c slots → c.Live tb → Reachable (c.cacheBrind tb) slots
  | link {c slots slot tb} : Reachable c slots → c.Live tb → slots slot = some ⟨.lazyLink, tb.ip⟩ →
      Reachable (c.recordLink slot tb) (slots.link slot tb.tcode.ptr)
  | invalidate {c slots} : Reachable c slots → Reachable TCache.init fun _ => none
  | invalidatePage {c slots c' slots'} {p : BitVec 32} : Reachable c slots → 4096 ∣ p.toNat →
      c.invalidatePage slots p = some (c', slots') → Reachable c' slots'

/-- What the four ways to a block have in common. -/
structure WF (c : TCache) (slots : Slots) : Prop where
  keyed : ∀ k tb, c.tcache_map.find k = some tb → k = tb.ip.toNat
  l1 : ∀ i tb, c.l1_cache i = some tb → c.Live tb ∧ l1hash tb.ip = i
  brind : ∀ i, c.l1_brind_cache i = ⟨0, none⟩ ∨
    ∃ tb, c.Live tb ∧ l1hash tb.ip = i ∧ c.l1_brind_cache i = ⟨tb.ip, some tb.tcode.ptr⟩
  links : ∀ k slot, (k, slot) ∈ c.link_map.entries →
    ∃ tb, c.Live tb ∧ k = tb.ip.toNat ∧ slots slot = some ⟨.jump tb.tcode.ptr, tb.ip⟩
  slots : ∀ slot s ptr, slots slot = some s → s.code = .jump ptr →
    (s.gip.toNat, slot) ∈ c.link_map.entries

/-- The map has each block under its address, and the cache in front of it has blocks of the map
only, each in the slot of its address. -/
structure Coherent (c : TCache) : Prop where
  keyed : ∀ k tb, c.tcache_map.find k = some tb → k = tb.ip.toNat
  l1 : ∀ i tb, c.l1_cache i = some tb → c.Live tb ∧ l1hash tb.ip = i

variable {c : TCache} {s : Slots} {tb : TBlock} {ip : BitVec 32}

lemma WF.coherent (h : WF c s) : c.Coherent := ⟨h.keyed, h.l1⟩

lemma live_iff : c.Live tb ↔ c.tcache_map.find tb.ip.toNat = some tb := Iff.rfl

lemma WF.init : WF init fun _ => none := by
  refine ⟨fun k tb h => ?_, fun i tb h => ?_, fun i => Or.inl rfl, fun k slot h => ?_,
    fun slot s ptr h => ?_⟩
  · simp [TCache.init, OrdMap.empty, OrdMap.find] at h
  · cases h
  · simp [TCache.init, OrdMultimap.empty] at h
  · cases h

/-- A look-up finds what a search of the whole map finds. -/
lemma Coherent.lookup_fst (h : c.Coherent) (ip : BitVec 32) :
    (c.lookup ip).1 = c.lookupFull ip := by
  rw [TCache.lookup]
  split
  · rename_i tb hf
    obtain ⟨hl1, hip⟩ := Option.filter_eq_some_iff.mp hf
    have hip : tb.ip = ip := by simpa using hip
    rw [← hip]
    exact (h.l1 _ tb hl1).1.symm
  · cases hf : c.lookupFull ip <;> rfl

lemma WF.lookup_fst (h : WF c s) (ip : BitVec 32) : (c.lookup ip).1 = c.lookupFull ip :=
  h.coherent.lookup_fst ip

lemma lookup_snd (ip : BitVec 32) : (c.lookup ip).2 = c ∨
    ∃ tb, c.lookupFull ip = some tb ∧
      (c.lookup ip).2 =
        { c with l1_cache := Function.update c.l1_cache (l1hash ip) (some tb) } := by
  rw [lookup]
  split
  · exact Or.inl rfl
  · cases hf : c.lookupFull ip with
    | none => exact Or.inl rfl
    | some tb => exact Or.inr ⟨tb, rfl, rfl⟩

lemma Coherent.lookup (h : c.Coherent) (ip : BitVec 32) : (c.lookup ip).2.Coherent := by
  rcases lookup_snd (c := c) ip with heq | ⟨tb, hf, heq⟩
  · rw [heq]
    exact h
  · rw [heq]
    have hip : tb.ip = ip := (BitVec.eq_of_toNat_eq (h.keyed _ tb hf)).symm
    refine ⟨h.keyed, fun i tb' htb' => ?_⟩
    by_cases hi : i = l1hash ip
    · subst hi
      simp only [Function.update_self, Option.some.injEq] at htb'
      subst htb'
      exact ⟨by rw [Live, hip]; exact hf, by rw [hip]⟩
    · simp only [Function.update_of_ne hi] at htb'
      exact h.l1 i tb' htb'

lemma WF.lookup (h : WF c s) (ip : BitVec 32) : WF (c.lookup ip).2 s := by
  have hc := h.coherent.lookup ip
  rcases lookup_snd (c := c) ip with heq | ⟨tb, hf, heq⟩
  · rw [heq]
    exact h
  · rw [heq] at hc ⊢
    exact ⟨hc.keyed, hc.l1, h.brind, h.links, h.slots⟩

/-- Inserting a block whose address is not in the map keeps the other blocks. -/
lemma Live.insert {tb' : TBlock} (h : c.lookupFull tb.ip = none) (hl : c.Live tb') :
    (c.insert tb).Live tb' := by
  rw [live_iff] at hl ⊢
  simp only [TCache.insert]
  rw [OrdMap.find_insert h, if_neg, hl]
  intro hip
  rw [hip] at hl
  rw [show c.tcache_map.find tb.ip.toNat = none from h] at hl
  cases hl

/-- The blocks after an insertion. -/
lemma Live.of_insert {tb' : TBlock} (h : c.lookupFull tb.ip = none)
    (hl : (c.insert tb).Live tb') : tb' = tb ∨ c.Live tb' := by
  rw [live_iff, TCache.insert] at hl
  simp only at hl
  rw [OrdMap.find_insert h] at hl
  split at hl
  · exact Or.inl (Option.some.inj hl).symm
  · exact Or.inr hl

lemma Coherent.insert (h : c.Coherent) (hnone : c.lookupFull tb.ip = none) :
    (c.insert tb).Coherent := by
  have hfind : ∀ k, (c.tcache_map.insert tb.ip.toNat tb).find k =
      if k = tb.ip.toNat then some tb else c.tcache_map.find k :=
    fun k => OrdMap.find_insert hnone
  refine ⟨fun k tb' hk => ?_, fun i tb' hi => ?_⟩
  · rw [TCache.insert, hfind] at hk
    split at hk
    · rename_i heq
      rw [heq, Option.some.inj hk]
    · exact h.keyed k tb' hk
  · by_cases hh : i = l1hash tb.ip
    · subst hh
      simp only [TCache.insert, Function.update_self, Option.some.injEq] at hi
      subst hi
      refine ⟨?_, rfl⟩
      rw [live_iff, TCache.insert, hfind, if_pos rfl]
    · simp only [TCache.insert, Function.update_of_ne hh] at hi
      obtain ⟨h1, h2⟩ := h.l1 i tb' hi
      exact ⟨h1.insert hnone, h2⟩

lemma WF.insert (h : WF c s) (hnone : c.lookupFull tb.ip = none) : WF (c.insert tb) s := by
  have hc := h.coherent.insert hnone
  refine ⟨hc.keyed, hc.l1, fun i => ?_, fun k slot hk => ?_, h.slots⟩
  · rcases h.brind i with he | ⟨tb', h1, h2, h3⟩
    · exact Or.inl he
    · exact Or.inr ⟨tb', h1.insert hnone, h2, h3⟩
  · obtain ⟨tb', h1, h2, h3⟩ := h.links k slot hk
    exact ⟨tb', h1.insert hnone, h2, h3⟩

lemma WF.cacheBrind (h : WF c s) (hl : c.Live tb) : WF (c.cacheBrind tb) s := by
  refine ⟨h.keyed, h.l1, fun i => ?_, h.links, h.slots⟩
  by_cases hi : i = l1hash tb.ip
  · subst hi
    exact Or.inr ⟨tb, hl, rfl, Function.update_self _ _ _⟩
  · rcases h.brind i with he | ⟨tb', h1, h2, h3⟩
    · exact Or.inl (by simp [TCache.cacheBrind, Function.update_of_ne hi, he])
    · exact Or.inr ⟨tb', h1, h2, by simp [TCache.cacheBrind, Function.update_of_ne hi, h3]⟩

/-- New slots, which are lazy. -/
lemma WF.emit {s' : Slots} (h : WF c s)
    (hs : ∀ slot, s' slot = s slot ∨ s slot = none ∧ ∃ gip, s' slot = some ⟨.lazyLink, gip⟩) :
    WF c s' := by
  refine ⟨h.keyed, h.l1, h.brind, fun k slot hk => ?_, fun slot sl ptr hsl hcode => ?_⟩
  · obtain ⟨tb, h1, h2, h3⟩ := h.links k slot hk
    rcases hs slot with heq | ⟨hnone, -⟩
    · exact ⟨tb, h1, h2, heq.trans h3⟩
    · rw [hnone] at h3
      cases h3
  · rcases hs slot with heq | ⟨-, gip, heq⟩
    · exact h.slots slot sl ptr (heq.symm.trans hsl) hcode
    · rw [heq] at hsl
      cases hsl
      cases hcode

lemma WF.link (h : WF c s) {slot : ℕ} (hl : c.Live tb) (hs : s slot = some ⟨.lazyLink, tb.ip⟩) :
    WF (c.recordLink slot tb) (s.link slot tb.tcode.ptr) := by
  refine ⟨h.keyed, h.l1, h.brind, fun k slot' hk => ?_, fun slot' sl ptr hs' hcode => ?_⟩
  · rcases OrdMultimap.mem_insert.mp hk with heq | hk
    · cases heq
      exact ⟨tb, hl, rfl, by simp [Slots.link, hs]⟩
    · obtain ⟨tb', h1, h2, h3⟩ := h.links k slot' hk
      refine ⟨tb', h1, h2, ?_⟩
      rw [Slots.link, Function.update_of_ne, h3]
      rintro rfl
      rw [hs] at h3
      cases h3
  · refine OrdMultimap.mem_insert.mpr ?_
    by_cases hsl : slot' = slot
    · subst hsl
      rw [Slots.link, Function.update_self, hs] at hs'
      cases hs'
      exact Or.inl rfl
    · rw [Slots.link, Function.update_of_ne hsl] at hs'
      exact Or.inr (h.slots slot' sl ptr hs' hcode)

end TCache

end Rv32jit.Runtime
