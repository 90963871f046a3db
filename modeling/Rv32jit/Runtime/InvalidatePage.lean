/-
# Invalidation of a page

`tcache::InvalidatePage` starts behind `upper_bound`, so that a block at the first address of the
page stays in the map, and its loops test the bound before the end of the map: it completes only
if both maps go on behind the page, and if the first cache has no empty entry.
-/
import Rv32jit.Runtime.TCache

namespace Rv32jit.Runtime.TCache

variable {c c' : TCache} {s s' : Slots} {tb : TBlock} {p ip : BitVec 32}

/-! ### Pages -/

/-- The addresses of a page. -/
lemma inPage_iff (hp : 4096 ∣ p.toNat) :
    InPage p ip ↔ p.toNat ≤ ip.toNat ∧ ip.toNat < p.toNat + 4096 := by
  rw [InPage]
  omega

/-! ### What the loops do -/

/-- The slots after the loop over the links. -/
lemma foldl_linkLazyJIT (links : List (ℕ × ℕ)) (s : Slots) (slot : ℕ) :
    links.foldl (fun s e => Slots.linkLazyJIT s e.2) s slot =
      if slot ∈ links.map Prod.snd then (s slot).map fun sl => { sl with code := .lazyLink }
      else s slot := by
  induction links generalizing s with
  | nil => simp
  | cons e links ih =>
    rw [List.foldl_cons, ih, List.map_cons]
    by_cases he : slot = e.2
    · subst he
      rw [if_pos List.mem_cons_self, Slots.linkLazyJIT, Function.update_self, Option.map_map,
        ite_eq_right_iff]
      exact fun _ => rfl
    · have hmem : slot ∈ e.2 :: links.map Prod.snd ↔ slot ∈ links.map Prod.snd := by simp [he]
      simp only [Slots.linkLazyJIT, Function.update_of_ne he, hmem]

/-- What a completed invalidation has changed. -/
structure Erased (p : BitVec 32) (c : TCache) (s : Slots) (c' : TCache) (s' : Slots) : Prop where
  full : ∀ i, (c.l1_cache i).isSome
  map : ∀ k, c'.tcache_map.find k =
    if p.toNat < k ∧ k < p.toNat + 4096 then none else c.tcache_map.find k
  l1 : ∀ i, c'.l1_cache i = (c.l1_cache i).filter fun tb => !InPage p tb.ip
  brind : ∀ i, c'.l1_brind_cache i =
    if InPage p (c.l1_brind_cache i).gip then ⟨0, none⟩ else c.l1_brind_cache i
  links : ∀ e, e ∈ c'.link_map.entries ↔
    e ∈ c.link_map.entries ∧ ¬ (p.toNat < e.1 ∧ e.1 < p.toNat + 4096)
  relinked : ∀ k slot, (k, slot) ∈ c.link_map.entries → p.toNat < k ∧ k < p.toNat + 4096 →
    s' slot = (s slot).map fun sl => { sl with code := .lazyLink }
  kept : ∀ slot, (∀ k, (k, slot) ∈ c.link_map.entries → ¬ (p.toNat < k ∧ k < p.toNat + 4096)) →
    s' slot = s slot

lemma erased_of_invalidatePage (h : c.invalidatePage s p = some (c', s')) : Erased p c s c' s' := by
  rw [invalidatePage] at h
  obtain ⟨⟨links, link_map⟩, hlinks, h⟩ := Option.bind_eq_some_iff.mp h
  obtain ⟨tcache_map, hmap, h⟩ := Option.bind_eq_some_iff.mp h
  split at h
  · rename_i hfull
    cases h
    have hmem := OrdMultimap.mem_eraseRange hlinks
    refine ⟨hfull, fun k => OrdMap.find_eraseRange hmap, fun i => rfl, fun i => rfl,
      fun e => (hmem e).2, fun k slot hk hlt => ?_, fun slot hnot => ?_⟩
    · rw [foldl_linkLazyJIT, if_pos]
      exact List.mem_map.mpr ⟨(k, slot), (hmem _).1.mpr ⟨hk, hlt⟩, rfl⟩
    · rw [foldl_linkLazyJIT, if_neg]
      rintro hsl
      obtain ⟨⟨k, slot'⟩, he, rfl⟩ := List.mem_map.mp hsl
      obtain ⟨hk, hlt⟩ := (hmem _).1.mp he
      exact hnot k hk hlt
  · cases h

/-- When the invalidation completes. -/
lemma invalidatePage_isSome : (∃ r, c.invalidatePage s p = some r) ↔
    (∀ i, (c.l1_cache i).isSome) ∧ (∃ e ∈ c.tcache_map.entries, p.toNat + 4096 ≤ e.1) ∧
      ∃ e ∈ c.link_map.entries, p.toNat + 4096 ≤ e.1 := by
  have hlt : p.toNat < p.toNat + 4096 := by omega
  rw [← OrdMap.isSome_eraseRange hlt, ← OrdMultimap.isSome_eraseRange hlt]
  constructor
  · rintro ⟨⟨c', s'⟩, h⟩
    have hfull := (erased_of_invalidatePage h).full
    rw [invalidatePage] at h
    obtain ⟨links, hlinks, h⟩ := Option.bind_eq_some_iff.mp h
    obtain ⟨tcache_map, hmap, -⟩ := Option.bind_eq_some_iff.mp h
    exact ⟨hfull, ⟨_, hmap⟩, ⟨_, hlinks⟩⟩
  · rintro ⟨hfull, ⟨m, hm⟩, ⟨⟨links, l⟩, hl⟩⟩
    simp only [invalidatePage, hl, hm, Option.bind_eq_bind, Option.bind_some, if_pos hfull]
    exact ⟨_, rfl⟩

/-! ### The invariant -/

/-- Links lead to where their slots go on, so a slot is in the links of one address only. -/
lemma WF.link_key (h : WF c s) {k k' slot : ℕ} (hk : (k, slot) ∈ c.link_map.entries)
    (hk' : (k', slot) ∈ c.link_map.entries) : k = k' := by
  obtain ⟨tb, -, h1, h2⟩ := h.links k slot hk
  obtain ⟨tb', -, h1', h2'⟩ := h.links k' slot hk'
  rw [h2, Option.some.injEq, BranchSlot.mk.injEq] at h2'
  rw [h1, h1', h2'.2]

/-- Blocks outside the page are still found. -/
lemma Erased.live (he : Erased p c s c' s') (hl : c.Live tb)
    (hout : ¬ (p.toNat < tb.ip.toNat ∧ tb.ip.toNat < p.toNat + 4096)) : c'.Live tb := by
  rw [live_iff, he.map, if_neg hout]
  exact hl

lemma WF.invalidatePage (h : WF c s) (hp : 4096 ∣ p.toNat)
    (hinv : c.invalidatePage s p = some (c', s')) : WF c' s' := by
  have he := erased_of_invalidatePage hinv
  have hnot : ∀ ip : BitVec 32, ¬ InPage p ip →
      ¬ (p.toNat < ip.toNat ∧ ip.toNat < p.toNat + 4096) := by
    intro ip hip hlt
    exact hip ((inPage_iff hp).mpr ⟨hlt.1.le, hlt.2⟩)
  refine ⟨fun k tb hk => ?_, fun i tb hi => ?_, fun i => ?_, fun k slot hk => ?_,
    fun slot sl ptr hs hcode => ?_⟩
  · rw [he.map] at hk
    split at hk
    · cases hk
    · exact h.keyed k tb hk
  · rw [he.l1, Option.filter_eq_some_iff] at hi
    obtain ⟨h1, h2⟩ := h.l1 i tb hi.1
    exact ⟨he.live h1 (hnot _ (by simpa using hi.2)), h2⟩
  · rw [he.brind]
    split
    · exact Or.inl rfl
    · rename_i hout
      rcases h.brind i with hempty | ⟨tb, h1, h2, h3⟩
      · exact Or.inl hempty
      · rw [h3] at hout
        exact Or.inr ⟨tb, he.live h1 (hnot _ hout), h2, h3⟩
  · obtain ⟨hmem, hout⟩ := (he.links _).mp hk
    obtain ⟨tb, h1, h2, h3⟩ := h.links k slot hmem
    refine ⟨tb, he.live h1 (by rw [← h2]; exact hout), h2, ?_⟩
    rw [he.kept, h3]
    intro k' hk'
    rwa [← h.link_key hmem hk']
  · by_cases hlink : ∃ k, (k, slot) ∈ c.link_map.entries ∧ p.toNat < k ∧ k < p.toNat + 4096
    · obtain ⟨k, hk, hlt⟩ := hlink
      rw [he.relinked k slot hk hlt] at hs
      obtain ⟨sl', -, heq⟩ := Option.map_eq_some_iff.mp hs
      rw [← heq] at hcode
      cases hcode
    · rw [he.kept slot fun k hk hlt => hlink ⟨k, hk, hlt⟩] at hs
      have hmem := h.slots slot sl ptr hs hcode
      exact (he.links _).mpr ⟨hmem, fun hlt => hlink ⟨_, hmem, hlt⟩⟩

/-- Every reachable state is well-formed. -/
theorem Reachable.wf (h : Reachable c s) : WF c s := by
  induction h with
  | init => exact .init
  | emit _ hnone ih =>
    rename_i c s slot gip _
    refine ih.emit fun slot' => ?_
    by_cases hsl : slot' = slot
    · subst hsl
      exact Or.inr ⟨hnone, gip, Function.update_self _ _ _⟩
    · exact Or.inl (Function.update_of_ne hsl _ _)
  | lookup ip _ ih => exact ih.lookup ip
  | insert _ hnone ih =>
    rename_i c s tb _
    have hfull : c.lookupFull tb.ip = none := by rw [← ih.lookup_fst, hnone]
    refine (ih.lookup tb.ip).insert ?_
    rcases lookup_snd (c := c) tb.ip with heq | ⟨tb', hf, heq⟩
    · rw [heq, hfull]
    · rw [hf] at hfull
      cases hfull
  | cacheBrind _ hl ih => exact ih.cacheBrind hl
  | link _ hl hs ih => exact ih.link hl hs
  | invalidate => exact .init
  | invalidatePage _ hp hinv ih => exact ih.invalidatePage hp hinv

/-! ### Purging a page -/

/-- From `c` and `s` to `c'` and `s'` exactly the blocks of the page have been forgotten. -/
structure Purged (p : BitVec 32) (c : TCache) (s : Slots) (c' : TCache) (s' : Slots) : Prop where
  map : ∀ k tb, c'.tcache_map.find k = some tb → ¬ InPage p tb.ip
  l1 : ∀ i tb, c'.l1_cache i = some tb → ¬ InPage p tb.ip
  brind : ∀ i ptr, (c'.l1_brind_cache i).code = some ptr → ¬ InPage p (c'.l1_brind_cache i).gip
  slots : ∀ slot sl, s slot = some sl → InPage p sl.gip → s' slot = some ⟨.lazyLink, sl.gip⟩
  keepMap : ∀ ip, ¬ InPage p ip → c'.lookupFull ip = c.lookupFull ip
  keepL1 : ∀ i tb, ¬ InPage p tb.ip → (c'.l1_cache i = some tb ↔ c.l1_cache i = some tb)
  keepBrind : ∀ i, ¬ InPage p (c.l1_brind_cache i).gip →
    c'.l1_brind_cache i = c.l1_brind_cache i
  keepLinks : ∀ (ip : BitVec 32) slot, ¬ InPage p ip →
    ((ip.toNat, slot) ∈ c'.link_map.entries ↔ (ip.toNat, slot) ∈ c.link_map.entries)
  keepSlots : ∀ slot sl, s slot = some sl → ¬ InPage p sl.gip → s' slot = some sl

/-- The invalidation completes and has purged the page. -/
def Invalidates (c : TCache) (s : Slots) (p : BitVec 32) : Prop :=
  ∃ c' s', c.invalidatePage s p = some (c', s') ∧ Purged p c s c' s'

/-- Without a block at the first address of the page, what completes has purged it. -/
lemma Erased.purged (h : WF c s) (hp : 4096 ∣ p.toNat) (hfirst : c.lookupFull p = none)
    (he : Erased p c s c' s') : Purged p c s c' s' := by
  have hin : ∀ ip : BitVec 32, InPage p ip → ip ≠ p →
      p.toNat < ip.toNat ∧ ip.toNat < p.toNat + 4096 := by
    intro ip hip hne
    have hne' : ip.toNat ≠ p.toNat := fun heq => hne (BitVec.eq_of_toNat_eq heq)
    have := (inPage_iff hp).mp hip
    omega
  have hout : ∀ ip : BitVec 32, ¬ InPage p ip →
      ¬ (p.toNat < ip.toNat ∧ ip.toNat < p.toNat + 4096) := by
    intro ip hip hlt
    exact hip ((inPage_iff hp).mpr ⟨hlt.1.le, hlt.2⟩)
  -- no block of the map, and so no link, has the first address of the page
  have hnolink : ∀ slot, (p.toNat, slot) ∉ c.link_map.entries := by
    intro slot hmem
    obtain ⟨tb, h1, h2, -⟩ := h.links _ slot hmem
    rw [Live, show tb.ip = p from (BitVec.eq_of_toNat_eq h2).symm, hfirst] at h1
    cases h1
  refine ⟨fun k tb hk hip => ?_, fun i tb hi => ?_, fun i ptr hi => ?_, fun slot sl hs hip => ?_,
    fun ip hip => ?_, fun i tb hip => ?_, fun i hip => ?_, fun ip slot hip => ?_,
    fun slot sl hs hip => ?_⟩
  · rw [he.map] at hk
    split at hk
    · cases hk
    · rename_i hnot
      obtain rfl := h.keyed k tb hk
      refine hnot (hin _ hip ?_)
      rintro heq
      rw [heq] at hk
      rw [show c.tcache_map.find p.toNat = none from hfirst] at hk
      cases hk
  · rw [he.l1, Option.filter_eq_some_iff] at hi
    simpa using hi.2
  · rw [he.brind] at hi ⊢
    split at hi
    · cases hi
    · rename_i hip
      rw [if_neg hip]
      exact hip
  · obtain ⟨code, gip⟩ := sl
    cases code with
    | lazyLink =>
      by_cases hlink : ∃ k, (k, slot) ∈ c.link_map.entries ∧ p.toNat < k ∧ k < p.toNat + 4096
      · obtain ⟨k, hk, hlt⟩ := hlink
        rw [he.relinked k slot hk hlt, hs]
        rfl
      · rw [he.kept slot fun k hk hlt => hlink ⟨k, hk, hlt⟩, hs]
    | jump ptr =>
      have hmem := h.slots slot _ ptr hs rfl
      have hne : gip ≠ p := by
        rintro rfl
        exact hnolink slot hmem
      rw [he.relinked _ slot hmem (hin _ hip hne), hs]
      rfl
  · rw [lookupFull, he.map, if_neg (hout ip hip)]
    rfl
  · rw [he.l1, Option.filter_eq_some_iff]
    simp [hip]
  · rw [he.brind, if_neg hip]
  · rw [he.links]
    exact ⟨fun hm => hm.1, fun hm => ⟨hm, hout ip hip⟩⟩
  · rw [he.kept, hs]
    intro k hmem hlt
    obtain ⟨tb, -, h2, h3⟩ := h.links k slot hmem
    rw [hs] at h3
    cases h3
    rw [h2] at hlt
    exact hout _ hip hlt

/-- The invalidation of a page completes and purges the page if and only if the first cache has no
empty entry, both maps go on behind the page, and no block starts at its first address. -/
theorem invalidates_iff (h : Reachable c s) (hp : 4096 ∣ p.toNat) :
    Invalidates c s p ↔
      (∀ i, (c.l1_cache i).isSome) ∧ (∃ e ∈ c.tcache_map.entries, p.toNat + 4096 ≤ e.1) ∧
        (∃ e ∈ c.link_map.entries, p.toNat + 4096 ≤ e.1) ∧ c.lookupFull p = none := by
  constructor
  · rintro ⟨c', s', hinv, hpurged⟩
    obtain ⟨h1, h2, h3⟩ := invalidatePage_isSome.mp ⟨_, hinv⟩
    refine ⟨h1, h2, h3, ?_⟩
    cases hf : c.lookupFull p with
    | none => rfl
    | some tb =>
      -- the block at the first address is still there
      have hip : tb.ip = p := (BitVec.eq_of_toNat_eq (h.wf.keyed _ tb hf)).symm
      have hf' : c'.tcache_map.find p.toNat = some tb := by
        rw [(erased_of_invalidatePage hinv).map, if_neg (by omega)]
        exact hf
      exact absurd ((inPage_iff hp).mpr (by rw [hip]; omega)) (hpurged.map _ tb hf')
  · rintro ⟨h1, h2, h3, hfirst⟩
    obtain ⟨⟨c', s'⟩, hinv⟩ := invalidatePage_isSome.mpr ⟨h1, h2, h3⟩
    exact ⟨c', s', hinv, (erased_of_invalidatePage hinv).purged h.wf hp hfirst⟩

/-- In the empty cache the invalidation of a page does not complete. -/
theorem not_invalidates_init : Reachable init (fun _ => none) ∧
    ¬ Invalidates init (fun _ => none) 0x1000 := by
  refine ⟨.init, ?_⟩
  rintro ⟨c', s', hinv, -⟩
  exact absurd ((erased_of_invalidatePage hinv).full 0) (by decide)

/-! ### A page that is invalidated -/

/-- The blocks at the words behind 0x4000. -/
def wordBlock (i : ℕ) : TBlock := ⟨i, ⟨i, 1⟩, .ofNat 32 (0x4004 + 4 * i)⟩

lemma toNat_wordBlock {i : ℕ} (hi : i < 4096) : (wordBlock i).ip.toNat = 0x4004 + 4 * i := by
  rw [wordBlock, BitVec.toNat_ofNat]
  omega

lemma l1hash_wordBlock {i : ℕ} (hi : i < 4096) :
    (l1hash (wordBlock i).ip).toNat = (i + 1) % 4096 := by
  rw [l1hash, BitVec.toNat_setWidth, BitVec.toNat_ushiftRight, toNat_wordBlock hi,
    Nat.shiftRight_eq_div_pow]
  omega

/-- The first `n` of the blocks are all that is known. -/
structure Filled (n : ℕ) (c : TCache) : Prop where
  live : ∀ i < n, c.Live (wordBlock i)
  l1 : ∀ i < n, (c.l1_cache (l1hash (wordBlock i).ip)).isSome
  others : ∀ ip : BitVec 32, (∀ i < n, (wordBlock i).ip ≠ ip) → c.lookupFull ip = none

lemma Filled.insert {n : ℕ} (h : Filled n c) (hc : Reachable c s) (hn : n < 4096) :
    (c.lookup (wordBlock n).ip).1 = none ∧
      Filled (n + 1) ((c.lookup (wordBlock n).ip).2.insert (wordBlock n)) := by
  have hne : ∀ i < n, (wordBlock i).ip ≠ (wordBlock n).ip := by
    intro i hi heq
    have := congrArg BitVec.toNat heq
    rw [toNat_wordBlock (by omega), toNat_wordBlock hn] at this
    omega
  have hnone : c.lookupFull (wordBlock n).ip = none := h.others _ hne
  have hsame : (c.lookup (wordBlock n).ip).2 = c := by
    rcases lookup_snd (c := c) (wordBlock n).ip with heq | ⟨tb, htb, -⟩
    · exact heq
    · rw [hnone] at htb
      cases htb
  rw [hsame]
  refine ⟨by rw [hc.wf.lookup_fst, hnone], fun i hi => ?_, fun i hi => ?_, fun ip hip => ?_⟩
  · rcases Nat.lt_succ_iff_lt_or_eq.mp hi with hi | rfl
    · exact (h.live i hi).insert hnone
    · rw [live_iff, TCache.insert, OrdMap.find_insert hnone, if_pos rfl]
  · by_cases hh : l1hash (wordBlock i).ip = l1hash (wordBlock n).ip
    · simp [TCache.insert, hh]
    · rcases Nat.lt_succ_iff_lt_or_eq.mp hi with hi | rfl
      · simp only [TCache.insert, Function.update_of_ne hh]
        exact h.l1 i hi
      · exact absurd rfl hh
  · have hn' : ip.toNat ≠ (wordBlock n).ip.toNat := fun heq =>
      hip n (Nat.lt_succ_self n) (BitVec.eq_of_toNat_eq heq.symm)
    rw [lookupFull, TCache.insert, OrdMap.find_insert hnone, if_neg hn']
    exact h.others ip fun i hi => hip i (Nat.lt_succ_of_lt hi)

/-- The blocks can all be inserted, one after the other. -/
lemma exists_filled {n : ℕ} (hn : n ≤ 4096) :
    ∃ c, Reachable c (fun _ => none) ∧ Filled n c := by
  induction n with
  | zero => exact ⟨init, .init, ⟨by simp, by simp, fun _ _ => rfl⟩⟩
  | succ n ih =>
    obtain ⟨c, hc, hf⟩ := ih (Nat.le_of_succ_le hn)
    obtain ⟨hmiss, hf'⟩ := hf.insert hc hn
    exact ⟨_, hc.insert hmiss, hf'⟩

/-- Two slots that are linked, the first one to a block in the page. -/
theorem invalidates_iff_filled : ∃ c s, Reachable c s ∧ c.Live (wordBlock 0) ∧
    InPage 0x4000 (wordBlock 0).ip ∧ (0x4004, 0) ∈ c.link_map.entries ∧
    Invalidates c s 0x4000 := by
  obtain ⟨c, hc, hf⟩ := exists_filled (le_refl 4096)
  have h0 : c.Live (wordBlock 0) := hf.live 0 (by decide)
  have h1 : c.Live (wordBlock 4095) := hf.live 4095 (by decide)
  -- both slots are emitted, and then linked
  have hemit : Reachable c (Function.update (Function.update (fun _ => none) 0
      (some ⟨.lazyLink, (wordBlock 0).ip⟩)) 1 (some ⟨.lazyLink, (wordBlock 4095).ip⟩)) :=
    (hc.emit rfl).emit rfl
  have hreach : Reachable ((c.recordLink 0 (wordBlock 0)).recordLink 1 (wordBlock 4095)) _ :=
    (hemit.link h0 rfl).link h1 rfl
  have hlink : ∀ e, e = (0x4004, 0) ∨ e = (0x8000, 1) →
      e ∈ ((c.recordLink 0 (wordBlock 0)).recordLink 1 (wordBlock 4095)).link_map.entries := by
    rintro e (rfl | rfl)
    · exact OrdMultimap.mem_insert.mpr (Or.inr (OrdMultimap.mem_insert.mpr (Or.inl rfl)))
    · exact OrdMultimap.mem_insert.mpr (Or.inl rfl)
  refine ⟨_, _, hreach, h0, by decide, hlink _ (Or.inl rfl),
    (invalidates_iff hreach (by decide)).mpr ⟨fun i => ?_, ?_, ⟨_, hlink _ (Or.inr rfl), by decide⟩,
      hf.others _ fun i hi heq => ?_⟩⟩
  · -- the block whose address has the hash
    have hlt := i.isLt
    have hj : (i.toNat + 4095) % 4096 < 4096 := Nat.mod_lt _ (by decide)
    have hi : i = l1hash (wordBlock ((i.toNat + 4095) % 4096)).ip := by
      refine BitVec.eq_of_toNat_eq ?_
      rw [l1hash_wordBlock hj]
      omega
    rw [hi]
    exact hf.l1 _ hj
  · exact ⟨_, OrdMap.find_eq_some.mp h1, by decide⟩
  · have hne : (wordBlock i).ip.toNat = 0x4000 := congrArg BitVec.toNat heq
    rw [toNat_wordBlock hi] at hne
    omega

end Rv32jit.Runtime.TCache
