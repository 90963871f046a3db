/-
# Look-ups over whole runs

`tcache::Lookup` after any sequence of the cache's operations, in which blocks are inserted as
`Execute` inserts them.  It returns the block that has been inserted for the address, and leaves no
trace that a later look-up could find.
-/
import Rv32jit.Runtime.TCache

namespace Rv32jit.Runtime

/-- The operations of the cache. -/
inductive CacheOp
  | lookup (ip : BitVec 32)
  | insert (tb : TBlock)
  | cacheBrind (tb : TBlock)
  | recordLink (slot : ℕ) (tgt : TBlock)
  | invalidate

namespace TCache

/-- One operation on the cache. -/
def step (c : TCache) : CacheOp → TCache
  | .lookup ip => (c.lookup ip).2
  | .insert tb => c.insert tb
  | .cacheBrind tb => c.cacheBrind tb
  | .recordLink slot tgt => c.recordLink slot tgt
  | .invalidate => init

/-- The operations one after another. -/
def run (c : TCache) (ops : List CacheOp) : TCache := ops.foldl step c

/-- Blocks are inserted for an address only whose look-up has just returned nothing; `missed` is
such an address. -/
def Issued : TCache → Option (BitVec 32) → List CacheOp → Prop
  | _, _, [] => True
  | c, _, .lookup ip :: ops =>
      Issued (c.lookup ip).2 (if (c.lookup ip).1 = none then some ip else none) ops
  | c, missed, .insert tb :: ops => missed = some tb.ip ∧ Issued (c.insert tb) none ops
  | c, missed, op :: ops => Issued (c.step op) missed ops

/-- What an operation makes of the block that has been inserted for `ip` since the last
`Invalidate`. -/
def inserted (ip : BitVec 32) (found : Option TBlock) : CacheOp → Option TBlock
  | .insert tb => if tb.ip = ip then some tb else found
  | .invalidate => none
  | _ => found

variable {c c' : TCache} {ip : BitVec 32} {missed : Option (BitVec 32)} {ops rest : List CacheOp}

lemma Coherent.init : TCache.init.Coherent := WF.init.coherent

/-- The address that has been missed is not in the map. -/
def Missed (c : TCache) (missed : Option (BitVec 32)) : Prop :=
  ∀ ip, missed = some ip → c.lookupFull ip = none

lemma map_lookup (c : TCache) (ip : BitVec 32) :
    (c.lookup ip).2.tcache_map = c.tcache_map := by
  rcases lookup_snd (c := c) ip with heq | ⟨tb, -, heq⟩ <;> rw [heq]

/-- The step of all runs: what an operation that has been issued leaves for the others, and what it
does to the map. -/
lemma Issued.step {op : CacheOp} (hc : c.Coherent) (hm : c.Missed missed)
    (hi : Issued c missed (op :: ops)) :
    (∃ missed', (c.step op).Missed missed' ∧ Issued (c.step op) missed' ops) ∧
      (c.step op).Coherent ∧
      ∀ ip, (c.step op).lookupFull ip = inserted ip (c.lookupFull ip) op := by
  cases op with
  | lookup ip' =>
    have hmap : (c.step (.lookup ip')).tcache_map = c.tcache_map := map_lookup c ip'
    refine ⟨⟨_, ?_, hi⟩, hc.lookup ip', fun ip => ?_⟩
    · intro ip hip
      split at hip
      · rename_i hnone
        cases hip
        rw [lookupFull, hmap]
        exact (hc.lookup_fst ip').symm.trans hnone
      · cases hip
    · rw [lookupFull, hmap]
      rfl
  | insert tb =>
    have hnone := hm _ hi.1
    refine ⟨⟨none, (fun _ h => by cases h), hi.2⟩, hc.insert hnone, fun ip => ?_⟩
    have hfind : (c.step (.insert tb)).lookupFull ip =
        if ip.toNat = tb.ip.toNat then some tb else c.lookupFull ip := OrdMap.find_insert hnone
    rw [hfind]
    show _ = if tb.ip = ip then some tb else c.lookupFull ip
    simp only [BitVec.toNat_inj, eq_comm]
  | cacheBrind tb => exact ⟨⟨missed, hm, hi⟩, ⟨hc.keyed, hc.l1⟩, fun _ => rfl⟩
  | recordLink slot tgt => exact ⟨⟨missed, hm, hi⟩, ⟨hc.keyed, hc.l1⟩, fun _ => rfl⟩
  | invalidate => exact ⟨⟨missed, fun _ _ => rfl, hi⟩, .init, fun _ => rfl⟩

/-- A run, from which others can follow. -/
lemma Issued.run (hc : c.Coherent) (hm : c.Missed missed) (hi : Issued c missed (ops ++ rest)) :
    (∃ missed', (c.run ops).Missed missed' ∧ Issued (c.run ops) missed' rest) ∧
      (c.run ops).Coherent ∧
      ∀ ip, (c.run ops).lookupFull ip = ops.foldl (inserted ip) (c.lookupFull ip) := by
  induction ops generalizing c missed with
  | nil => exact ⟨⟨missed, hm, hi⟩, hc, fun _ => rfl⟩
  | cons op ops ih =>
    obtain ⟨⟨missed', hm', hi'⟩, hc', hfind⟩ := Issued.step hc hm hi
    obtain ⟨hnext, hcoh, hfinds⟩ := ih hc' hm' hi'
    refine ⟨hnext, hcoh, fun ip => ?_⟩
    rw [TCache.run, List.foldl_cons]
    exact (hfinds ip).trans (congrArg (List.foldl (inserted ip) · ops) (hfind ip))

/-- The operations make the same of equal maps, whatever the caches in front of them hold. -/
lemma Issued.run_of_map (hc : c.Coherent) (hc' : c'.Coherent)
    (hmap : c'.tcache_map = c.tcache_map) (hm : c.Missed missed) (hi : Issued c missed ops) :
    (c'.run ops).Coherent ∧ (c'.run ops).tcache_map = (c.run ops).tcache_map := by
  induction ops generalizing c c' missed with
  | nil => exact ⟨hc', hmap⟩
  | cons op ops ih =>
    obtain ⟨⟨missed', hm', hi'⟩, hcoh, -⟩ := Issued.step hc hm hi
    have hstep : (c'.step op).Coherent ∧ (c'.step op).tcache_map = (c.step op).tcache_map := by
      cases op with
      | lookup ip =>
        exact ⟨hc'.lookup ip, (map_lookup c' ip).trans (hmap.trans (map_lookup c ip).symm)⟩
      | insert tb =>
        have hnone : c'.lookupFull tb.ip = none := by
          rw [lookupFull, hmap]
          exact hm _ hi.1
        refine ⟨hc'.insert hnone, ?_⟩
        show c'.tcache_map.insert tb.ip.toNat tb = c.tcache_map.insert tb.ip.toNat tb
        rw [hmap]
      | cacheBrind tb => exact ⟨⟨hc'.keyed, hc'.l1⟩, hmap⟩
      | recordLink slot tgt => exact ⟨⟨hc'.keyed, hc'.l1⟩, hmap⟩
      | invalidate => exact ⟨.init, rfl⟩
    exact ih hcoh hstep.1 hstep.2 hm' hi'

/-- After any operations that have been issued, a look-up returns the block that has been inserted
for the address since the last `Invalidate`, as a search of the map does; and with it or without
it, all later look-ups return the same. -/
theorem lookup_run (ops rest : List CacheOp) (ip : BitVec 32)
    (hi : Issued init none (ops ++ .lookup ip :: rest)) :
    ((init.run ops).lookup ip).1 = (init.run ops).lookupFull ip ∧
      ((init.run ops).lookup ip).1 = ops.foldl (inserted ip) none ∧
      ∀ ip', ((init.run (ops ++ .lookup ip :: rest)).lookup ip').1 =
        ((init.run (ops ++ rest)).lookup ip').1 := by
  have hmiss : init.Missed none := fun _ h => by cases h
  obtain ⟨⟨missed, hm, hi'⟩, hc, hfind⟩ := Issued.run .init hmiss hi
  refine ⟨hc.lookup_fst ip, (hc.lookup_fst ip).trans (hfind ip), fun ip' => ?_⟩
  obtain ⟨⟨missed', hm', hi''⟩, hc', -⟩ := Issued.step hc hm hi'
  obtain ⟨hc1, hmap⟩ :=
    Issued.run_of_map hc' hc (map_lookup (init.run ops) ip).symm hm' hi''
  have hc2 := (Issued.run_of_map hc' hc' rfl hm' hi'').1
  rw [TCache.run, TCache.run, List.foldl_append, List.foldl_append, List.foldl_cons]
  refine (hc2.lookup_fst ip').trans (Eq.trans ?_ (hc1.lookup_fst ip').symm)
  exact congrArg (OrdMap.find · ip'.toNat) hmap.symm

/-- Two blocks with addresses that collide in the cache. -/
def collideOps : List CacheOp :=
  [.lookup 0x10000, .insert ⟨0, ⟨0, 16⟩, 0x10000⟩, .lookup 0x14000, .insert ⟨32, ⟨16, 16⟩, 0x14000⟩]

theorem lookup_run_collide :
    ((init.run collideOps).lookup 0x10000).1 = some ⟨0, ⟨0, 16⟩, 0x10000⟩ ∧
      ((init.run (collideOps ++ [.lookup 0x10000])).lookup 0x14000).1 =
        ((init.run collideOps).lookup 0x14000).1 := by
  have hi : Issued init none (collideOps ++ [.lookup 0x10000]) := ⟨rfl, rfl, trivial⟩
  obtain ⟨-, h1, h2⟩ := lookup_run collideOps [] 0x10000 hi
  exact ⟨h1, h2 0x14000⟩

end TCache

end Rv32jit.Runtime
