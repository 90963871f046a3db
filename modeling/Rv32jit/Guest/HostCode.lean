/-
# The host code of a job

The emitter has code for what the allocator makes of a translated job, unless some word of the job
is a load to `x0` from the constant address zero.  The code of each block does what the translated
block does, whatever the calls leave in the registers that they destroy.
-/
import Rv32jit.Codegen.EmitFrame
import Rv32jit.Codegen.HostBlocks
import Rv32jit.Guest.PlainCode

namespace Rv32jit.Translate

open Qir Insn CPUState Qcg
open X86.Asm (Host State Cfg Reaches labelPos)

variable {prog : BitVec 32 → BitVec 32} {t : Translator} {r₁ r₂ : Region}
  {info : MachineRegionInfo} {ranges : List (BitVec 32 × BitVec 32)}
  {range : BitVec 32 × BitVec 32} {segment : CodeSegment} {code : Code}

/-! ### The passes -/

/-- A job behind the selection of operands and behind register allocation. -/
structure Passes (prog : BitVec 32 → BitVec 32) (ranges : List (BitVec 32 × BitVec 32))
    (t : Translator) (r₁ r₂ : Region) (is_leaf : Bool) : Prop extends Translated prog ranges t where
  fits : t.region.vregsInfo.numAll ≤ 2 ^ 16
  wellFormed : WellFormed r₁
  allocatable : Allocatable r₁
  virt : Virtual r₁
  sized : Sized r₁.vregsInfo
  ext : t.region.vregsInfo.Extends r₁.vregsInfo
  spec : List.Forall₂ (QSel.BlockSpec t.region.vregsInfo r₁.vregsInfo) t.region.blist r₁.blist
  leaf : ∀ blk ∈ r₁.blist, ∀ ins ∈ blk.ilist, ins.op.hasCalls = true → is_leaf = false
  alloc : QRegAlloc.run r₁ = some r₂
  plain : hasConstLoad prog ranges = false → ∀ blk ∈ r₁.blist, ∀ ins ∈ blk.ilist, Plain ins
  constLoad : hasConstLoad prog ranges = true → ∃ blk ∈ r₁.blist, ∃ ins ∈ blk.ilist, ConstLoad ins

/-- The blocks as the emitter gets them. -/
def numbered (bs : List Block) : List (ℕ × Block) := bs.zipIdx.map Prod.swap

lemma fst_numbered (bs : List Block) : (numbered bs).map Prod.fst = List.range bs.length := by
  rw [numbered, List.map_map, List.range_eq_range']
  exact List.zipIdx_map_snd 0 bs

lemma mem_numbered {bs : List Block} {p : ℕ × Block} (h : p ∈ numbered bs) : p.2 ∈ bs := by
  obtain ⟨q, hq, rfl⟩ := List.mem_map.mp h
  exact List.fst_mem_of_mem_zipIdx hq

lemma numbered_split {bs : List Block} {b : ℕ} (hb : b < bs.length) :
    ∃ pre post, numbered bs = pre ++ (b, bs[b]) :: post ∧ pre.length = b := by
  have hlen : b < (numbered bs).length := by simpa [numbered] using hb
  refine ⟨(numbered bs).take b, (numbered bs).drop (b + 1), ?_,
    List.length_take_of_le hlen.le⟩
  have hget : (numbered bs)[b] = (b, bs[b]) := by simp [numbered]
  rw [← hget, ← List.drop_eq_getElem_cons hlen, List.take_append_drop]

namespace Passes

variable {is_leaf : Bool}

lemma done (h : Passes prog ranges t r₁ r₂ is_leaf) (hno : hasConstLoad prog ranges = false) :
    r₂.vregsInfo = r₁.vregsInfo ∧
      List.Forall₂ (QRegAlloc.BlockDone is_leaf r₁.vregsInfo) r₁.blist r₂.blist :=
  run_regAlloc_done h.allocatable h.virt h.sized (h.plain hno) h.leaf h.alloc

/-- The successors of an allocated block are blocks. -/
lemma succs (h : Passes prog ranges t r₁ r₂ is_leaf) (hno : hasConstLoad prog ranges = false)
    {blk : Block} (hblk : blk ∈ r₂.blist) :
    ∀ b ∈ blk.succs, b ∈ (numbered r₂.blist).map Prod.fst := by
  obtain ⟨-, hall⟩ := h.done hno
  obtain ⟨blk₁, hmem, hdone⟩ := QSel.forall₂_mem_right hall hblk
  intro b hb
  rw [fst_numbered, List.mem_range, ← hall.length_eq]
  exact h.wellFormed.succs blk₁ hmem b (by rwa [← hdone.succs])

/-- The code of the blocks is emitted, and it does what the allocated blocks do. -/
lemma laid (h : Passes prog ranges t r₁ r₂ is_leaf)
    (hno : hasConstLoad prog ranges = false) {helper : Helper} {host : Host Obj RuntimeStubId}
    (hcalls : Calls helper host) (segment : CodeSegment) :
    ∃ code, (⟨segment, is_leaf⟩ : QEmit).run (numbered r₂.blist) = some code ∧
      Laid helper host ⟨segment, is_leaf⟩ r₁.vregsInfo (numbered r₂.blist) code := by
  obtain ⟨-, hall⟩ := h.done hno
  refine laid_run r₁.vregsInfo hcalls ?_ fun p hp => ?_
  · rw [fst_numbered, numbered, List.length_map, List.length_zipIdx]
  · obtain ⟨blk, hmem, hdone⟩ := QSel.forall₂_mem_right hall (mem_numbered hp)
    obtain ⟨body, last, hterm⟩ := h.wellFormed.terminated blk hmem
    obtain ⟨body', last', hterm'⟩ := hdone.emits.terminated hdone.succs hterm
    exact hterm'.emittable hdone.emits.constrained

end Passes

end Rv32jit.Translate
