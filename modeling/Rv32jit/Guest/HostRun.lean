/-
# Host code runs in step with the interpreter

The machine, on the code that is generated for a job, comes by blocks to where the interpreter comes
by instructions: to the label of the block for the address that the interpreter has reached, out
of the region towards that address, or into the same trap, with the same guest state.
-/
import Rv32jit.Guest.HostCode
import Rv32jit.Guest.RegionRun

namespace Rv32jit.Translate

open Qir Insn CPUState Qcg ArchTraits Interp
open X86.Asm hiding SP CX step

section
variable (host : Host Obj RuntimeStubId) (ce : QEmit) (F : Frame) (t : Translator) (code : Code)

/-- Where the machine is when the interpreter has done `r`: at the block of the address that the
interpreter has reached, at the slot of a branch to that address, where the cache has the code for
it, behind the slow path that was called for it, or in the same trap. -/
inductive Arrives (r : Res) : Cfg Obj BranchSlot → Prop
  | «at» {b pos : ℕ} {s : QState} {x : State Obj} (htr : r.trapped = false)
      (hentry : EntryAt t b r.hart.gip) (hpos : labelPos code b = some pos)
      (hx : Qcg.Rel host ce F s x) (hr : Rel r.hart s) : Arrives r (.at pos x)
  | slot {s : QState} {y : State Obj} (htr : r.trapped = false) (hl : Left ce F s y)
      (hr : Rel r.hart s) :
      Arrives r (.data ⟨r.hart.gip, !ce.segment.inSegment r.hart.gip⟩ y)
  | cached {s : QState} {y : State Obj} (htr : r.trapped = false)
      (hgip : (y.mem (some .l1_brind_cache)).load
        (Runtime.brindOffset r.hart.gip).toNat 4 = r.hart.gip)
      (hl : Left ce F s y) (hr : Rel r.hart s) :
      Arrives r (.left (.word ((y.mem (some .l1_brind_cache)).load
        ((Runtime.brindOffset r.hart.gip).toNat + 8) 8)) y)
  | slowpath {s : QState} {z z' y : State Obj} (htr : r.trapped = false)
      (hip : ((z.regs RSI).bits host).setWidth 32 = r.hart.gip)
      (hcpu : z.mem (some .state) = s.cpu) (hmem : z.mem none = s.mem)
      (hcall : host.call .brind z = some (z', false))
      (hl : Left ce F { s with cpu := z'.mem (some .state), mem := z'.mem none } y)
      (hr : Rel r.hart s) : Arrives r (.left (z'.regs RAX) y)
  | trap {y : State Obj} (htr : r.trapped = true) (hcpu : y.mem (some .state) = r.hart.cpu)
      (hmem : y.mem none = r.hart.mem) : Arrives r (.trap y)

end

variable {prog : BitVec 32 → BitVec 32} {t : Translator} {r₁ r₂ : Region}
  {ranges : List (BitVec 32 × BitVec 32)} {range : BitVec 32 × BitVec 32} {is_leaf : Bool}
  {segment : CodeSegment} {code : Code} {helper : Helper} {host : Host Obj RuntimeStubId}
  {ce : QEmit} {F : Frame} {hart : Hart}

/-- What the guest has accessed does not matter. -/
lemma Arrives.acc {r : Res} {c : Cfg Obj BranchSlot} (h : Arrives host ce F t code r c)
    (acc : List Access) : Arrives host ce F t code { r with acc := acc } c := by
  cases h with
  | «at» htr hentry hpos hx hr => exact .at htr hentry hpos hx hr
  | slot htr hl hr => exact .slot (r := { r with acc := acc }) htr hl hr
  | cached htr hgip hl hr => exact .cached (r := { r with acc := acc }) htr hgip hl hr
  | slowpath htr hip hcpu hmem hcall hl hr => exact .slowpath htr hip hcpu hmem hcall hl hr
  | trap htr hcpu hmem => exact .trap htr hcpu hmem

lemma Rel.same {s s' : QState} (hr : Rel hart s) (h : SameState s s') : Rel hart s' :=
  hr.of_cpu h.cpu h.mem

lemma unplaced_of_virtual {r : Region} (hv : Virtual r) {blk : Block} (hb : blk ∈ r.blist) :
    ∀ ins ∈ blk.ilist, ∀ o ∈ ins.operands, Unplaced o := by
  intro ins hins o ho
  rcases List.mem_append.mp ho with ho | ho
  · have := hv.output blk hb ins hins o ho
    cases o <;> first | exact trivial | exact this.elim
  · have := hv.input blk hb ins hins o ho
    cases o <;> first | exact trivial | exact this.elim

/-- The code of a block is behind its label, and does what the translated block does. -/
lemma Passes.block (h : Passes prog ranges t r₁ r₂ is_leaf) (hno : hasConstLoad prog ranges = false)
    (hcode : (⟨segment, is_leaf⟩ : QEmit).run (numbered r₂.blist) = some code)
    (hcalls : Calls helper host) (clobber : Clobber) {b : ℕ} (hb : b < t.region.blist.length) :
    ∃ next pos, labelPos code b = some pos ∧ ∀ F s x, Qcg.Rel host ⟨segment, is_leaf⟩ F s x →
      ∃ s' c, Reaches host code (.at pos x) c ∧
        Leaves host ⟨segment, is_leaf⟩ F code ⟨t.region.blist[b].succs, next⟩
          (execList ⟨helper, clobber⟩ t.region.vregsInfo t.region.blist[b].ilist s).2.1 s' c ∧
        ((execList ⟨helper, clobber⟩ t.region.vregsInfo t.region.blist[b].ilist s).2.1 ≠ .stuck →
          SameState
            (execList ⟨helper, clobber⟩ t.region.vregsInfo t.region.blist[b].ilist s).2.2 s') := by
  obtain ⟨code', hcode', hlaid⟩ := h.laid hno hcalls segment
  obtain rfl : code = code' := Option.some.inj (hcode.symm.trans hcode')
  obtain ⟨-, hdone⟩ := h.done hno
  have hb₁ : b < r₁.blist.length := by rwa [← h.spec.length_eq]
  have hb₂ : b < r₂.blist.length := by rwa [← hdone.length_eq]
  obtain ⟨hsucc, hpieces⟩ : QSel.BlockSpec t.region.vregsInfo r₁.vregsInfo t.region.blist[b]
      r₁.blist[b] := List.Forall₂.get h.spec hb hb₁
  have hblk : QRegAlloc.BlockDone is_leaf r₁.vregsInfo r₁.blist[b] r₂.blist[b] :=
    List.Forall₂.get hdone hb₁ hb₂
  obtain ⟨pre, post, hsplit, -⟩ := numbered_split hb₂
  obtain ⟨pos, hpos, hrun⟩ := hlaid.refines _ hsplit (h.succs hno (List.getElem_mem hb₂))
  refine ⟨post.head?.map Prod.fst, pos, hpos, fun F s x hx => ?_⟩
  obtain ⟨r, c, hdoes, hreach, hleaves⟩ := hrun F s x hx
  -- back through the allocator, and then through the selection of operands
  obtain ⟨r', hdoes', hfl, hsame⟩ := hblk.does helper s s r ⟨rfl, rfl⟩ hdoes
  have hunplaced := unplaced_of_virtual h.virt (List.getElem_mem hb₁)
  obtain ⟨hfl', hsame'⟩ := Qcg.Does.execList hunplaced (g := s.preg) hdoes' clobber
  obtain ⟨-, hfl'', hsame''⟩ := hpieces.sameRun ⟨helper, clobber⟩ (Agree.refl _ s)
  rw [execList_congr h.ext.1] at hfl' hsame'
  rw [hblk.succs, hsucc, hfl, hfl', hfl''] at hleaves
  refine ⟨r.2, c, hreach, hleaves, fun hns => ?_⟩
  have h₁ := hsame'' hns
  have h₂ := hsame (by rw [hfl', hfl'']; exact hns)
  exact ⟨h₂.cpu.trans (hsame'.cpu.trans h₁.cpu), h₂.mem.trans (hsame'.mem.trans h₁.mem)⟩

/-- The state of the region that the machine is in. -/
def view (host : Host Obj RuntimeStubId) (ce : QEmit) (F : Frame) (y : State Obj) : QState where
  vreg _ := 0
  preg p := ((y.regs p).bits host).setWidth 32
  frame i := y.mem (some .stack) (F.sp + ce.spillframe_sp_offs + i)
  cpu := y.mem (some .state)
  mem := y.mem none

end Rv32jit.Translate
