/-
# Whole runs of an allocated region

The allocator's result on blocks and regions, and its correctness over any number of blocks.
-/
import Rv32jit.Codegen.RegAllocCorrect

namespace Rv32jit.Qcg

open Qir ArchTraits

/-! ### Regions before the allocation -/

/-- The virtual registers that the code of a region names. -/
def Named (r : Region) (v : ℕ) : Prop :=
  ∃ blk ∈ r.blist, ∃ ins ∈ blk.ilist, ∃ t, VOperand.vgpr t v ∈ ins.operands

/-- Every local register of the list is written before it is read; `W` holds those that have
been written earlier. -/
def LocalsWritten (vi : VRegsInfo) : (ℕ → Prop) → List Inst → Prop
  | _, [] => True
  | W, ins :: rest =>
      (∀ t v, VOperand.vgpr t v ∈ ins.i → vi.isGlobal v = false → W v) ∧
        LocalsWritten vi (QRegAlloc.Written W ins.o) rest

/-- The block ends in a terminator or in a call. -/
def EndsInExit (blk : Block) : Prop :=
  ∃ ins, blk.ilist.getLast? = some ins ∧ (ins.op.isTerminator || ins.op.hasCalls) = true

/-- What the passes before the allocator establish. -/
structure Allocatable (r : Region) : Prop where
  selected : ∀ blk ∈ r.blist, ∀ ins ∈ blk.ilist, Selected ins
  written : ∀ blk ∈ r.blist, LocalsWritten r.vregsInfo (fun _ => False) blk.ilist
  ends : ∀ blk ∈ r.blist, EndsInExit blk

/-- An input of code on virtual registers: a register is read at its type or a narrower one, a
slot belongs to the CPU state and is no home of a register that the region names. -/
def VirtualInput (r : Region) : VOperand → Prop
  | .vgpr t v => ∃ t₀, r.vregsInfo.vregType v = some t₀ ∧ t.toSize ≤ t₀.toSize
  | .slot g t o => QRegAlloc.SlotApart r.vregsInfo (Named r) g t o
  | .pgpr _ _ => False
  | .const _ _ | .bad => True

/-- An output of code on virtual registers: a register is written at its type. -/
def VirtualOutput (r : Region) : VOperand → Prop
  | .vgpr t v => r.vregsInfo.vregType v = some t
  | .slot g t o => QRegAlloc.SlotApart r.vregsInfo (Named r) g t o
  | .pgpr _ _ => False
  | .const _ _ | .bad => True

/-- A region over virtual registers; calls have a constant argument. -/
structure Virtual (r : Region) : Prop where
  input : ∀ blk ∈ r.blist, ∀ ins ∈ blk.ilist, ∀ o ∈ ins.i, VirtualInput r o
  output : ∀ blk ∈ r.blist, ∀ ins ∈ blk.ilist, ∀ o ∈ ins.o, VirtualOutput r o
  arg : ∀ blk ∈ r.blist, ∀ ins ∈ blk.ilist, ins.op.hasCalls = true → ∀ o ∈ ins.i,
    o.isConst = true

namespace QRegAlloc

variable {env : HelperEnv} {vi : VRegsInfo} {N W W' : ℕ → Prop} {ra ra' ra'' : QRegAlloc}

/-! ### The start -/

/-- The tracks that a loop of the constructor adds. -/
lemma foldlM_addTrack {α : Type} (f : α → RTrack) {l : List α}
    (h : l.foldlM (fun ra a => addTrack (f a) ra) ra = some ra') :
    ra'.nVregs = ra.nVregs + l.length ∧ ra'.p2v = ra.p2v ∧ ra'.frameCur = ra.frameCur ∧
      ∀ v, ra'.vregs v = if v < ra.nVregs then ra.vregs v
        else ((l[v - ra.nVregs]?).map f).getD (ra.vregs v) := by
  induction l generalizing ra with
  | nil =>
    rw [FoldM.foldlM_nil_eq_some] at h
    subst h
    simp
  | cons a l ih =>
    obtain ⟨ra1, h1, h2⟩ := FoldM.foldlM_cons_eq_some.mp h
    simp only [addTrack] at h1
    split at h1
    · cases h1
    cases h1
    obtain ⟨hn, hp, hf, hv⟩ := ih h2
    refine ⟨by simp only [hn, List.length_cons]; omega, hp, hf, fun v => ?_⟩
    rw [hv v]
    rcases Nat.lt_trichotomy v ra.nVregs with hlt | rfl | hgt
    · simp [show v < ra.nVregs + 1 by omega, hlt, setTrack,
        show v ≠ ra.nVregs by omega]
    · simp [setTrack]
    · obtain ⟨k, rfl⟩ : ∃ k, v = ra.nVregs + 1 + k := ⟨v - ra.nVregs - 1, by omega⟩
      have hk : ra.nVregs + 1 + k - ra.nVregs = k + 1 := by omega
      have hge : ¬ ra.nVregs + 1 + k ≤ ra.nVregs := by omega
      have hlt : ¬ ra.nVregs + 1 + k < ra.nVregs := by omega
      have hne : ra.nVregs + 1 + k ≠ ra.nVregs := by omega
      simp [setTrack, hk, hge, hlt, hne]

/-- The tracks after the constructor. -/
lemma init_spec (h : init vi = some ra) :
    ra.nVregs = vi.numAll ∧ (∀ p, ra.p2v p = none) ∧ ra.frameCur = 0 ∧
      ∀ v, (ra.vregs v).loc = .DEAD ∧ (ra.vregs v).spillSynced = false ∧
        (ra.vregs v).isGlobal = vi.isGlobal v ∧
        (∀ g, vi.getGlobalInfo v = some g →
          (ra.vregs v).spillOffs = g.stateOffs ∧ (ra.vregs v).type = g.type) ∧
        (vi.isGlobal v = false → (ra.vregs v).spillOffs = NO_SPILL) ∧
        (v < vi.numAll → vi.vregType v = some (ra.vregs v).type) := by
  simp only [init] at h
  obtain ⟨ra1, h1, h2⟩ := Option.bind_eq_some_iff.mp h
  obtain ⟨hn1, hp1, hf1, hv1⟩ := foldlM_addTrack
    (fun g : StateReg => { isGlobal := true, type := g.type, spillOffs := g.stateOffs }) h1
  obtain ⟨hn2, hp2, hf2, hv2⟩ := foldlM_addTrack
    (fun t : VType => { isGlobal := false, type := t, spillOffs := NO_SPILL }) h2
  simp only [Nat.zero_add] at hn1
  refine ⟨by rw [hn2, hn1]; rfl, fun p => by rw [hp2, hp1], by rw [hf2, hf1], fun v => ?_⟩
  rw [hv2 v, hv1 v, hn1, Nat.sub_zero, if_neg (Nat.not_lt_zero v)]
  by_cases hlt : v < vi.globInfo.regs.length
  · simp [VRegsInfo.isGlobal, VRegsInfo.getGlobalInfo, VRegsInfo.vregType, hlt]
  · by_cases hloc : v - vi.globInfo.regs.length < vi.locInfo.length
    · simp [VRegsInfo.isGlobal, VRegsInfo.getGlobalInfo, VRegsInfo.vregType,
        VRegsInfo.getLocalType, hlt, hloc]
    · have hnone : vi.globInfo.regs[v]? = none := List.getElem?_eq_none (by omega)
      have hnone' : vi.locInfo[v - vi.globInfo.regs.length]? = none :=
        List.getElem?_eq_none (by omega)
      simp only [VRegsInfo.isGlobal, VRegsInfo.getGlobalInfo, hlt, hnone, hnone', if_false,
        Option.map_none, Option.getD_none, decide_false, VRegsInfo.numAll]
      refine ⟨trivial, trivial, trivial, fun g hg => by simp at hg, fun _ => rfl, fun h => ?_⟩
      omega

lemma prologue_spec (ra : QRegAlloc) :
    ra.prologue.nVregs = ra.nVregs ∧ ra.prologue.p2v = ra.p2v ∧
      ra.prologue.frameCur = ra.frameCur ∧
      ∀ v, ra.prologue.vregs v = if v < ra.nVregs then
        { ra.vregs v with loc := if (ra.vregs v).isGlobal then .MEM else .DEAD }
        else ra.vregs v := by
  have key : ∀ n, ∀ r : QRegAlloc, r = (List.range n).foldl (fun ra v =>
      ra.setTrack v { ra.vregs v with
        loc := if (ra.vregs v).isGlobal then .MEM else .DEAD }) ra →
      r.nVregs = ra.nVregs ∧ r.p2v = ra.p2v ∧ r.frameCur = ra.frameCur ∧
        ∀ v, r.vregs v = if v < n then
          { ra.vregs v with loc := if (ra.vregs v).isGlobal then .MEM else .DEAD }
          else ra.vregs v := by
    intro n
    induction n with
    | zero => rintro r rfl; simp
    | succ n ih =>
      rintro r rfl
      rw [List.range_succ, List.foldl_append]
      obtain ⟨h1, h2, h3, h4⟩ := ih _ rfl
      refine ⟨h1, h2, h3, fun v => ?_⟩
      simp only [List.foldl_cons, List.foldl_nil, vregs_setTrack, h4]
      rcases Nat.lt_trichotomy v n with hlt | rfl | hgt
      · simp [show v ≠ n by omega, hlt, show v < n + 1 by omega]
      · simp
      · simp [show v ≠ n by omega, show ¬ v < n by omega, show ¬ v < n + 1 by omega]
  exact key ra.nVregs _ rfl

/-- The invariant holds before the first block, and all globals are in their homes. -/
lemma start_spec (h : init vi = some ra) : Inv vi N ra.prologue ∧ AllHome ra.prologue := by
  obtain ⟨hn, hp, hf, hv⟩ := init_spec h
  obtain ⟨hn', hp', hf', hv'⟩ := prologue_spec ra
  have hreg : ∀ v, (ra.prologue.vregs v).loc ≠ .REG := fun v => by
    rw [hv' v]
    split
    · simp only
      split <;> simp
    · simp [(hv v).1]
  have hglob : ∀ v, (ra.prologue.vregs v).isGlobal = vi.isGlobal v := fun v => by
    rw [hv' v, ← (hv v).2.2.1]
    split <;> rfl
  have hslot : ∀ v, (ra.prologue.vregs v).spillOffs = (ra.vregs v).spillOffs := fun v => by
    rw [hv' v]
    split <;> rfl
  have htype : ∀ v, (ra.prologue.vregs v).type = (ra.vregs v).type := fun v => by
    rw [hv' v]
    split <;> rfl
  have hmem : ∀ v, vi.isGlobal v = true → (ra.prologue.vregs v).loc = .MEM := fun v hg => by
    have hlt : v < ra.nVregs := by
      simp only [VRegsInfo.isGlobal, decide_eq_true_eq] at hg
      rw [hn, VRegsInfo.numAll]
      omega
    rw [hv' v, if_pos hlt]
    simp [(hv v).2.2.1, hg]
  refine ⟨?_, fun v hg => hmem v (by rw [← hglob, hg])⟩
  constructor
  · rw [hn', hn]
  · exact hglob
  · intro v hlt
    rw [htype]
    exact (hv v).2.2.2.2.2 (by rwa [hn', hn] at hlt)
  · intro v g hg
    rw [hslot, htype]
    exact (hv v).2.2.2.1 g hg
  · intro v hge
    rw [hv' v, if_neg (by omega)]
    exact ⟨(hv v).1, (hv v).2.1⟩
  · intro p v
    rw [hp', hp]
    simp [hreg v]
  · intro p v hpv
    rw [hp', hp] at hpv
    cases hpv
  · intro v hg
    rw [hmem v (by rw [← hglob, hg])]
    simp
  · exact fun v _ hl => absurd hl (hreg v)
  · intro v hg hne
    rw [hslot, (hv v).2.2.2.2.1 (by rw [← hglob, hg])] at hne
    exact absurd rfl hne
  · intro v w _ hg _ hne
    rw [hslot, (hv v).2.2.2.2.1 (by rw [← hglob, hg])] at hne
    exact absurd rfl hne
  · rw [hf', hf]
    exact Nat.zero_le _

/-! ### Blocks -/

/-- A list of instructions that the allocator handles. -/
def GoodList (vi : VRegsInfo) (N : ℕ → Prop) : (ℕ → Prop) → List Inst → Prop
  | _, [] => True
  | W, ins :: rest => GoodInst vi N W ins ∧ GoodList vi N (Written W ins.o) rest

variable (env) in
/-- The code in place of a list of instructions. -/
lemma runInsts_spec {l : List Inst} (hi : Inv vi N ra) (hg : GoodList vi N W l)
    (h : l.foldlM runInst ra = some ra') :
    Inv vi N ra' ∧ (∀ ins, l.getLast? = some ins →
        (ins.op.isTerminator || ins.op.hasCalls) = true → AllHome ra') ∧
      ∃ δ, ra'.code = ra.code ++ δ ∧ ∀ s s', Match vi W ra s s' →
        SameRun SameState .stuck (execList env vi l s) (execList env vi δ s') := by
  induction l generalizing W ra with
  | nil =>
    rw [FoldM.foldlM_nil_eq_some] at h
    subst h
    exact ⟨hi, by simp, [], by simp, fun s s' _ => ⟨rfl, rfl, fun h => absurd rfl h⟩⟩
  | cons ins l ih =>
    obtain ⟨ra1, h1, h2⟩ := FoldM.foldlM_cons_eq_some.mp h
    obtain ⟨hi1, hhome, δ, hδ, hrep⟩ := runInst_spec env hi hg.1 h1
    obtain ⟨hi', hlast, ε, hε, hrest⟩ := ih hi1 hg.2 h2
    refine ⟨hi', fun i hlast' hexit => ?_, δ ++ ε, by rw [hε, hδ, List.append_assoc],
      fun s s' hm => ?_⟩
    · cases l with
      | nil =>
        rw [FoldM.foldlM_nil_eq_some] at h2
        subst h2
        cases hlast'
        exact hhome hexit
      | cons b l => exact hlast i (by simpa using hlast') hexit
    · exact .cons hrep hrest hm

/-- Between blocks, equal CPU states and memories match. -/
lemma Match.of_same {s s' : QState} (hhome : AllHome ra) (h : SameState s s') :
    Match vi (fun _ => False) ra s s' := by
  refine ⟨h.mem, fun x _ => by rw [h.cpu], fun v hl hw => ?_, fun v _ hw => hw.elim⟩
  rcases hw with hg | hw
  · rw [hhome v hg] at hl
    cases hl
  · exact hw.elim

variable (env) in
lemma runBlock_spec {blk blk' : Block} (hi : Inv vi N ra) (hhome : AllHome ra)
    (hg : GoodList vi N (fun _ => False) blk.ilist) (he : EndsInExit blk)
    (h : ra.runBlock blk = some (ra', blk')) :
    Inv vi N ra' ∧ AllHome ra' ∧ blk'.succs = blk.succs ∧ ∀ s s', SameState s s' →
      SameRun SameState .stuck (execList env vi blk.ilist s) (execList env vi blk'.ilist s') := by
  simp only [runBlock] at h
  obtain ⟨ra1, h1, h2⟩ := Option.bind_eq_some_iff.mp h
  cases h2
  have hi0 : Inv vi N { ra with code := [] } :=
    ⟨hi.nVregs, hi.isGlobal, hi.type, hi.home, hi.outside, hi.p2v, hi.pool, hi.alive, hi.named,
      hi.frameSlot, hi.frameApart, hi.frameEnd⟩
  obtain ⟨hi', hlast, δ, hδ, hrun⟩ := runInsts_spec env hi0 hg h1
  obtain ⟨ins, hins, hexit⟩ := he
  refine ⟨hi', hlast ins hins hexit, rfl, fun s s' hs => ?_⟩
  simp only [List.nil_append] at hδ
  rw [hδ]
  have hhome0 : AllHome { ra with code := [] } := hhome
  exact hrun s s' (.of_same hhome0 hs)

/-! ### Regions -/

variable (env) in
lemma runBlocks_spec {l l' : List Block} (hi : Inv vi N ra) (hhome : AllHome ra)
    (hg : ∀ blk ∈ l, GoodList vi N (fun _ => False) blk.ilist) (he : ∀ blk ∈ l, EndsInExit blk)
    (h : runBlocks ra l = some l') :
    l'.length = l.length ∧ ∀ (b : ℕ) (blk blk' : Block), l[b]? = some blk → l'[b]? = some blk' →
      blk'.succs = blk.succs ∧ ∀ s s', SameState s s' →
        SameRun SameState .stuck (execList env vi blk.ilist s) (execList env vi blk'.ilist s') := by
  induction l generalizing ra l' with
  | nil =>
    cases h
    exact ⟨rfl, by simp⟩
  | cons blk l ih =>
    simp only [runBlocks] at h
    obtain ⟨⟨ra1, blk1⟩, h1, h2⟩ := Option.bind_eq_some_iff.mp h
    obtain ⟨rest, h3, h4⟩ := Option.bind_eq_some_iff.mp h2
    cases h4
    obtain ⟨hi1, hhome1, hsucc, hblk⟩ := runBlock_spec env hi hhome
      (hg blk (by simp)) (he blk (by simp)) h1
    obtain ⟨hlen, hrest⟩ := ih hi1 hhome1 (fun b hb => hg b (List.mem_cons_of_mem _ hb))
      (fun b hb => he b (List.mem_cons_of_mem _ hb)) h3
    refine ⟨by simp [hlen], fun b x x' hx hx' => ?_⟩
    cases b with
    | zero =>
      cases hx
      cases hx'
      exact ⟨hsucc, hblk⟩
    | succ b => exact hrest b x x' hx hx'

end QRegAlloc

/-- The instructions of a region before the allocation are ones that the allocator handles. -/
lemma goodList_of_region {r : Region} {blk : Block} {W : ℕ → Prop} {l : List Inst}
    (hal : Allocatable r) (hv : Virtual r) (hb : blk ∈ r.blist) (hl : ∀ ins ∈ l, ins ∈ blk.ilist)
    (hw : LocalsWritten r.vregsInfo W l) :
    QRegAlloc.GoodList r.vregsInfo (Named r) W l := by
  induction l generalizing W with
  | nil => trivial
  | cons ins l ih =>
    have hins := hl ins (by simp)
    refine ⟨⟨hal.selected blk hb ins hins, fun o ho => ?_, fun o ho => ?_,
      hv.arg blk hb ins hins⟩, ih (fun i hi => hl i (List.mem_cons_of_mem _ hi)) hw.2⟩
    · have hin := hv.input blk hb ins hins o ho
      cases o with
      | vgpr t v =>
        have hnamed : Named r v :=
          ⟨blk, hb, ins, hins, t, List.mem_append_right _ ho⟩
        refine ⟨fun _ => hnamed, ?_, hin⟩
        cases hg : r.vregsInfo.isGlobal v with
        | true => exact Or.inl rfl
        | false => exact Or.inr (hw.1 t v ho hg)
      | _ => exact hin
    · have hout := hv.output blk hb ins hins o ho
      cases o with
      | vgpr t v =>
        have hnamed : Named r v :=
          ⟨blk, hb, ins, hins, t, List.mem_append_left _ ho⟩
        exact ⟨fun _ => hnamed, hout⟩
      | _ => exact hout

/-- The blocks of the allocated region run as those of the original one. -/
lemma execBlock_regAlloc {r r' : Region} (hal : Allocatable r) (hv : Virtual r)
    (h : QRegAlloc.run r = some r') (env : HelperEnv) (b : ℕ) {s s' : QState}
    (hs : SameState s s') :
    SameRun SameState .stuck (execBlock env r b s) (execBlock env r' b s') := by
  simp only [QRegAlloc.run] at h
  obtain ⟨ra, hra, h⟩ := Option.bind_eq_some_iff.mp h
  obtain ⟨l', hl', h⟩ := Option.bind_eq_some_iff.mp h
  cases h
  obtain ⟨hi, hhome⟩ := QRegAlloc.start_spec (N := Named r) hra
  obtain ⟨hlen, hblk⟩ := QRegAlloc.runBlocks_spec env hi hhome
    (fun blk hb => goodList_of_region hal hv hb (fun _ h => h) (hal.written blk hb))
    hal.ends hl'
  simp only [execBlock]
  cases hb : r.blist[b]? with
  | none =>
    have hnone : l'[b]? = none := by
      rw [List.getElem?_eq_none_iff] at hb ⊢
      omega
    rw [hnone]
    exact ⟨rfl, rfl, fun h => absurd rfl h⟩
  | some blk =>
    obtain ⟨blk', hb'⟩ : ∃ blk', l'[b]? = some blk' := by
      obtain ⟨hlt, -⟩ := List.getElem?_eq_some_iff.mp hb
      exact ⟨_, List.getElem?_eq_getElem (by omega)⟩
    rw [hb']
    obtain ⟨hsucc, hrun⟩ := hblk b blk blk' hb hb'
    obtain ⟨h1, h2, h3⟩ := hrun s s' hs
    refine ⟨h1, by simp only [h2, hsucc], fun hns => h3 fun he => hns ?_⟩
    simp only [he, leave]

/-- The allocated region does what the original one does: from the same CPU state and memory,
whatever the physical registers and the frame hold, any number of blocks leave the same trace,
with the same CPU state at every event, take the same branches and reach the same exit with the
same CPU state and memory. -/
theorem run_regAlloc {r r' : Region} (hal : Allocatable r) (hv : Virtual r)
    (h : QRegAlloc.run r = some r') (env : HelperEnv) (n b : ℕ) (s s' : QState)
    (hs : SameState s s') :
    SameRun SameState .stuck (Qir.run env r n b s) (Qir.run env r' n b s') :=
  run_of_blocks (fun _ _ h => h.cpu) (fun b _ _ => execBlock_regAlloc hal hv h env b) n b hs

/-! ### Operands that the allocator does not handle -/

/-- A store to the slot that is the home of a register in use. -/
def overlapRegion : Region :=
  sampleRegion [.mkMov (.vgpr .I32 0) (.const .I32 1), .mkMov (.slot true .I32 0) (.const .I32 2)]

/-- A read from the frame, in which the allocator keeps the local register over the call. -/
def frameRegion : Region :=
  sampleRegion [.mkMov (.vgpr .I32 1) (.const .I32 5), .mkHcall .rv32_fence (.const .I32 0),
    .mkMov (.vgpr .I32 0) (.slot false .I32 0)]

/-- A register that is written at a type narrower than its own. -/
def narrowRegion : Region := sampleRegion [.mkMov (.vgpr .I8 0) (.const .I8 1)]

/-- A call with a register as its argument. -/
def callRegion : Region :=
  sampleRegion [.mkMov (.vgpr .I32 1) (.const .I32 5), .mkHcall .rv32_fence (.vgpr .I32 1)]

lemma allocatable_sampleRegion {l : List Inst}
    (hl : ∀ ins ∈ l, (∃ d o, ins = .mkMov d o) ∨ opCt ins.op = none)
    (hw : LocalsWritten sampleVRegs (fun _ => False) (l ++ [.mkGBr 0])) :
    Allocatable (sampleRegion l) := by
  refine ⟨fun blk hb ins hins => ?_, fun blk hb => ?_, fun blk hb => ?_⟩ <;>
    obtain rfl := List.mem_singleton.mp hb
  · rcases List.mem_append.mp hins with hins | hins
    · rcases hl ins hins with ⟨d, o, rfl⟩ | h
      · exact selected_mkMov d o
      · exact selected_of_opCt_none h
    · rw [List.mem_singleton.mp hins]
      exact selected_of_opCt_none rfl
  · exact hw
  · exact ⟨.mkGBr 0, by simp, rfl⟩

/-- The pass completes on the region, but the code that it makes runs differently. -/
def AllocDiffers (r : Region) : Prop :=
  Allocatable r ∧ ∃ r', QRegAlloc.run r = some r' ∧ ∃ n b s,
    ¬ SameRun SameState .stuck (Qir.run idleEnv r n b s) (Qir.run idleEnv r' n b s)

/-- What the passes before the allocator establish is not enough by itself: a slot that is the
home of a named register, a slot of the frame, a write at a narrower type and a call on a
register all make the two codes differ. -/
theorem run_regAlloc_needs_virtual : AllocDiffers overlapRegion ∧ AllocDiffers frameRegion ∧
    AllocDiffers narrowRegion ∧ AllocDiffers callRegion := by
  refine ⟨?_, ?_, ?_, ?_⟩
  · refine ⟨allocatable_sampleRegion (by simp) ?_, _, (Option.some_get (by decide)).symm, 1, 0,
      sampleState, fun h => ?_⟩
    · simp [LocalsWritten, Inst.mkMov, Inst.mkGBr]
    · exact absurd (congrFun (h.2.2 (by decide)).cpu 0) (by decide)
  · refine ⟨allocatable_sampleRegion (by simp [Inst.mkHcall, opCt]) ?_, _,
      (Option.some_get (by decide)).symm, 1, 0, sampleState, fun h => ?_⟩
    · simp [LocalsWritten, Inst.mkMov, Inst.mkGBr, Inst.mkHcall]
    · exact absurd (congrFun (h.2.2 (by decide)).cpu 0) (by decide)
  · refine ⟨allocatable_sampleRegion (by simp) ?_, _, (Option.some_get (by decide)).symm, 1, 0,
      sampleState, fun h => ?_⟩
    · simp [LocalsWritten, Inst.mkMov, Inst.mkGBr]
    · exact absurd (congrFun (h.2.2 (by decide)).cpu 1) (by decide)
  · refine ⟨allocatable_sampleRegion (by simp [Inst.mkHcall, opCt]) ?_, _,
      (Option.some_get (by decide)).symm, 1, 0, sampleState, fun h => ?_⟩
    · simp [LocalsWritten, Inst.mkMov, Inst.mkGBr, Inst.mkHcall, QRegAlloc.Written]
    · exact absurd (congrArg (List.map Event.access) h.1) (by decide)

/-- A region that copies its global register around. -/
def copyRegion : Region :=
  sampleRegion [.mkMov (.vgpr .I32 1) (.vgpr .I32 0), .mkHcall .rv32_fence (.const .I32 0),
    .mkMov (.vgpr .I32 0) (.vgpr .I32 1)]

lemma allocatable_copyRegion : Allocatable copyRegion := by
  refine allocatable_sampleRegion ?_ ?_
  · simp [Inst.mkHcall, opCt]
  · simp [LocalsWritten, Inst.mkMov, Inst.mkGBr, Inst.mkHcall, QRegAlloc.Written,
      VRegsInfo.isGlobal, sampleVRegs]

lemma virtual_copyRegion : Virtual copyRegion := by
  refine ⟨?_, ?_, ?_⟩
  · simp [copyRegion, sampleRegion, Inst.mkMov, Inst.mkGBr, Inst.mkHcall, VirtualInput,
      sampleVRegs, VRegsInfo.vregType, VRegsInfo.getGlobalInfo, VRegsInfo.getLocalType,
      VRegsInfo.isGlobal]
  · simp [copyRegion, sampleRegion, Inst.mkMov, Inst.mkGBr, Inst.mkHcall, VirtualOutput,
      sampleVRegs, VRegsInfo.vregType, VRegsInfo.getGlobalInfo, VRegsInfo.getLocalType,
      VRegsInfo.isGlobal]
  · simp [copyRegion, sampleRegion, Inst.mkMov, Inst.mkGBr, Inst.mkHcall, VOperand.isConst,
      Op.hasCalls]

theorem run_regAlloc_copyRegion :
    SameRun SameState .stuck (Qir.run idleEnv copyRegion 1 0 sampleState)
      (Qir.run idleEnv ((QRegAlloc.run copyRegion).get (by decide)) 1 0 sampleState) :=
  run_regAlloc allocatable_copyRegion virtual_copyRegion (Option.some_get _).symm idleEnv 1 0
    sampleState sampleState ⟨rfl, rfl⟩

end Rv32jit.Qcg
