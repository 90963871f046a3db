/-
# The states of the allocator

Between any two instructions of a region the allocator's tables are consistent, and what it
believes to be saved is saved: a register that it takes to be in its slot, or to have an up to
date copy there, has its latest value in the slot whenever the rewritten code comes to that
point.  The allocator does not look beyond a block for local registers, so this holds for those
that are written in the block.
-/
import Rv32jit.Codegen.WellFormed

namespace Rv32jit.Qcg

open Qir ArchTraits

/-- The allocator in front of instruction `k` of block `b`. -/
def stateAt (r : Region) (b k : ℕ) : Option QRegAlloc := do
  let ra ← QRegAlloc.init r.vregsInfo
  let ra ← (r.blist.take b).foldlM (fun ra blk => (ra.runBlock blk).map Prod.fst) ra.prologue
  ((r.blist.getD b {}).ilist.take k).foldlM QRegAlloc.runInst { ra with code := [] }

/-- The list reads register `v` before it writes it. -/
def ReadNext (v : ℕ) : List Inst → Prop
  | [] => False
  | ins :: rest => (∃ t, VOperand.vgpr t v ∈ ins.i) ∨
      (∀ t, VOperand.vgpr t v ∉ ins.o) ∧ ReadNext v rest

namespace QRegAlloc

/-- The tables of the allocator agree, and the frame is in order. -/
structure Consistent (ra : QRegAlloc) : Prop where
  owner : ∀ p v, ra.p2v p = some v ↔ (ra.vregs v).loc = .REG ∧ (ra.vregs v).p = p
  unshared : ∀ v w, (ra.vregs v).loc = .REG → (ra.vregs w).loc = .REG →
    (ra.vregs v).p = (ra.vregs w).p → v = w
  unfixed : ∀ p, GPR_FIXED.test p = true → ra.p2v p = none
  alive : ∀ v, (ra.vregs v).isGlobal = true → (ra.vregs v).loc ≠ .DEAD
  slots : ∀ v, (ra.vregs v).isGlobal = false → (ra.vregs v).spillOffs ≠ NO_SPILL →
    (ra.vregs v).type.toSize ∣ (ra.vregs v).spillOffs ∧
      (ra.vregs v).spillOffs + (ra.vregs v).type.toSize ≤ spillframe_size
  apart : ∀ v w, v ≠ w → (ra.vregs v).isGlobal = false → (ra.vregs w).isGlobal = false →
    (ra.vregs v).spillOffs ≠ NO_SPILL → (ra.vregs w).spillOffs ≠ NO_SPILL →
    Disjoint (ra.vregs v).spillOffs (ra.vregs v).type.toSize
      (ra.vregs w).spillOffs (ra.vregs w).type.toSize

/-- The allocator takes the slot of the register to be up to date. -/
def Saved (ra : QRegAlloc) (v : ℕ) : Prop :=
  (ra.vregs v).loc = .MEM ∨ (ra.vregs v).loc = .REG ∧ (ra.vregs v).spillSynced = true

/-- In state `s'` of the rewritten code the slot of the register, in the CPU state or in the
frame, holds the value that it has in state `s` of the original code. -/
def SlotHolds (vi : VRegsInfo) (ra : QRegAlloc) (s s' : QState) (v : ℕ) : Prop :=
  if (ra.vregs v).isGlobal then
    s'.cpu.load (ra.vregs v).spillOffs (ra.vregs v).type.toSize = ra.valueOf vi s v
  else (ra.vregs v).spillOffs ≠ NO_SPILL ∧
    s'.frame.load (ra.vregs v).spillOffs (ra.vregs v).type.toSize = ra.valueOf vi s v

variable {env : HelperEnv} {vi : VRegsInfo} {N W : ℕ → Prop} {ra ra' : QRegAlloc} {v : ℕ}
  {l m : List Inst} {s s' : QState}

lemma Inv.consistent (h : Inv vi N ra) : Consistent ra := by
  refine ⟨h.p2v, fun v w => h.p_inj, fun p hp => ?_, h.alive, fun v hg hs => ?_, h.frameApart⟩
  · cases hv : ra.p2v p with
    | none => rfl
    | some v =>
      rw [(h.pool p v hv).2] at hp
      cases hp
  · obtain ⟨hend, hdvd⟩ := h.frameSlot v hg hs
    exact ⟨hdvd, hend.trans h.frameEnd⟩

/-- The home of a global that is saved. -/
lemma Match.home (hi : Inv vi N ra) (hm : Match vi W ra s s')
    (hg : (ra.vregs v).isGlobal = true) (hsave : ra.Saved v) :
    s'.cpu.load (ra.vregs v).spillOffs (ra.vregs v).type.toSize = ra.valueOf vi s v := by
  obtain ⟨g, hgi⟩ := hi.getGlobalInfo_isSome hg
  obtain ⟨hoffs, htype⟩ := hi.home v g hgi
  have hval : ra.valueOf vi s v =
      s.cpu.load (ra.vregs v).spillOffs (ra.vregs v).type.toSize := by
    simp [valueOf, readOpr, hgi, hoffs]
  rw [hval]
  refine ByteMem.load_congr fun x hge hlt => hm.cpu x ?_
  -- no other home overlaps, and this register is not dirty
  rintro w ⟨hwg, hwl, hws, hwge, hwlt⟩
  by_cases hwv : w = v
  · subst hwv
    rcases hsave with hs | ⟨-, hs⟩
    · rw [hs] at hwl
      cases hwl
    · rw [hs] at hws
      cases hws
  · have := hi.homes_apart hwv hwg hg
    simp only [Disjoint] at this
    omega

lemma Match.slotHolds (hi : Inv vi N ra) (hm : Match vi W ra s s') (hsave : ra.Saved v)
    (hv : vi.isGlobal v = true ∨ W v) : SlotHolds vi ra s s' v := by
  rw [SlotHolds]
  split
  · rename_i hg
    exact hm.home hi hg hsave
  · rename_i hg
    have hg : (ra.vregs v).isGlobal = false := by simpa using hg
    refine hm.slot v hg (hv.resolve_left ?_) hsave
    rw [← hi.isGlobal, hg]
    decide

/-! ### Runs up to an instruction -/

variable (env) in
/-- The rewritten code runs to its end if the original code does. -/
lemma runs_runInsts (hi : Inv vi N ra) (hg : GoodList vi N W l)
    (h : l.foldlM runInst ra = some ra') :
    ∃ δ, ra'.code = ra.code ++ δ ∧ ∀ {s s' t : QState} {ev : List Event}, Match vi W ra s s' →
      Runs env vi l s ev t →
        ∃ t', Runs env vi δ s' ev t' ∧ Match vi (WrittenAfter W l) ra' t t' := by
  induction l generalizing W ra with
  | nil =>
    rw [FoldM.foldlM_nil_eq_some] at h
    subst h
    refine ⟨[], by simp, fun {s s' t ev} hm hr => ?_⟩
    have hev : ev = [] := by simpa [execList] using (congrArg Prod.fst (hr [])).symm
    obtain rfl := hr.unique (.nil s)
    rw [writtenAfter_nil, hev]
    exact ⟨s', .nil s', hm⟩
  | cons ins l ih =>
    obtain ⟨ra1, h1, h2⟩ := FoldM.foldlM_cons_eq_some.mp h
    obtain ⟨hi1, -, δ, hδ, hrep⟩ := runInst_spec env hi hg.1 h1
    obtain ⟨ε, hε, hrest⟩ := ih hi1 hg.2 h2
    refine ⟨δ ++ ε, by rw [hε, hδ, List.append_assoc], fun {s s' t ev} hm hr => ?_⟩
    obtain ⟨hn, fv, rfl, hl⟩ := hr.cons_inv
    obtain ⟨s1, hm1, hrun⟩ := (hrep s s' hm).1 hn
    obtain ⟨t', hr', hm'⟩ := hrest hm1 hl
    rw [writtenAfter_cons]
    exact ⟨t', Runs.append hrun hr', hm'⟩

end QRegAlloc

/-- A local register that the rest of a list reads has been written. -/
lemma LocalsWritten.of_readNext {vi : VRegsInfo} {W : ℕ → Prop} {v : ℕ} {l : List Inst}
    (h : LocalsWritten vi W l) (hg : vi.isGlobal v = false) (hr : ReadNext v l) : W v := by
  induction l generalizing W with
  | nil => exact hr.elim
  | cons ins l ih =>
    rcases hr with ⟨t, ht⟩ | ⟨hno, hr⟩
    · exact h.1 t v ht hg
    · exact (ih h.2 hr).resolve_right fun ⟨t, ht⟩ => hno t ht

/-! ### Every state -/

section
variable {r r' : Region} {b k : ℕ} {ra : QRegAlloc} {blk : Block}

lemma Allocatable.written_split (hal : Allocatable r) (hb : blk ∈ r.blist) (k : ℕ) :
    LocalsWritten r.vregsInfo (fun _ => False) (blk.ilist.take k) ∧
      LocalsWritten r.vregsInfo (WrittenAfter (fun _ => False) (blk.ilist.take k))
        (blk.ilist.drop k) := by
  rw [← localsWritten_append, List.take_append_drop]
  exact hal.written blk hb

lemma getD_blist (r : Region) (b : ℕ) : r.blist.getD b {} ∈ r.blist ∨ r.blist.getD b {} = {} := by
  rw [List.getD_eq_getElem?_getD]
  cases hb : r.blist[b]? with
  | none => exact Or.inr rfl
  | some blk => exact Or.inl (List.mem_of_getElem? hb)

/-- The blocks before `b` leave the tables consistent and the globals in their homes. -/
lemma enter_spec (hal : Allocatable r) (hv : Virtual r) {ra0 ra1 : QRegAlloc}
    (h0 : QRegAlloc.init r.vregsInfo = some ra0)
    (h1 : (r.blist.take b).foldlM (fun ra blk => (ra.runBlock blk).map Prod.fst) ra0.prologue =
      some ra1) : QRegAlloc.Inv r.vregsInfo (Named r) { ra1 with code := [] } ∧ ra1.AllHome := by
  have hblocks := FoldM.relates (R := fun u u' : QRegAlloc =>
    QRegAlloc.Inv r.vregsInfo (Named r) u ∧ u.AllHome →
      QRegAlloc.Inv r.vregsInfo (Named r) u' ∧ u'.AllHome) (fun _ => id)
    (fun _ _ _ f g => g ∘ f) h1 fun blk hb u u' hu ⟨hi, hhome⟩ => by
      obtain ⟨⟨u1, blk'⟩, hrun, he⟩ := Option.map_eq_some_iff.mp hu
      cases he
      have hb := List.mem_of_mem_take hb
      obtain ⟨hi', hhome', -⟩ := QRegAlloc.runBlock_spec idleEnv hi hhome
        (goodList_of_region hal hv hb (fun _ h => h) (hal.written blk hb)) (hal.ends blk hb) hrun
      exact ⟨hi', hhome'⟩
  obtain ⟨hi, hhome⟩ := hblocks (QRegAlloc.start_spec h0)
  exact ⟨⟨hi.nVregs, hi.isGlobal, hi.type, hi.home, hi.outside, hi.p2v, hi.pool, hi.alive,
    hi.named, hi.frameSlot, hi.frameApart, hi.frameEnd⟩, hhome⟩

lemma runBlocks_getElem {bs bs' : List Block} {ra : QRegAlloc}
    (h : QRegAlloc.runBlocks ra bs = some bs') (hb : bs[b]? = some blk) :
    ∃ ra1 ra2 blk', (bs.take b).foldlM (fun ra blk => (ra.runBlock blk).map Prod.fst) ra =
      some ra1 ∧ ra1.runBlock blk = some (ra2, blk') ∧ bs'[b]? = some blk' := by
  induction bs generalizing ra b bs' with
  | nil => cases hb
  | cons blk₀ bs ih =>
    simp only [QRegAlloc.runBlocks] at h
    obtain ⟨⟨ra1, blk1⟩, h1, h⟩ := Option.bind_eq_some_iff.mp h
    obtain ⟨rest, h2, h⟩ := Option.bind_eq_some_iff.mp h
    cases h
    cases b with
    | zero =>
      cases hb
      exact ⟨ra, ra1, blk1, rfl, h1, rfl⟩
    | succ b =>
      obtain ⟨ra2, ra3, blk', h3, h4, h5⟩ := ih h2 hb
      refine ⟨ra2, ra3, blk', ?_, h4, h5⟩
      rw [List.take_succ_cons]
      exact FoldM.foldlM_cons_eq_some.mpr ⟨ra1, Option.map_eq_some_iff.mpr ⟨_, h1, rfl⟩, h3⟩

/-- These are the states of a run: where the pass completes, it comes to a state in front of
every instruction, and the code of that state begins the rewritten block. -/
theorem stateAt_of_run (hal : Allocatable r) (hv : Virtual r) (h : QRegAlloc.run r = some r')
    (hb : r.blist[b]? = some blk) (k : ℕ) :
    ∃ ra blk' rest, stateAt r b k = some ra ∧ r'.blist[b]? = some blk' ∧
      blk'.ilist = ra.code ++ rest := by
  simp only [QRegAlloc.run] at h
  obtain ⟨ra0, h0, h⟩ := Option.bind_eq_some_iff.mp h
  obtain ⟨bs', h1, h⟩ := Option.bind_eq_some_iff.mp h
  cases h
  obtain ⟨ra1, ra2, blk', h2, h3, h4⟩ := runBlocks_getElem h1 hb
  have hmem := List.mem_of_getElem? hb
  obtain ⟨hi1, -⟩ := enter_spec hal hv h0 h2
  obtain ⟨hw, hw'⟩ := hal.written_split hmem k
  simp only [QRegAlloc.runBlock] at h3
  obtain ⟨ra3, h5, h3⟩ := Option.bind_eq_some_iff.mp h3
  cases h3
  rw [← List.take_append_drop k blk.ilist, List.foldlM_append] at h5
  obtain ⟨ra, h6, h7⟩ := Option.bind_eq_some_iff.mp h5
  have hi := (QRegAlloc.runInsts_spec idleEnv hi1
    (goodList_of_region hal hv hmem (fun i => List.mem_of_mem_take) hw) h6).1
  obtain ⟨-, -, δ, hδ, -⟩ := QRegAlloc.runInsts_spec idleEnv hi
    (goodList_of_region hal hv hmem (fun i => List.mem_of_mem_drop) hw') h7
  refine ⟨ra, _, δ, ?_, h4, hδ⟩
  have hget : r.blist.getD b {} = blk := by rw [List.getD_eq_getElem?_getD, hb, Option.getD_some]
  simp only [stateAt, h0, h2, hget, h6, Option.bind_eq_bind, Option.bind_some]

/-- In every state that the allocator comes to between two instructions its tables are
consistent: the owner table and the tracks agree, no two registers share a physical one and no
reserved one is owned, no global is dead, and the slots of the locals are apart, aligned and
within the frame.  At the start of a block all globals are in their homes.  Where the code
rewritten so far is run, a global register, or a local one that is read next, that is taken to
be saved has its latest value in its slot.  Blocks may be entered in any two states with the same
CPU state and memory; after `run_regAlloc` these are all in which a run enters them. -/
theorem stateAt_consistent (hal : Allocatable r) (hv : Virtual r) (h : stateAt r b k = some ra) :
    ra.Consistent ∧ (k = 0 → ra.AllHome) ∧
      ∀ (env : HelperEnv) (s₀ s₀' s : QState) (ev : List Event), SameState s₀ s₀' →
        Runs env r.vregsInfo ((r.blist.getD b {}).ilist.take k) s₀ ev s →
        ∃ s', Runs env r.vregsInfo ra.code s₀' ev s' ∧
          ∀ v, r.vregsInfo.isGlobal v = true ∨ ReadNext v ((r.blist.getD b {}).ilist.drop k) →
            ra.Saved v → ra.SlotHolds r.vregsInfo s s' v := by
  simp only [stateAt] at h
  obtain ⟨ra0, h0, h⟩ := Option.bind_eq_some_iff.mp h
  obtain ⟨ra1, h1, h⟩ := Option.bind_eq_some_iff.mp h
  obtain ⟨hi1, hhome⟩ := enter_spec hal hv h0 h1
  obtain ⟨hgood, hwritten⟩ : QRegAlloc.GoodList r.vregsInfo (Named r) (fun _ => False)
      ((r.blist.getD b {}).ilist.take k) ∧ LocalsWritten r.vregsInfo
        (WrittenAfter (fun _ => False) ((r.blist.getD b {}).ilist.take k))
        ((r.blist.getD b {}).ilist.drop k) := by
    rcases getD_blist r b with hmem | hnil
    · obtain ⟨hw, hw'⟩ := hal.written_split hmem k
      exact ⟨goodList_of_region hal hv hmem (fun i => List.mem_of_mem_take) hw, hw'⟩
    · rw [hnil]
      simp [QRegAlloc.GoodList, LocalsWritten]
  have hi := (QRegAlloc.runInsts_spec idleEnv hi1 hgood h).1
  refine ⟨hi.consistent, fun hk => ?_, fun env s₀ s₀' s ev hs hr => ?_⟩
  · rw [hk, List.take_zero, FoldM.foldlM_nil_eq_some] at h
    rw [← h]
    exact hhome
  · obtain ⟨δ, hδ, hrun⟩ := QRegAlloc.runs_runInsts env hi1 hgood h
    obtain ⟨s', hr', hm⟩ := hrun (.of_same hhome hs) hr
    rw [List.nil_append] at hδ
    refine ⟨s', by rwa [hδ], fun v hv hsave => hm.slotHolds hi hsave ?_⟩
    cases hg : r.vregsInfo.isGlobal v with
    | true => exact Or.inl rfl
    | false =>
      refine Or.inr (hwritten.of_readNext hg (hv.resolve_left ?_))
      rw [hg]
      decide

/-! ### Runs on fixed inputs -/

/-- Code without exits, run to its end. -/
def steps (env : HelperEnv) (vi : VRegsInfo) : List Inst → QState → Option QState
  | [], s => some s
  | ins :: l, s =>
      if (exec env vi ins s).2.1 = .next then steps env vi l (exec env vi ins s).2.2 else none

lemma runs_of_steps {env : HelperEnv} {vi : VRegsInfo} {l : List Inst} {s s' : QState}
    (h : steps env vi l s = some s') : ∃ ev, Runs env vi l s ev s' := by
  induction l generalizing s with
  | nil =>
    cases h
    exact ⟨[], .nil _⟩
  | cons ins l ih =>
    rw [steps] at h
    split at h
    · rename_i hn
      obtain ⟨ev, hr⟩ := ih h
      refine ⟨(exec env vi ins s).1 ++ ev, Runs.append (Runs.single ?_) hr⟩
      rw [← hn]
    · cases h

/-- In front of the last copy of `copyRegion` the local register is in the frame. -/
theorem stateAt_copyRegion :
    ∃ ra s s' ev, stateAt copyRegion 0 2 = some ra ∧ ra.Consistent ∧
      Runs idleEnv sampleVRegs ((copyRegion.blist.getD 0 {}).ilist.take 2) sampleState ev s ∧
      Runs idleEnv sampleVRegs ra.code sampleState ev s' ∧
      ra.SlotHolds sampleVRegs s s' 1 := by
  have hs : (steps idleEnv sampleVRegs ((copyRegion.blist.getD 0 {}).ilist.take 2)
      sampleState).isSome = true := by decide
  obtain ⟨s, hs⟩ := Option.isSome_iff_exists.mp hs
  obtain ⟨ev, hr⟩ := runs_of_steps hs
  have ha : stateAt copyRegion 0 2 = some ((stateAt copyRegion 0 2).get (by decide)) :=
    (Option.some_get _).symm
  obtain ⟨hc, -, hruns⟩ := stateAt_consistent allocatable_copyRegion virtual_copyRegion ha
  obtain ⟨s', hr', hslot⟩ := hruns idleEnv sampleState sampleState s ev ⟨rfl, rfl⟩ hr
  exact ⟨_, s, s', ev, ha, hc, hr, hr', hslot 1 (Or.inr (Or.inl ⟨.I32, by decide⟩))
    (Or.inl (by decide))⟩

end

/-! ### Regions whose registers the allocator loses -/

/-- The region meets the operand constraints and its blocks end in an exit.  But in a run from
the start of its first block, at a point where the allocator takes the slot of `v` to be up to
date and `v` is a global register or read next, the slot does not hold the value of `v`. -/
def Stale (env : HelperEnv) (r : Region) (v : ℕ) : Prop :=
  (∀ blk ∈ r.blist, (∀ ins ∈ blk.ilist, Selected ins) ∧ EndsInExit blk) ∧
    ∃ b k n ra s₀ s s', stateAt r b k = some ra ∧
      (Qir.run env r n 0 sampleState).2 = (.at b, s₀) ∧
      (∃ ev, Runs env r.vregsInfo ((r.blist.getD b {}).ilist.take k) s₀ ev s) ∧
      (∃ ev, Runs env r.vregsInfo ra.code s₀ ev s') ∧
      (r.vregsInfo.isGlobal v = true ∨ ReadNext v ((r.blist.getD b {}).ilist.drop k)) ∧
      ra.Saved v ∧ ¬ ra.SlotHolds r.vregsInfo s s' v

/-- A local register that is written in the first block and read in the last one; the allocator
visits the block between them before it comes to the reader. -/
def escapeRegion : Region where
  blist := [{ ilist := [.mkMov (.vgpr .I32 1) (.const .I32 5), .mkBr], succs := [2] },
    { ilist := [.mkGBr 0] },
    { ilist := [.mkMov (.vgpr .I32 0) (.vgpr .I32 1), .mkGBr 0] }]
  vregsInfo := sampleVRegs

/-- A machine whose helpers store their argument in the first global register. -/
def storeEnv : HelperEnv where
  helper _ arg cpu mem := ⟨cpu.store 0 4 arg, mem, false⟩
  clobber _ preg _ _ := preg

lemma stale_sampleRegion {env : HelperEnv} {l : List Inst} {ra : QRegAlloc} {s s' : QState}
    (hl : ∀ ins ∈ l, (∃ d o, ins = .mkMov d o) ∨ opCt ins.op = none)
    (ha : stateAt (sampleRegion l) 0 l.length = some ra)
    (hs : steps env sampleVRegs l sampleState = some s)
    (hs' : steps env sampleVRegs ra.code sampleState = some s')
    (hsave : (ra.vregs 0).loc = .MEM) (hg : (ra.vregs 0).isGlobal = true)
    (hne : s'.cpu.load (ra.vregs 0).spillOffs (ra.vregs 0).type.toSize ≠
      ra.valueOf sampleVRegs s 0) : Stale env (sampleRegion l) 0 := by
  refine ⟨fun blk hb => ?_, 0, l.length, 0, ra, sampleState, s, s', ha, rfl, ?_, runs_of_steps hs',
    Or.inl rfl, Or.inl hsave, fun h => hne ?_⟩
  · obtain rfl := List.mem_singleton.mp hb
    refine ⟨fun ins hins => ?_, .mkGBr 0, by simp, rfl⟩
    rcases List.mem_append.mp hins with hins | hins
    · rcases hl ins hins with ⟨d, o, rfl⟩ | h
      · exact selected_mkMov d o
      · exact selected_of_opCt_none h
    · rw [List.mem_singleton.mp hins]
      exact selected_of_opCt_none rfl
  · have htake : ((sampleRegion l).blist.getD 0 {}).ilist.take l.length = l := List.take_left
    rw [htake]
    exact runs_of_steps hs
  · rw [QRegAlloc.SlotHolds, if_pos hg] at h
    exact h

/-- The constraints of the operands and the exits of the blocks are not enough: the allocator
loses a local register that lives longer than its block, a global whose home is written as a
slot, one that is assigned from a slot of the frame, one that is written at a narrower type, and
one that a helper sets from an argument in a register. -/
theorem stateAt_consistent_needs :
    Stale idleEnv escapeRegion 1 ∧
    Stale idleEnv (sampleRegion [.mkMov (.vgpr .I32 0) (.const .I32 1),
      .mkMov (.slot true .I32 0) (.const .I32 2), .mkHcall .rv32_fence (.const .I32 0)]) 0 ∧
    Stale idleEnv (sampleRegion [.mkMov (.vgpr .I32 1) (.const .I32 5),
      .mkHcall .rv32_fence (.const .I32 0), .mkMov (.vgpr .I32 0) (.slot false .I32 0),
      .mkHcall .rv32_fence (.const .I32 0)]) 0 ∧
    Stale idleEnv (sampleRegion [.mkMov (.vgpr .I8 0) (.const .I8 1),
      .mkHcall .rv32_fence (.const .I32 0)]) 0 ∧
    Stale storeEnv (sampleRegion [.mkMov (.vgpr .I32 1) (.const .I32 5),
      .mkHcall .rv32_fence (.vgpr .I32 1)]) 0 := by
  refine ⟨⟨fun blk hb => ?_, 2, 0, 1, _, _, _, _, (Option.some_get (by decide)).symm, rfl,
    ⟨[], .nil _⟩, ⟨[], .nil _⟩, Or.inr (Or.inl ⟨.I32, by decide⟩), Or.inl (by decide),
    fun h => ?_⟩, ?_, ?_, ?_, ?_⟩
  · rcases List.mem_cons.mp hb with rfl | hb
    · refine ⟨fun ins hins => ?_, .mkBr, rfl, rfl⟩
      rcases List.mem_pair.mp hins with rfl | rfl
      · exact selected_mkMov _ _
      · exact selected_of_opCt_none rfl
    rcases List.mem_pair.mp hb with rfl | rfl
    · refine ⟨fun ins hins => ?_, .mkGBr 0, rfl, rfl⟩
      rw [List.mem_singleton.mp hins]
      exact selected_of_opCt_none rfl
    · refine ⟨fun ins hins => ?_, .mkGBr 0, rfl, rfl⟩
      rcases List.mem_pair.mp hins with rfl | rfl
      · exact selected_mkMov _ _
      · exact selected_of_opCt_none rfl
  · rw [QRegAlloc.SlotHolds, if_neg (by decide)] at h
    exact h.1 (by decide)
  all_goals
    refine stale_sampleRegion (by simp [Inst.mkHcall, opCt])
      (Option.some_get (by decide)).symm (Option.some_get (by decide)).symm
      (Option.some_get (by decide)).symm (by decide) (by decide) (by decide)

end Rv32jit.Qcg
