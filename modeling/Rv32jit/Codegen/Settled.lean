/-
# The operands that reach the emitter

The passes bring in registers of the pool and slots inside the spill frame only, and no calls.  So
what the emitter gets of a region over virtual registers names none of the reserved registers and
nothing behind the frame, and it has calls only where the selection has seen them.
-/
import Rv32jit.Codegen.EmitCorrect
import Rv32jit.Codegen.RegAllocSim
import Rv32jit.Codegen.Select

namespace Rv32jit.Qcg

open Qir ArchTraits

/-- The operand is no reserved register and no slot behind the spill frame. -/
def Settled : VOperand → Prop
  | .pgpr _ p => Pool p
  | .slot false _ offs => offs < spillframe_size
  | _ => True

/-- All operands are settled, and a call may only stand where there are calls. -/
structure SettledInst (calls : Prop) (ins : Inst) : Prop where
  o : ∀ x ∈ ins.o, Settled x
  i : ∀ x ∈ ins.i, Settled x
  call : ins.op.hasCalls = true → calls

lemma settled_vgpr (t : VType) (v : ℕ) : Settled (.vgpr t v) := trivial

lemma settled_const (t : VType) (c : BitVec 32) : Settled (.const t c) := trivial

/-- All operands of the region are settled, and calls may stand anywhere. -/
def SettledRegion (r : Region) : Prop :=
  ∀ blk ∈ r.blist, ∀ ins ∈ blk.ilist, SettledInst True ins

section
variable {calls : Prop} {ins : Inst} {x : VOperand}

lemma SettledInst.setI (h : SettledInst calls ins) (k : ℕ) (hx : Settled x) :
    SettledInst calls (ins.setI k x) := by
  refine ⟨h.o, fun y hy => ?_, h.call⟩
  rcases List.mem_or_eq_of_mem_set hy with hy | rfl
  · exact h.i y hy
  · exact hx

lemma SettledInst.setO (h : SettledInst calls ins) (k : ℕ) (hx : Settled x) :
    SettledInst calls (ins.setO k x) := by
  refine ⟨fun y hy => ?_, h.i, h.call⟩
  rcases List.mem_or_eq_of_mem_set hy with hy | rfl
  · exact h.o y hy
  · exact hx

lemma settledInst_mkMov {d s : VOperand} (hd : Settled d) (hs : Settled s) :
    SettledInst calls (.mkMov d s) := by
  refine ⟨fun x hx => ?_, fun x hx => ?_, fun hc => by cases hc⟩
  · rw [List.mem_singleton.mp hx]
    exact hd
  · rw [List.mem_singleton.mp hx]
    exact hs

lemma settled_getD {l : List VOperand} (hl : ∀ x ∈ l, Settled x) (k : ℕ) :
    Settled (l.getD k .bad) := by
  rw [List.getD_eq_getElem?_getD]
  cases hk : l[k]? with
  | none => trivial
  | some x => exact hl x (List.mem_of_getElem? hk)

end

/-! ### The selection of operands -/

namespace QSel

variable {calls : Prop} {vi vi' : VRegsInfo} {c : InstCt} {st st' : SelState} {i : ℕ}

/-- The code of an instruction is settled. -/
structure SelState.Settled (calls : Prop) (st : SelState) : Prop where
  code : ∀ ins ∈ st.code, SettledInst calls ins
  ins : SettledInst calls st.ins

lemma SelState.Settled.createVGPR (h : st.Settled calls) (t : VType) :
    (st.createVGPR t).2.Settled calls ∧ Qcg.Settled (st.createVGPR t).1 :=
  ⟨⟨h.code, h.ins⟩, trivial⟩

lemma SelState.Settled.emitMov {d s : VOperand} (h : st.Settled calls) (hd : Qcg.Settled d)
    (hs : Qcg.Settled s) : (st.emitMov d s).Settled calls := by
  refine ⟨fun ins hins => ?_, h.ins⟩
  rcases List.mem_append.mp hins with hins | hins
  · exact h.code ins hins
  · rw [List.mem_singleton.mp hins]
    exact settledInst_mkMov hd hs

lemma SelState.Settled.setI {x : VOperand} (h : st.Settled calls) (k : ℕ) (hx : Qcg.Settled x) :
    (st.setI k x).Settled calls := ⟨h.code, h.ins.setI k hx⟩

lemma SelState.Settled.foldl_setI {x : VOperand} (h : st.Settled calls) (hx : Qcg.Settled x)
    (ks : List ℕ) : (ks.foldl (fun st k => st.setI k x) st).Settled calls := by
  induction ks generalizing st with
  | nil => exact h
  | cons k ks ih => exact ih (h.setI k hx)

lemma settled_satisfyAlias (h : st.Settled calls) (hst : satisfyAlias c i st = some st') :
    st'.Settled calls := by
  simp only [satisfyAlias] at hst
  split at hst
  · cases hst
    exact h
  split at hst
  · split at hst
    · cases hst
      exact h
    · rename_i t d hdst _
      have hsrc : Qcg.Settled (st.ins.i.getD i .bad) := settled_getD h.ins.i i
      cases hst
      refine SelState.Settled.setI (.emitMov ?_ (settled_vgpr t d) hsrc) i (settled_vgpr t d)
      split
      · exact h
      · obtain ⟨hst, htmp⟩ := h.createVGPR t
        exact .foldl_setI (hst.emitMov htmp (settled_vgpr t d)) htmp _
  · cases hst

lemma settled_lowerConst (h : st.Settled calls) : (lowerConst c i st).Settled calls := by
  simp only [lowerConst]
  split
  · split
    · exact h
    · rename_i type val _ _
      obtain ⟨hst, htmp⟩ := h.createVGPR type
      exact (hst.emitMov htmp (settled_const type val)).setI i htmp
  · exact h

lemma settled_lowerConsts (h : st.Settled calls) (l : List ℕ) :
    (l.foldl (fun st i => lowerConst c i st) st).Settled calls := by
  induction l generalizing st with
  | nil => exact h
  | cons i l ih => exact ih (settled_lowerConst h)

lemma settled_visit {ins : Inst} (h : SettledInst calls ins) (hst : visit vi ins = some st) :
    st.Settled calls := by
  have hstart : (⟨vi, [], ins⟩ : SelState).Settled calls :=
    ⟨fun i hi => absurd hi List.not_mem_nil, h⟩
  have hselect : selectOperands vi ins = some st → st.Settled calls := by
    intro hsel
    obtain ⟨c, -, hsel⟩ := Option.bind_eq_some_iff.mp hsel
    obtain ⟨st₁, hst₁, hsel⟩ := Option.bind_eq_some_iff.mp hsel
    cases hsel
    exact settled_lowerConsts
      (FoldM.keeps hst₁ hstart fun i _ u u' hu h => settled_satisfyAlias h hu) _
  rw [visit] at hst
  split at hst
  · cases hst
    exact hstart
  · cases hst
    exact hstart
  · cases hst
    exact hstart
  · exact hselect hst

lemma settled_runInsts {l l' : List Inst} (h : ∀ ins ∈ l, SettledInst calls ins)
    (hrun : runInsts vi l = some (vi', l')) : ∀ ins ∈ l', SettledInst calls ins := by
  induction l generalizing vi l' with
  | nil =>
    cases hrun
    exact h
  | cons ins l ih =>
    obtain ⟨st, hst, hrun⟩ := Option.bind_eq_some_iff.mp hrun
    obtain ⟨⟨vi₁, code⟩, hcode, hrun⟩ := Option.bind_eq_some_iff.mp hrun
    cases hrun
    have hset := settled_visit (h ins (.head _)) hst
    intro ins' hins'
    rcases List.mem_append.mp hins' with hins' | hins'
    · rcases List.mem_append.mp hins' with hins' | hins'
      · exact hset.code ins' hins'
      · rw [List.mem_singleton.mp hins']
        exact hset.ins
    · exact ih (fun i hi => h i (.tail _ hi)) hcode ins' hins'

lemma settled_runBlocks {bs bs' : List Block}
    (h : ∀ blk ∈ bs, ∀ ins ∈ blk.ilist, SettledInst calls ins)
    (hrun : runBlocks vi bs = some (vi', bs')) :
    ∀ blk ∈ bs', ∀ ins ∈ blk.ilist, SettledInst calls ins := by
  induction bs generalizing vi bs' with
  | nil =>
    cases hrun
    exact h
  | cons blk bs ih =>
    obtain ⟨⟨vi₁, code⟩, hcode, hrun⟩ := Option.bind_eq_some_iff.mp hrun
    obtain ⟨⟨vi₂, rest⟩, hrest, hrun⟩ := Option.bind_eq_some_iff.mp hrun
    cases hrun
    intro blk' hblk'
    rcases List.mem_cons.mp hblk' with rfl | hblk'
    · exact settled_runInsts (h blk (.head _)) hcode
    · exact ih (fun b hb => h b (.tail _ hb)) hrest blk' hblk'

/-- The selection keeps operands settled, and where there is a call it says so. -/
lemma settled_run {r r' : Region} {info : MachineRegionInfo} (h : SettledRegion r)
    (hrun : run r = some (r', info)) :
    ∀ blk ∈ r'.blist, ∀ ins ∈ blk.ilist, SettledInst (info.has_calls = true) ins := by
  obtain ⟨⟨vi₁, bs⟩, hbs, hrun⟩ := Option.bind_eq_some_iff.mp hrun
  cases hrun
  refine settled_runBlocks (fun blk hblk ins hins => ?_) hbs
  obtain ⟨ho, hi, -⟩ := h blk hblk ins hins
  refine ⟨ho, hi, fun hc => ?_⟩
  exact List.any_eq_true.mpr ⟨blk, hblk, List.any_eq_true.mpr ⟨ins, hins, hc⟩⟩

end QSel

/-! ### The allocation of registers -/

namespace QRegAlloc

/-- Whatever the tracks say, registers are of the pool and slots of the frame. -/
structure Settled (calls : Prop) (ra : QRegAlloc) : Prop where
  pool : ∀ v, Pool (ra.vregs v).p
  frame : ∀ v, (ra.vregs v).isGlobal = false → (ra.vregs v).spillOffs ≠ NO_SPILL →
    (ra.vregs v).spillOffs < spillframe_size
  code : ∀ ins ∈ ra.code, SettledInst calls ins

variable {calls : Prop} {ra ra' : QRegAlloc} {v p : ℕ} {desire avoid : RegMask} {ins ins' : Inst}
  {c : InstCt} {i : ℕ}

namespace Settled

lemma emit (h : ra.Settled calls) (hins : SettledInst calls ins) : (ra.emit ins).Settled calls := by
  refine ⟨h.pool, h.frame, fun i hi => ?_⟩
  rcases List.mem_append.mp hi with hi | hi
  · exact h.code i hi
  · rw [List.mem_singleton.mp hi]
    exact hins

lemma setP2v (h : ra.Settled calls) (p : ℕ) (v : Option ℕ) : (ra.setP2v p v).Settled calls :=
  ⟨h.pool, h.frame, h.code⟩

lemma setTrack {t : RTrack} (h : ra.Settled calls) (hp : Pool t.p)
    (hf : t.isGlobal = false → t.spillOffs ≠ NO_SPILL → t.spillOffs < spillframe_size) :
    (ra.setTrack v t).Settled calls := by
  refine ⟨fun w => ?_, fun w => ?_, h.code⟩
  · rw [vregs_setTrack]
    split
    · exact hp
    · exact h.pool w
  · rw [vregs_setTrack]
    split
    · exact hf
    · exact h.frame w

/-- A register that moves to another place of the pool. -/
lemma move (h : ra.Settled calls) (hp : Pool p) (l : Location) (b : Bool) :
    (ra.setTrack v { ra.vregs v with p := p, loc := l, spillSynced := b }).Settled calls :=
  h.setTrack hp (h.frame v)

lemma slotOf (h : ra.Settled calls) (hs : (ra.vregs v).isGlobal = false →
    (ra.vregs v).spillOffs ≠ NO_SPILL) : Qcg.Settled (slotOf (ra.vregs v)) := by
  rw [QRegAlloc.slotOf]
  cases hg : (ra.vregs v).isGlobal with
  | true => trivial
  | false => exact h.frame v hg (hs hg)

lemma emitSpill (h : ra.Settled calls) (hra : ra.emitSpill v = some ra') : ra'.Settled calls := by
  have hspill : ∀ {r : QRegAlloc}, r.Settled calls →
      ((r.vregs v).isGlobal = false → (r.vregs v).spillOffs ≠ NO_SPILL) →
      (r.emit (.mkMov (QRegAlloc.slotOf (r.vregs v)) (.pgpr (r.vregs v).type (r.vregs v).p))).Settled
        calls := fun hr hs => hr.emit (settledInst_mkMov (hr.slotOf hs) (hr.pool v))
  simp only [QRegAlloc.emitSpill] at hra
  split at hra
  · obtain ⟨ra₁, h₁, hra⟩ := Option.bind_eq_some_iff.mp hra
    cases hra
    obtain ⟨hno, hg, o, -, -, hend, rfl⟩ := allocFrameSlot_eq_some h₁
    have htype : 0 < (ra.vregs v).type.toSize := by
      rw [allocFrameSlot] at h₁
      split at h₁
      · cases h₁
      · rename_i hc
        cases ht : (ra.vregs v).type <;> simp_all [VType.toSize]
    have ho : o < spillframe_size := by omega
    have hslot : (ra.setTrack v { ra.vregs v with spillOffs := o }).Settled calls :=
      h.setTrack (h.pool v) fun _ _ => ho
    refine hspill ⟨hslot.pool, hslot.frame, hslot.code⟩ fun _ => ?_
    simp only [vregs_setTrack, if_true]
    rw [NO_SPILL]
    rw [spillframe_size] at ho
    omega
  · rename_i hc
    cases hra
    refine hspill h fun hg => ?_
    simpa [hg] using hc

lemma syncSpill (h : ra.Settled calls) (hra : ra.syncSpill v = some ra') : ra'.Settled calls := by
  rw [QRegAlloc.syncSpill] at hra
  split at hra
  · cases hra
    exact h
  split at hra
  · cases hra
    exact h
  · obtain ⟨ra₁, h₁, hra⟩ := Option.bind_eq_some_iff.mp hra
    cases hra
    have h₁ := h.emitSpill h₁
    exact h₁.setTrack (h₁.pool v) (h₁.frame v)
  · cases hra

lemma release (h : ra.Settled calls) (kill : Bool) (v : ℕ) :
    (ra.release kill v).Settled calls := by
  have hset : ∀ l, (ra.setTrack v { ra.vregs v with loc := l }).Settled calls :=
    fun l => h.setTrack (h.pool v) (h.frame v)
  rw [QRegAlloc.release]
  split
  · exact (hset _).setP2v _ _
  · exact hset _

lemma spill (h : ra.Settled calls) (hra : ra.spill v = some ra') : ra'.Settled calls := by
  obtain ⟨ra₁, h₁, hra⟩ := Option.bind_eq_some_iff.mp hra
  cases hra
  exact (h.syncSpill h₁).release false v

lemma spillPreg (h : ra.Settled calls) (hra : ra.spillPreg p = some ra') : ra'.Settled calls := by
  rw [QRegAlloc.spillPreg] at hra
  split at hra
  · cases hra
    exact h
  · exact h.spill hra

/-- The register that is handed out is not reserved. -/
lemma allocPReg (h : ra.Settled calls) (ha : AvoidsFixed avoid)
    (hra : ra.allocPReg desire avoid = some (p, ra')) : ra'.Settled calls ∧ Pool p := by
  have hpool : ∀ q, q ∈ List.range N_PREGS → (desire.inter avoid.compl).test q = true → Pool q := by
    intro q hq ht
    have hlt : q < N_PREGS := List.mem_range.mp hq
    simp only [N_PREGS, GPR_NUM] at hlt
    rw [RegMask.test_inter_compl _ _ (by omega), Bool.and_eq_true, Bool.not_eq_true'] at ht
    exact ⟨hlt, ha.not_fixed ht.2⟩
  rw [QRegAlloc.allocPReg] at hra
  split at hra
  · rename_i q hq
    cases hra
    have hfound := List.find?_some hq
    simp only [Bool.and_eq_true] at hfound
    exact ⟨h, hpool _ (List.mem_of_find?_eq_some hq) hfound.2⟩
  split at hra
  · rename_i q hq
    obtain ⟨ra₁, h₁, hra⟩ := Option.bind_eq_some_iff.mp hra
    cases hra
    have hfound := List.find?_some hq
    exact ⟨h.spillPreg h₁, hpool _ (List.mem_of_find?_eq_some hq) hfound⟩
  · cases hra

lemma fill (h : ra.Settled calls) (ha : AvoidsFixed avoid)
    (hra : ra.fill v desire avoid = some ra') : ra'.Settled calls := by
  rw [QRegAlloc.fill] at hra
  split at hra
  · obtain ⟨⟨p, ra₁⟩, h₁, hra⟩ := Option.bind_eq_some_iff.mp hra
    obtain ⟨h₁, hp⟩ := h.allocPReg ha h₁
    have hset := (h₁.move (v := v) hp .REG true).setP2v p (some v)
    simp only [emitFill] at hra
    split at hra
    · cases hra
    · rename_i hno
      cases hra
      exact hset.emit (settledInst_mkMov (hset.pool v) (hset.slotOf fun _ => hno))
  · cases hra
    exact h
  · cases hra

/-! ### Loops over the registers -/

/-- A loop that does something settled to some of the registers. -/
lemma loop {l : List ℕ} {f : QRegAlloc → ℕ → Option QRegAlloc} (h : ra.Settled calls)
    (hra : l.foldlM f ra = some ra')
    (hf : ∀ r v r', r.Settled calls → f r v = some r' → r'.Settled calls) : ra'.Settled calls :=
  FoldM.keeps hra h fun v _ r r' hr h => hf r v r' h hr

lemma syncGlobals (h : ra.Settled calls) (hra : ra.syncGlobals = some ra') : ra'.Settled calls := by
  refine h.loop hra fun r v r' hr hf => ?_
  split at hf
  · exact hr.syncSpill hf
  · cases hf
    exact hr

/-- A loop that spills the globals. -/
lemma spillGlobals {n : ℕ} (h : ra.Settled calls)
    (hra : (List.range n).foldlM (fun ra v =>
      if (ra.vregs v).isGlobal then ra.spill v else some ra) ra = some ra') :
    ra'.Settled calls := by
  refine h.loop hra fun r v r' hr hf => ?_
  split at hf
  · exact hr.spill hf
  · cases hf
    exact hr

lemma blockBoundary (h : ra.Settled calls) (hra : ra.blockBoundary = some ra') :
    ra'.Settled calls := h.spillGlobals hra

lemma regionBoundary (h : ra.Settled calls) (hra : ra.regionBoundary = some ra') :
    ra'.Settled calls := by
  refine h.loop hra fun r v r' hr hf => ?_
  split at hf
  · exact hr.spill hf
  · cases hf
    exact hr.release false v

lemma callOp (h : ra.Settled calls) (hra : ra.callOp = some ra') : ra'.Settled calls := by
  obtain ⟨ra₁, h₁, hra⟩ := Option.bind_eq_some_iff.mp hra
  have h₁ : ra₁.Settled calls := by
    refine h.loop h₁ fun r p r' hr hf => ?_
    split at hf
    · exact hr.spillPreg hf
    · cases hf
      exact hr
  split at hra
  · exact h₁.spillGlobals hra
  · cases hra

lemma prologue (h : ra.Settled calls) : ra.prologue.Settled calls := by
  rw [QRegAlloc.prologue]
  generalize List.range ra.nVregs = l
  induction l generalizing ra with
  | nil => exact h
  | cons v l ih => exact ih (h.setTrack (h.pool v) (h.frame v))

end Settled

/-! ### Instructions -/

/-- The operands that have been handled are settled, and no more than settled ones are to come. -/
structure OpState.Settled (calls : Prop) (st : OpState) : Prop where
  ra : st.ra.Settled calls
  avoid : AvoidsFixed st.avoid
  ins : SettledInst calls st.ins

variable {st st' : OpState}

lemma AvoidsFixed.set (h : AvoidsFixed avoid) (hp : Pool p) : AvoidsFixed (avoid.set p) := by
  intro q hq
  have hlt := hp.1
  simp only [GPR_NUM] at hlt
  rw [RegMask.test_set (by omega), h q hq, Bool.or_true]

namespace OpState.Settled

lemma allocInput (h : st.Settled calls) (hst : QRegAlloc.allocInput c i st = some st') :
    st'.Settled calls := by
  rw [QRegAlloc.allocInput] at hst
  simp only at hst
  split at hst
  · rename_i type v _
    obtain ⟨ra₁, h₁, hst⟩ := Option.bind_eq_some_iff.mp hst
    have h₁ := h.ra.fill h.avoid h₁
    split at hst
    · cases hst
      exact ⟨h₁, h.avoid.set (h₁.pool v), h.ins.setI i (h₁.pool v)⟩
    · obtain ⟨⟨p, ra₂⟩, h₂, hst⟩ := Option.bind_eq_some_iff.mp hst
      cases hst
      obtain ⟨h₂, hp⟩ := h₁.allocPReg h.avoid h₂
      exact ⟨h₂.emit (settledInst_mkMov hp (h₂.pool v)), h.avoid.set hp, h.ins.setI i hp⟩
  · cases hst
    exact h

lemma allocOutput (h : st.Settled calls) (hst : QRegAlloc.allocOutput c i st = some st') :
    st'.Settled calls := by
  rw [QRegAlloc.allocOutput] at hst
  simp only at hst
  split at hst
  · rename_i type v _
    -- the output is in the register that its track says
    have hplaced : ∀ {r : QRegAlloc}, r.Settled calls → OpState.Settled calls
        ⟨r.setTrack v { r.vregs v with spillSynced := false }, st.avoid.set (r.vregs v).p,
          st.ins.setO i (.pgpr type (r.vregs v).p)⟩ := fun hr =>
      ⟨hr.setTrack (hr.pool v) (hr.frame v), h.avoid.set (hr.pool v), h.ins.setO i (hr.pool v)⟩
    split at hst
    · cases hst
      exact hplaced h.ra
    · obtain ⟨⟨p, ra₂⟩, h₂, hst⟩ := Option.bind_eq_some_iff.mp hst
      cases hst
      obtain ⟨h₂, hp⟩ := h.ra.allocPReg h.avoid h₂
      refine hplaced (QRegAlloc.Settled.setTrack (QRegAlloc.Settled.setP2v ?_ p (some v)) hp
        (h₂.frame v))
      split
      · exact h₂.setP2v _ _
      · exact h₂
  · cases hst
    exact h

end OpState.Settled

lemma Settled.allocOp (h : ra.Settled calls) (hins : SettledInst calls ins)
    (hra : ra.allocOp ins = some (ra', ins')) : ra'.Settled calls ∧ SettledInst calls ins' := by
  obtain ⟨c, -, hra⟩ := Option.bind_eq_some_iff.mp hra
  obtain ⟨st, hst, hra⟩ := Option.bind_eq_some_iff.mp hra
  have hst : st.Settled calls :=
    FoldM.keeps hst ⟨h, fun _ hp => hp, hins⟩ fun i _ u u' hu h => h.allocInput hu
  have houtputs : ∀ {r : QRegAlloc}, r.Settled calls →
      ((c.orderOut.foldlM (fun st i => QRegAlloc.allocOutput c i st) { st with ra := r }).bind
        fun st => some (st.ra, st.ins)) = some (ra', ins') →
      ra'.Settled calls ∧ SettledInst calls ins' := by
    intro r hr hout
    obtain ⟨st', hst', hout⟩ := Option.bind_eq_some_iff.mp hout
    cases hout
    have hst' : st'.Settled calls :=
      FoldM.keeps hst' ⟨hr, hst.avoid, hst.ins⟩ fun i _ u u' hu h => h.allocOutput hu
    exact ⟨hst'.ra, hst'.ins⟩
  simp only at hra
  split at hra
  · obtain ⟨ra₁, h₁, hra⟩ := Option.bind_eq_some_iff.mp hra
    exact houtputs (hst.ra.syncGlobals h₁) hra
  · exact houtputs hst.ra hra

lemma Settled.visit (h : ra.Settled calls) (hins : SettledInst calls ins)
    (hra : ra.visit ins = some (ra', ins')) : ra'.Settled calls ∧ SettledInst calls ins' := by
  cases hop : ins.op <;> simp only [QRegAlloc.visit, hop] at hra
  case br =>
    obtain ⟨ra₁, h₁, hra⟩ := Option.bind_eq_some_iff.mp hra
    cases hra
    exact ⟨h.blockBoundary h₁, hins⟩
  case brcc =>
    obtain ⟨⟨ra₁, ins₁⟩, h₁, hra⟩ := Option.bind_eq_some_iff.mp hra
    obtain ⟨ra₂, h₂, hra⟩ := Option.bind_eq_some_iff.mp hra
    cases hra
    obtain ⟨h₁, hins₁⟩ := h.allocOp hins h₁
    exact ⟨h₁.blockBoundary h₂, hins₁⟩
  case gbr =>
    obtain ⟨ra₁, h₁, hra⟩ := Option.bind_eq_some_iff.mp hra
    cases hra
    exact ⟨h.regionBoundary h₁, hins⟩
  case gbrind =>
    obtain ⟨⟨ra₁, ins₁⟩, h₁, hra⟩ := Option.bind_eq_some_iff.mp hra
    obtain ⟨ra₂, h₂, hra⟩ := Option.bind_eq_some_iff.mp hra
    cases hra
    obtain ⟨h₁, hins₁⟩ := h.allocOp hins h₁
    exact ⟨h₁.regionBoundary h₂, hins₁⟩
  case hcall =>
    obtain ⟨ra₁, h₁, hra⟩ := Option.bind_eq_some_iff.mp hra
    cases hra
    exact ⟨h.callOp h₁, hins⟩
  all_goals exact h.allocOp hins hra

lemma Settled.runBlock {blk blk' : Block} (h : ra.Settled calls)
    (hblk : ∀ ins ∈ blk.ilist, SettledInst calls ins) (hra : ra.runBlock blk = some (ra', blk')) :
    ra'.Settled calls ∧ ∀ ins ∈ blk'.ilist, SettledInst calls ins := by
  obtain ⟨ra₁, h₁, hra⟩ := Option.bind_eq_some_iff.mp hra
  cases hra
  have hstart : ({ ra with code := [] } : QRegAlloc).Settled calls :=
    ⟨h.pool, h.frame, fun ins hins => absurd hins List.not_mem_nil⟩
  have h₁ : ra'.Settled calls := by
    refine FoldM.keeps h₁ hstart fun ins hins u u' hu hset => ?_
    obtain ⟨⟨ra₂, ins₂⟩, h₂, hu⟩ := Option.bind_eq_some_iff.mp hu
    cases hu
    obtain ⟨h₂, hins₂⟩ := hset.visit (hblk ins hins) h₂
    exact h₂.emit hins₂
  exact ⟨h₁, h₁.code⟩

lemma Settled.runBlocks {bs bs' : List Block} (h : ra.Settled calls)
    (hbs : ∀ blk ∈ bs, ∀ ins ∈ blk.ilist, SettledInst calls ins)
    (hra : QRegAlloc.runBlocks ra bs = some bs') :
    ∀ blk ∈ bs', ∀ ins ∈ blk.ilist, SettledInst calls ins := by
  induction bs generalizing ra bs' with
  | nil =>
    cases hra
    exact hbs
  | cons blk bs ih =>
    obtain ⟨⟨ra₁, blk₁⟩, h₁, hra⟩ := Option.bind_eq_some_iff.mp hra
    obtain ⟨rest, hrest, hra⟩ := Option.bind_eq_some_iff.mp hra
    cases hra
    obtain ⟨h₁, hblk₁⟩ := h.runBlock (hbs blk (.head _)) h₁
    intro blk' hblk'
    rcases List.mem_cons.mp hblk' with rfl | hblk'
    · exact hblk₁
    · exact ih h₁ (fun b hb => hbs b (.tail _ hb)) hrest blk' hblk'

lemma pool_zero : Pool 0 := by decide

/-- All registers start in the pool, and the locals without a slot. -/
lemma settled_init {vi : VRegsInfo} (h : init vi = some ra) : ra.Settled calls := by
  have hstart : ({} : QRegAlloc).Settled calls := by
    refine ⟨fun v => pool_zero, fun v _ hno => absurd rfl hno, fun ins hins => ?_⟩
    cases hins
  have hadd : ∀ {r r' : QRegAlloc} {t : RTrack}, r.Settled calls → Pool t.p →
      (t.isGlobal = false → t.spillOffs = NO_SPILL) → addTrack t r = some r' →
      r'.Settled calls := by
    intro r r' t hr hp hno hadd
    rw [addTrack] at hadd
    split at hadd
    · cases hadd
    · cases hadd
      have hset : (r.setTrack r.nVregs t).Settled calls :=
        hr.setTrack hp fun hg h => absurd (hno hg) h
      exact ⟨hset.pool, hset.frame, hset.code⟩
  obtain ⟨ra₁, h₁, h⟩ := Option.bind_eq_some_iff.mp h
  have h₁ : ra₁.Settled calls := FoldM.keeps h₁ hstart fun g _ u u' hu hset =>
    hadd hset pool_zero (fun hg => by cases hg) hu
  exact FoldM.keeps h h₁ fun t _ u u' hu hset => hadd hset pool_zero (fun _ => rfl) hu

/-- The allocation keeps operands settled and brings in no call. -/
lemma settled_run {r r' : Region} (h : ∀ blk ∈ r.blist, ∀ ins ∈ blk.ilist, SettledInst calls ins)
    (hrun : run r = some r') : ∀ blk ∈ r'.blist, ∀ ins ∈ blk.ilist, SettledInst calls ins := by
  obtain ⟨ra, hra, hrun⟩ := Option.bind_eq_some_iff.mp hrun
  obtain ⟨bs, hbs, hrun⟩ := Option.bind_eq_some_iff.mp hrun
  cases hrun
  exact (settled_init hra).prologue.runBlocks h hbs

end QRegAlloc

end Rv32jit.Qcg
