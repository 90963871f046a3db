/-
# The allocator completes

The files before this one say what an operation of the allocator does if it completes.  Here it
is shown that none of them fails: a register that is read is not dead and has a slot if it is in
memory, the frame has room for every local register, and there is always an admissible physical
register.
-/
import Rv32jit.Codegen.WellFormed

namespace Rv32jit.Qcg

open Qir ArchTraits

/-- The registers of a region for which the frame and the 8-bit counter suffice. -/
structure Spillable (vi : VRegsInfo) : Prop where
  homes : ∀ v g, vi.getGlobalInfo v = some g → g.stateOffs ≠ NO_SPILL
  types : ∀ type ∈ vi.locInfo, type ≠ .UNDEF
  frame : 4 * vi.locInfo.length ≤ spillframe_size
  counter : vi.numAll ≤ 255

namespace QRegAlloc

variable {vi : VRegsInfo} {N W W' : ℕ → Prop} {ra ra' : QRegAlloc} {v p : ℕ}

/-! ### Room in the frame -/

/-- The local registers that have a slot in the frame. -/
def framed (ra : QRegAlloc) : Finset ℕ :=
  (Finset.range ra.nVregs).filter fun v =>
    (ra.vregs v).isGlobal = false ∧ (ra.vregs v).spillOffs ≠ NO_SPILL

/-- A register that has been saved has a slot, one that may be read is somewhere, and the slots
take four bytes each at most. -/
structure Room (W : ℕ → Prop) (ra : QRegAlloc) : Prop where
  slotted : ∀ v, (ra.vregs v).isGlobal = false → (ra.vregs v).spillSynced = true →
    (ra.vregs v).spillOffs ≠ NO_SPILL
  live : ∀ v, (ra.vregs v).isGlobal = false → W v →
    (ra.vregs v).loc ≠ .DEAD ∧ ((ra.vregs v).loc = .MEM → (ra.vregs v).spillOffs ≠ NO_SPILL)
  frame : ra.frameCur ≤ 4 * ra.framed.card

lemma Room.mono (h : Room W ra) (hW : ∀ v, W' v → W v) : Room W' ra :=
  ⟨h.slotted, fun v hg hv => h.live v hg (hW v hv), h.frame⟩

lemma mem_framed : v ∈ ra.framed ↔ v < ra.nVregs ∧ (ra.vregs v).isGlobal = false ∧
    (ra.vregs v).spillOffs ≠ NO_SPILL := by
  rw [framed, Finset.mem_filter, Finset.mem_range]

lemma framed_congr (hn : ra'.nVregs = ra.nVregs)
    (hg : ∀ w, (ra'.vregs w).isGlobal = (ra.vregs w).isGlobal)
    (hs : ∀ w, (ra'.vregs w).spillOffs = (ra.vregs w).spillOffs) : ra'.framed = ra.framed := by
  ext w
  rw [mem_framed, mem_framed, hn, hg, hs]

/-- The rule for an operation that changes the track of one register, but not its slot. -/
lemma Room.update (h : Room W ra) (hn : ra'.nVregs = ra.nVregs)
    (hf : ra'.frameCur = ra.frameCur) (hother : ∀ w, w ≠ v → ra'.vregs w = ra.vregs w)
    (hg : (ra'.vregs v).isGlobal = (ra.vregs v).isGlobal)
    (hs : (ra'.vregs v).spillOffs = (ra.vregs v).spillOffs)
    (hsync : (ra.vregs v).isGlobal = false → (ra'.vregs v).spillSynced = true →
      (ra.vregs v).spillOffs ≠ NO_SPILL)
    (hlive : (ra.vregs v).isGlobal = false → W' v → (ra'.vregs v).loc ≠ .DEAD ∧
      ((ra'.vregs v).loc = .MEM → (ra.vregs v).spillOffs ≠ NO_SPILL))
    (hW : ∀ w, w ≠ v → W' w → W w) : Room W' ra' := by
  have hG : ∀ w, (ra'.vregs w).isGlobal = (ra.vregs w).isGlobal := fun w => by
    by_cases hw : w = v
    · rw [hw, hg]
    · rw [hother w hw]
  have hS : ∀ w, (ra'.vregs w).spillOffs = (ra.vregs w).spillOffs := fun w => by
    by_cases hw : w = v
    · rw [hw, hs]
    · rw [hother w hw]
  refine ⟨fun w hgw hsw => ?_, fun w hgw hww => ?_, ?_⟩
  · rw [hG] at hgw
    rw [hS]
    by_cases hw : w = v
    · subst hw
      exact hsync hgw hsw
    · rw [hother w hw] at hsw
      exact h.slotted w hgw hsw
  · rw [hG] at hgw
    rw [hS]
    by_cases hw : w = v
    · subst hw
      exact hlive hgw hww
    · rw [hother w hw]
      exact h.live w hgw (hW w hw hww)
  · rw [hf, framed_congr hn hG hS]
    exact h.frame

lemma Room.emit (h : Room W ra) (i : Inst) : Room W (ra.emit i) :=
  ⟨h.slotted, h.live, h.frame⟩

lemma Inv.local_type (hi : Inv vi N ra) (hsp : Spillable vi) (hv : v < ra.nVregs)
    (hg : (ra.vregs v).isGlobal = false) : (ra.vregs v).type ≠ .UNDEF := by
  have ht := hi.type v hv
  rw [VRegsInfo.vregType, hi.getGlobalInfo_none hg, VRegsInfo.getLocalType] at ht
  simp only at ht
  split at ht
  · cases ht
  · exact hsp.types _ (List.mem_of_getElem? ht)

/-- A local register without a slot is not counted, so there is room for one. -/
lemma Inv.card_framed_lt (hi : Inv vi N ra) (hv : v < ra.nVregs)
    (hg : (ra.vregs v).isGlobal = false) (hno : (ra.vregs v).spillOffs = NO_SPILL) :
    ra.framed.card < vi.locInfo.length := by
  have hlocal : ∀ w, (ra.vregs w).isGlobal = false → vi.globInfo.regs.length ≤ w := fun w hw => by
    rw [hi.isGlobal, VRegsInfo.isGlobal] at hw
    simpa using hw
  have hcard : (Finset.Ico vi.globInfo.regs.length ra.nVregs).card = vi.locInfo.length := by
    rw [Nat.card_Ico, hi.nVregs, VRegsInfo.numAll]
    omega
  rw [← hcard]
  refine Finset.card_lt_card ((Finset.ssubset_iff_of_subset fun w hw => ?_).mpr ⟨v, ?_, ?_⟩)
  · obtain ⟨hlt, hgw, -⟩ := mem_framed.mp hw
    exact Finset.mem_Ico.mpr ⟨hlocal w hgw, hlt⟩
  · exact Finset.mem_Ico.mpr ⟨hlocal v hg, hv⟩
  · exact fun hw => (mem_framed.mp hw).2.2 hno

lemma roundup_le {x y k : ℕ} (hy : y = 1 ∨ y = 2 ∨ y = 4) (hx : x ≤ 4 * k) :
    roundup x y ≤ 4 * k := by
  rw [roundup]
  rcases hy with rfl | rfl | rfl <;> omega

/-- A slot in the frame for a register that has none. -/
lemma Room.allocFrameSlot (hsp : Spillable vi) (hi : Inv vi N ra) (h : Room W ra)
    (hl : (ra.vregs v).loc ≠ .DEAD) (hg : (ra.vregs v).isGlobal = false)
    (hno : (ra.vregs v).spillOffs = NO_SPILL) :
    ∃ ra', ra.allocFrameSlot v = some ra' ∧ Room W ra' ∧
      (ra'.vregs v).spillOffs ≠ NO_SPILL := by
  have hv := hi.lt_of_loc hl
  have htype := hi.local_type hsp hv hg
  have hcard := hi.card_framed_lt hv hg hno
  have hframe := hsp.frame
  have hsize : (ra.vregs v).type.toSize = 1 ∨ (ra.vregs v).type.toSize = 2 ∨
      (ra.vregs v).type.toSize = 4 := by
    cases ht : (ra.vregs v).type <;> simp [VType.toSize]
    exact htype ht
  have hround := roundup_le hsize h.frame
  rw [spillframe_size] at hframe
  rw [QRegAlloc.allocFrameSlot, if_neg (by simp [hno, hg, htype])]
  simp only
  obtain ⟨o, ho⟩ : ∃ o, roundup ra.frameCur (ra.vregs v).type.toSize = o := ⟨_, rfl⟩
  rw [ho] at hround ⊢
  have hne : o ≠ NO_SPILL := by
    rw [NO_SPILL]
    omega
  rw [if_neg (by rw [spillframe_size]; omega)]
  refine ⟨_, rfl, ⟨fun w => ?_, fun w => ?_, ?_⟩, by simpa using hne⟩
  · by_cases hw : w = v
    · subst hw
      simpa using fun _ _ => hne
    · simpa [hw] using h.slotted w
  · by_cases hw : w = v
    · subst hw
      simpa [hne] using fun _ _ => hl
    · simpa [hw] using h.live w
  · -- one slot more
    have hnot : v ∉ ra.framed := fun hv => (mem_framed.mp hv).2.2 hno
    have hinsert : ({ ra.setTrack v { ra.vregs v with spillOffs := o } with
        frameCur := o + (ra.vregs v).type.toSize } : QRegAlloc).framed = insert v ra.framed := by
      ext w
      rw [Finset.mem_insert, mem_framed, mem_framed]
      by_cases hw : w = v
      · subst hw
        simpa [hne, hg] using hv
      · simp [hw]
    rw [hinsert, Finset.card_insert_of_notMem hnot]
    simp only
    omega

/-! ### Spilling -/

/-- The register has been stored to its slot. -/
lemma Room.store (h : Room W ra) (i : Inst) (hl : (ra.vregs v).loc = .REG)
    (hs : (ra.vregs v).isGlobal = false → (ra.vregs v).spillOffs ≠ NO_SPILL) :
    Room W ((ra.emit i).setTrack v { ra.vregs v with spillSynced := true }) := by
  refine h.update (v := v) rfl rfl (fun w hw => by simp [hw]) (by simp) (by simp)
    (fun hg _ => hs hg) (fun _ _ => by simp [hl]) (fun _ _ => id)

lemma Room.syncSpill (hsp : Spillable vi) (hi : Inv vi N ra) (h : Room W ra)
    (hl : (ra.vregs v).loc ≠ .DEAD) : ∃ ra', ra.syncSpill v = some ra' ∧ Room W ra' := by
  rw [QRegAlloc.syncSpill]
  split
  · exact ⟨ra, rfl, h⟩
  split
  · exact ⟨ra, rfl, h⟩
  · rename_i hreg
    simp only [emitSpill]
    split
    · rename_i hc
      simp only [Bool.and_eq_true, Bool.not_eq_true', beq_iff_eq] at hc
      obtain ⟨ra1, h1, hr1, hne⟩ := h.allocFrameSlot hsp hi hl hc.1 hc.2
      obtain ⟨-, -, o, -, -, -, heq⟩ := allocFrameSlot_eq_some h1
      simp only [h1, Option.bind_eq_bind, Option.bind_some]
      exact ⟨_, rfl, hr1.store _ (by rw [heq]; simpa using hreg) fun _ => hne⟩
    · rename_i hc
      simp only [Option.bind_eq_bind, Option.bind_some]
      exact ⟨_, rfl, h.store _ hreg fun hg => by simpa [hg] using hc⟩
  · rename_i hd
    exact absurd hd hl

/-- A register leaves its physical register. -/
lemma Room.release (h : Room W ra) (hW : ∀ w, W' w → W w)
    (hs : (ra.vregs v).isGlobal = false → W' v → (ra.vregs v).loc = .REG →
      (ra.vregs v).spillOffs ≠ NO_SPILL) : Room W' (ra.release false v) := by
  refine h.update (v := v) (by simp) (by simp) (fun w hw => by simp [hw]) (by simp) (by simp)
    (fun hg hsy => h.slotted v hg (by simpa using hsy)) (fun hg hw => ⟨by simp, fun _ => ?_⟩)
    (fun w _ => hW w)
  obtain ⟨hd, hm⟩ := h.live v hg (hW v hw)
  cases hl : (ra.vregs v).loc with
  | DEAD => exact absurd hl hd
  | MEM => exact hm hl
  | REG => exact hs hg hw hl

lemma Room.spill (hsp : Spillable vi) (hi : Inv vi N ra) (h : Room W ra)
    (hl : (ra.vregs v).loc ≠ .DEAD) : ∃ ra', ra.spill v = some ra' ∧ Room W ra' := by
  obtain ⟨ra1, h1, hr1⟩ := h.syncSpill hsp hi hl
  obtain ⟨-, hspec⟩ := step_syncSpill idleEnv vi N W (fun _ => False) h1
  simp only [QRegAlloc.spill, h1, Option.bind_eq_bind, Option.bind_some]
  refine ⟨_, rfl, hr1.release (fun _ => id) fun hg _ hreg => hr1.slotted v hg ?_⟩
  exact hspec.synced (by rwa [← hspec.loc])

lemma Room.spillPreg (hsp : Spillable vi) (hi : Inv vi N ra) (h : Room W ra) (p : ℕ) :
    ∃ ra', ra.spillPreg p = some ra' ∧ Room W ra' := by
  rw [QRegAlloc.spillPreg]
  split
  · exact ⟨ra, rfl, h⟩
  · rename_i v hp
    exact h.spill hsp hi (by simp [((hi.p2v p v).mp hp).1])

/-! ### Physical registers -/

/-- Besides the fixed registers at most `k` are taken. -/
def Few (k : ℕ) (avoid : RegMask) : Prop :=
  ∃ l : List ℕ, l.length ≤ k ∧ ∀ p, avoid.test p = true → GPR_FIXED.test p = true ∨ p ∈ l

/-- Of the registers in `desire` one is free whenever at most `k` are taken. -/
def Admits (desire : RegMask) (k : ℕ) : Prop :=
  ∀ avoid, Few k avoid → ∃ p < N_PREGS, desire.test p = true ∧ avoid.test p = false

lemma few_fixed : Few 0 GPR_FIXED := ⟨[], le_rfl, fun _ => Or.inl⟩

lemma Few.mono {k l : ℕ} {avoid : RegMask} (h : Few k avoid) (hkl : k ≤ l) : Few l avoid := by
  obtain ⟨ps, hlen, hps⟩ := h
  exact ⟨ps, hlen.trans hkl, hps⟩

lemma Few.set {k : ℕ} {avoid : RegMask} (h : Few k avoid) (hp : p < N_PREGS) :
    Few (k + 1) (avoid.set p) := by
  obtain ⟨l, hl, havoid⟩ := h
  refine ⟨p :: l, Nat.succ_le_succ hl, fun q hq => ?_⟩
  rw [RegMask.test_set (by simp only [N_PREGS, GPR_NUM] at hp; omega)] at hq
  rcases (Bool.or_eq_true _ _).mp hq with hq | hq
  · exact Or.inr (by simp [of_decide_eq_true hq])
  · exact (havoid q hq).imp_right (List.mem_cons_of_mem p)

/-- A register that is not fixed is free as long as no operand has been placed. -/
lemma admits_zero {desire : RegMask} (hp : p < N_PREGS) (hd : desire.test p = true)
    (hf : GPR_FIXED.test p = false) : Admits desire 0 := by
  rintro avoid ⟨l, hl, havoid⟩
  refine ⟨p, hp, hd, ?_⟩
  by_contra h
  rcases havoid p (by simpa using h) with h | h
  · rw [hf] at h
    cases h
  · rw [List.eq_nil_of_length_eq_zero (Nat.le_zero.mp hl)] at h
    cases h

/-- Two operands do not take all registers. -/
lemma admits_all {k : ℕ} (hk : k ≤ 2) : Admits GPR_ALL k := by
  rintro avoid ⟨l, hl, havoid⟩
  have hfree : ∀ p ∈ [RAX, RCX, RDX], p < N_PREGS ∧ GPR_FIXED.test p = false := by decide
  -- one of three registers is not in a list of two
  obtain ⟨p, hp, hpl⟩ : ∃ p ∈ [RAX, RCX, RDX], p ∉ l := by
    by_contra hall
    push Not at hall
    have hsub : [RAX, RCX, RDX] ⊆ l := hall
    have hnodup : [RAX, RCX, RDX].Nodup := by decide
    have := (hnodup.subperm hsub).length_le
    simp only [List.length_cons, List.length_nil] at this
    omega
  obtain ⟨hlt, hfix⟩ := hfree p hp
  refine ⟨p, hlt, test_GPR_ALL hlt, ?_⟩
  by_contra h
  rcases havoid p (by simpa using h) with h | h
  · rw [hfix] at h
    cases h
  · exact hpl h

lemma Room.allocPReg (hsp : Spillable vi) (hi : Inv vi N ra) (h : Room W ra)
    {desire avoid : RegMask} {k : ℕ} (hd : Admits desire k) (ha : Few k avoid) :
    ∃ p ra', ra.allocPReg desire avoid = some (p, ra') ∧ Room W ra' := by
  simp only [QRegAlloc.allocPReg]
  split
  · exact ⟨_, _, rfl, h⟩
  split
  · rename_i q _
    obtain ⟨ra', h1, hr⟩ := h.spillPreg hsp hi q
    simp only [h1, Option.bind_eq_bind, Option.bind_some]
    exact ⟨_, _, rfl, hr⟩
  · rename_i hnone
    obtain ⟨p, hp, hdp, hap⟩ := hd avoid ha
    have := List.find?_eq_none.mp hnone p (List.mem_range.mpr hp)
    rw [RegMask.test_inter_compl _ _ (by simp only [N_PREGS, GPR_NUM] at hp; omega), hdp,
      hap] at this
    exact absurd rfl this

lemma Room.fill (hsp : Spillable vi) (hi : Inv vi N ra) (h : Room W ra) {desire avoid : RegMask}
    {k : ℕ} (hd : Admits desire k) (ha : Few k avoid) (hW : (ra.vregs v).isGlobal = true ∨ W v) :
    ∃ ra', ra.fill v desire avoid = some ra' ∧ Room W ra' := by
  rw [QRegAlloc.fill]
  split
  · rename_i hl
    obtain ⟨p, ra1, h1, hr1⟩ := h.allocPReg hsp hi hd ha
    obtain ⟨-, hspec⟩ := step_allocPReg idleEnv W (fun _ => False) hi h1
    have hv : ra1.vregs v = ra.vregs v := hspec.other v (by simp [hl])
    have hslot : (ra.vregs v).spillOffs ≠ NO_SPILL := by
      cases hg : (ra.vregs v).isGlobal with
      | true =>
        obtain ⟨g, hgi⟩ := hi.getGlobalInfo_isSome hg
        rw [(hi.home v g hgi).1]
        exact hsp.homes v g hgi
      | false =>
        rw [hg] at hW
        exact (h.live v hg (hW.resolve_left (by decide))).2 hl
    simp only [h1, emitFill, Option.bind_eq_bind, Option.bind_some, vregs_setP2v, vregs_setTrack,
      if_true, hv, hslot, if_false]
    refine ⟨_, rfl, Room.emit ?_ _⟩
    refine hr1.update (v := v) rfl rfl (fun w hw => by simp [hw]) (by simp [hv]) (by simp [hv])
      (fun _ _ => by rwa [hv]) (fun _ _ => ⟨by simp, fun _ => by rwa [hv]⟩) (fun _ _ => id)
  · exact ⟨ra, rfl, h⟩
  · rename_i hl
    rcases hW with hg | hw
    · exact absurd hl (hi.alive v hg)
    · cases hg : (ra.vregs v).isGlobal with
      | true => exact absurd hl (hi.alive v hg)
      | false => exact absurd hl (h.live v hg hw).1

/-! ### The operands of an instruction -/

/-- The constraint of each input admits a register when the inputs before it are placed, and
that of each output when all inputs are. -/
lemma admits_operands {op : Op} {c : InstCt} (h : opCt op = some c) :
    (∀ j i, c.orderIn[j]? = some i → Admits (ctOf c (op.nOut + i)).cr j) ∧
      ((ctOf c 0).hasAlias = false → 0 < op.nOut → Admits (ctOf c 0).cr 2) := by
  have hcases : (∀ j < op.nIn, (ctOf c (op.nOut + c.orderIn.getD j 0)).cr = GPR_ALL ∨
      j = 0 ∧ ∃ p ∈ [RCX, RSI], (ctOf c (op.nOut + c.orderIn.getD j 0)).cr.test p = true) ∧
      ((ctOf c 0).hasAlias = false → 0 < op.nOut → (ctOf c 0).cr = GPR_ALL) := by
    cases op <;> simp only [opCt, Option.some.injEq, reduceCtorEq] at h <;> subst h <;>
      simp only [Op.nOut, Op.nIn] <;> decide
  have hfree : ∀ p ∈ [RCX, RSI], p < N_PREGS ∧ GPR_FIXED.test p = false := by decide
  have hlen : c.orderIn.length = op.nIn := by
    rw [(order_perm h).2.length_eq, List.length_range]
  have hn : op.nIn ≤ 2 := by cases op <;> simp [Op.nIn]
  refine ⟨fun j i hj => ?_, fun ha ho => by rw [hcases.2 ha ho]; exact admits_all le_rfl⟩
  have hlt : j < op.nIn := hlen ▸ (List.getElem?_eq_some_iff.mp hj).1
  have hget : c.orderIn.getD j 0 = i := by rw [List.getD_eq_getElem?_getD, hj, Option.getD_some]
  rcases hget ▸ hcases.1 j hlt with hall | ⟨rfl, p, hp, hd⟩
  · rw [hall]
    exact admits_all (by omega)
  · exact admits_zero (hfree p hp).1 hd (hfree p hp).2

lemma Room.allocInput {c : InstCt} {i k : ℕ} {st : OpState} (hsp : Spillable vi)
    (hi : Inv vi N st.ra) (h : Room W st.ra) (hd : Admits (ctOf c (st.ins.o.length + i)).cr k)
    (ha : Few k st.avoid) (hfix : AvoidsFixed st.avoid)
    (hg : ∀ o, st.ins.i[i]? = some o → GoodInput vi N W o) :
    ∃ st', QRegAlloc.allocInput c i st = some st' ∧ Room W st'.ra ∧ Few (k + 1) st'.avoid := by
  simp only [QRegAlloc.allocInput]
  split
  · rename_i type v hop
    obtain ⟨hN, hW, -⟩ := hg _ hop
    rw [← hi.isGlobal] at hN hW
    obtain ⟨ra1, h1, hr1⟩ := h.fill hsp hi hd ha hW
    obtain ⟨hstep, -, hloc⟩ := step_fill idleEnv W hi hfix hN h1
    obtain ⟨hi1, -⟩ := hstep hi
    simp only [h1, Option.bind_eq_bind, Option.bind_some]
    split
    · exact ⟨_, rfl, hr1, ha.set (hi1.pool _ _ (hi1.owns hloc)).1⟩
    · obtain ⟨p, ra2, h2, hr2⟩ := hr1.allocPReg hsp hi1 hd ha
      obtain ⟨-, hspec⟩ := step_allocPReg idleEnv W (fun _ => False) hi1 h2
      simp only [h2, Option.bind_some]
      exact ⟨_, rfl, hr2.emit _, ha.set hspec.lt⟩
  · exact ⟨st, rfl, h, ha.mono (Nat.le_succ k)⟩

/-- The loop over the inputs. -/
lemma Room.allocInputs {c : InstCt} (ins : Inst) {l : List ℕ} {k : ℕ} {st : OpState}
    (hsp : Spillable vi) (hl : l.Nodup) (hi : Inv vi N st.ra) (h : Room W st.ra)
    (hd : ∀ j i, l[j]? = some i → Admits (ctOf c (st.ins.o.length + i)).cr (k + j))
    (ha : Few k st.avoid) (hfix : AvoidsFixed st.avoid)
    (hins : ∀ i ∈ l, st.ins.i[i]? = ins.i[i]?) (hg : ∀ o ∈ ins.i, GoodInput vi N W o) :
    ∃ st', l.foldlM (fun st i => QRegAlloc.allocInput c i st) st = some st' ∧ Room W st'.ra ∧
      Few (k + l.length) st'.avoid := by
  induction l generalizing st k with
  | nil => exact ⟨st, rfl, h, ha⟩
  | cons i l ih =>
    obtain ⟨hil, hl'⟩ := List.nodup_cons.mp hl
    obtain ⟨st1, h1, hr1, ha1⟩ := h.allocInput hsp hi (hd 0 i rfl) ha hfix fun o ho =>
      hg o (List.mem_of_getElem? (hins i List.mem_cons_self ▸ ho))
    -- what the round leaves alone
    obtain ⟨-, hframe, hfix1, hother, hstep⟩ := QRegAlloc.allocInputs idleEnv (l := [i]) ins
      (List.nodup_singleton i) hi hfix (fun j hj => hins j (by simp_all)) hg
      (FoldM.foldlM_cons_eq_some.mpr ⟨st1, h1, rfl⟩)
    obtain ⟨hi1, -⟩ := hstep hi
    obtain ⟨st2, h2, hr2, ha2⟩ := ih hl' hi1 hr1 (fun j i' hj => by
        rw [hframe.o, Nat.add_assoc, Nat.add_comm 1 j]
        exact hd (j + 1) i' hj) ha1 hfix1 fun j hj => by
      rw [hother j fun _ _ _ hji => hil (List.mem_singleton.mp hji ▸ hj)]
      exact hins j (List.mem_cons_of_mem i hj)
    refine ⟨st2, FoldM.foldlM_cons_eq_some.mpr ⟨st1, h1, h2⟩, hr2, ?_⟩
    rwa [List.length_cons, Nat.add_comm l.length, ← Nat.add_assoc]

lemma Room.syncGlobals (hsp : Spillable vi) (hi : Inv vi N ra) (h : Room W ra) :
    ∃ ra', ra.syncGlobals = some ra' ∧ Room W ra' := by
  obtain ⟨ra', h1, -, hr⟩ := FoldM.total_range (n := ra.nVregs)
    (f := fun ra v => if (ra.vregs v).isGlobal then ra.syncSpill v else some ra)
    (P := fun _ u => Inv vi N u ∧ Room W u) ⟨hi, h⟩ fun i _ u ⟨hiu, hu⟩ => by
      by_cases hg : (u.vregs i).isGlobal = true
      · obtain ⟨u', h1, hr⟩ := hu.syncSpill hsp hiu (hiu.alive i hg)
        obtain ⟨hstep, -⟩ := step_syncSpill idleEnv vi N W (fun _ => False) h1
        exact ⟨u', by rw [if_pos hg, h1], (hstep hiu).1, hr⟩
      · exact ⟨u, by rw [if_neg hg], hiu, hu⟩
  exact ⟨ra', h1, hr⟩

/-- A register gets a new value in a physical register. -/
lemma Room.assign {t : VType} (h : Room W ra) (hn : ra'.nVregs = ra.nVregs)
    (hf : ra'.frameCur = ra.frameCur)
    (hother : ∀ w, w ≠ v → ra'.vregs w = ra.vregs w)
    (hv : ra'.vregs v = { ra.vregs v with loc := (ra'.vregs v).loc, p := p, spillSynced := false })
    (hl : (ra.vregs v).isGlobal = false → (ra'.vregs v).loc ≠ .DEAD ∧
      ((ra'.vregs v).loc = .MEM → (ra.vregs v).spillOffs ≠ NO_SPILL)) :
    Room (Written W [.vgpr t v]) ra' := by
  refine h.update (v := v) hn hf hother (by rw [hv]) (by rw [hv]) (fun _ hs => ?_)
    (fun hg _ => hl hg) fun w hw hww => ?_
  · rw [hv] at hs
    cases hs
  · rcases hww with hww | ⟨t', hmem⟩
    · exact hww
    · cases List.mem_singleton.mp hmem
      exact absurd rfl hw

lemma written_of_notMem {o : List VOperand} (h : ∀ t v, VOperand.vgpr t v ∉ o) :
    Written W o = W := by
  funext v
  simp [Written, h]

/-- The loop over the outputs; a tied output is an input, too. -/
lemma Room.allocOutputs {c : InstCt} (st : OpState) (hsp : Spillable vi) (hi : Inv vi N st.ra)
    (h : Room W st.ra) (hc : opCt st.ins.op = some c) (ha : Few 2 st.avoid)
    (htied : ∀ t v, st.ins.o = [.vgpr t v] → (ctOf c 0).hasAlias = true →
      (st.ra.vregs v).isGlobal = true ∨ W v) :
    ∃ st', c.orderOut.foldlM (fun st i => allocOutput c i st) st = some st' ∧
      Room (Written W st.ins.o) st'.ra := by
  rcases orderOut_cases hc with ⟨hn, horder⟩ | ⟨hn, horder⟩
  · have ho : st.ins.o = [] := List.length_eq_zero_iff.mp (by rw [st.ins.ho, hn])
    rw [horder, ho, written_of_notMem (by simp)]
    exact ⟨st, rfl, h⟩
  · obtain ⟨x, ho⟩ : ∃ x, st.ins.o = [x] := List.length_eq_one_iff.mp (by rw [st.ins.ho, hn])
    have hone : ∀ st', allocOutput c 0 st = some st' → Room (Written W st.ins.o) st'.ra →
        ∃ st', c.orderOut.foldlM (fun st i => allocOutput c i st) st = some st' ∧
          Room (Written W st.ins.o) st'.ra := fun st' h1 hr => by
      rw [horder]
      exact ⟨st', FoldM.foldlM_cons_eq_some.mpr ⟨st', h1, rfl⟩, hr⟩
    by_cases hx : ∃ t v, x = .vgpr t v
    · obtain ⟨t, v, rfl⟩ := hx
      cases halias : (ctOf c 0).hasAlias with
      | true =>
        refine hone ⟨st.ra.setTrack v { st.ra.vregs v with spillSynced := false },
          st.avoid.set (st.ra.vregs v).p, st.ins.setO 0 (.pgpr t (st.ra.vregs v).p)⟩ (by
            simp only [allocOutput, ho, List.getElem?_cons_zero, halias, if_true,
              Option.bind_eq_bind, Option.bind_some]) ?_
        rw [ho]
        refine h.assign (v := v) (p := (st.ra.vregs v).p) rfl rfl (fun w hw => by simp [hw])
          (by simp) fun hg => ?_
        have hlive := h.live v hg ((htied t v ho halias).resolve_left (by simp [hg]))
        simpa using hlive
      | false =>
        obtain ⟨p, ra1, h1, hr1⟩ := h.allocPReg hsp hi
          ((admits_operands hc).2 halias (by omega)) ha
        refine hone _ (by
          simp only [allocOutput, ho, List.getElem?_cons_zero, halias, Bool.false_eq_true,
            if_false, h1, Option.bind_eq_bind, Option.bind_some]
          rfl) ?_
        rw [ho]
        refine hr1.assign (v := v) (p := p) ?_ ?_ (fun w hw => ?_) ?_ fun hg => ?_
        all_goals by_cases hl : (ra1.vregs v).loc = .REG <;> simp [hl]
        all_goals simp_all
    · refine hone st ?_ ?_
      · rw [allocOutput, ho, List.getElem?_cons_zero]
        cases x with
        | vgpr t v => exact absurd ⟨t, v, rfl⟩ hx
        | _ => rfl
      · rw [ho, written_of_notMem fun t v hm => hx ⟨t, v, (List.mem_singleton.mp hm).symm⟩]
        exact h

/-! ### Instructions -/

lemma Room.allocOp {ins : Inst} {c : InstCt} (hsp : Spillable vi) (hi : Inv vi N ra)
    (h : Room W ra) (hc : opCt ins.op = some c) (hg : GoodInst vi N W ins) :
    ∃ ra' ins', ra.allocOp ins = some (ra', ins') ∧ Room (Written W ins.o) ra' := by
  have hperm := (order_perm hc).2
  have hnodup := hperm.nodup_iff.mpr List.nodup_range
  have hfix : AvoidsFixed GPR_FIXED := fun _ hp => hp
  -- the inputs
  obtain ⟨st, h1, hr1, ha1⟩ : ∃ st,
      c.orderIn.foldlM (fun st i => QRegAlloc.allocInput c i st) ⟨ra, GPR_FIXED, ins⟩ = some st ∧
        Room W st.ra ∧ Few (0 + c.orderIn.length) st.avoid :=
    Room.allocInputs ins hsp hnodup hi h (fun j i hj => by
      rw [Nat.zero_add, ins.ho]
      exact (admits_operands hc).1 j i hj) few_fixed hfix (fun _ _ => rfl) hg.input
  obtain ⟨-, hframe, -, -, hstep⟩ := QRegAlloc.allocInputs idleEnv ins hnodup hi
    (fun _ hp => hp) (fun _ _ => rfl) hg.input h1
  obtain ⟨hi1, -⟩ := hstep hi
  have hlen : c.orderIn.length ≤ 2 := by
    rw [hperm.length_eq, List.length_range]
    cases ins.op <;> simp [Op.nIn]
  -- the outputs
  have hrest : ∀ ra2, Inv vi N ra2 → Room W ra2 → ∃ st3,
      c.orderOut.foldlM (fun st i => allocOutput c i st) { st with ra := ra2 } = some st3 ∧
        Room (Written W ins.o) st3.ra := by
    intro ra2 hi2 hr2
    rw [← hframe.o]
    refine Room.allocOutputs { st with ra := ra2 } hsp hi2 hr2 (by rw [hframe.op]; exact hc)
      (ha1.mono (by omega)) fun t v hov halias => ?_
    -- the input to which the output is tied may be read
    simp only [hframe.o] at hov
    have hn : 0 < ins.op.nOut := by rw [← ins.ho, hov]; simp
    obtain ⟨hn1, hn0, hal, hidx, -⟩ := tied_output hc hn halias
    obtain ⟨t1, t2, w, hw, hw'⟩ := (hg.sel c hc 0 hn0).1 (by simpa [hn1] using hal)
    rw [hn1, Nat.add_zero, hidx, hov] at hw'
    obtain ⟨-, rfl⟩ := VOperand.vgpr.inj (Option.some.inj hw')
    rw [hi2.isGlobal]
    exact (hg.input _ (List.mem_of_getElem? hw)).2.1
  -- the globals
  simp only [QRegAlloc.allocOp, hc, h1, Option.bind_eq_bind, Option.bind_some]
  split
  · obtain ⟨ra2, h2, hr2⟩ := hr1.syncGlobals hsp hi1
    obtain ⟨hstep2, -⟩ := syncGlobals_spec idleEnv W (fun _ => False) GPR_FIXED hi1 h2
    obtain ⟨st3, h3, hr3⟩ := hrest ra2 (hstep2 hi1).1 hr2
    simp only [h2, h3, Option.bind_some]
    exact ⟨_, _, rfl, hr3⟩
  · obtain ⟨st3, h3, hr3⟩ := hrest st.ra hi1 hr1
    simp only [h3, Option.bind_some]
    exact ⟨_, _, rfl, hr3⟩

/-! ### Boundaries and calls -/

lemma Room.blockBoundary (hsp : Spillable vi) (hi : Inv vi N ra) (h : Room W ra) :
    ∃ ra', ra.blockBoundary = some ra' ∧ Room W ra' := by
  obtain ⟨ra', h1, -, hr⟩ := FoldM.total_range (n := ra.nVregs)
    (f := fun ra v => if (ra.vregs v).isGlobal then ra.spill v else some ra)
    (P := fun _ u => Inv vi N u ∧ Room W u) ⟨hi, h⟩ fun i _ u ⟨hiu, hu⟩ => by
      by_cases hg : (u.vregs i).isGlobal = true
      · obtain ⟨u', h1, hr⟩ := hu.spill hsp hiu (hiu.alive i hg)
        obtain ⟨hstep, -⟩ := step_spill idleEnv vi N W (fun _ => False) (hiu.alive i hg) h1
        exact ⟨u', by rw [if_pos hg, h1], (hstep hiu).1, hr⟩
      · exact ⟨u, by rw [if_neg hg], hiu, hu⟩
  exact ⟨ra', h1, hr⟩

lemma Room.regionBoundary (hsp : Spillable vi) (hi : Inv vi N ra)
    (h : Room (fun _ => False) ra) :
    ∃ ra', ra.regionBoundary = some ra' ∧ Room (fun _ => False) ra' := by
  obtain ⟨ra', h1, -, -, hr⟩ := FoldM.total_range (n := ra.nVregs)
    (f := fun ra v => if (ra.vregs v).isGlobal then ra.spill v else some (ra.release false v))
    (P := fun _ u => Inv vi N u ∧ u.nVregs = ra.nVregs ∧ Room (fun _ => False) u) ⟨hi, rfl, h⟩
    fun i hlt u ⟨hiu, hn, hu⟩ => by
      by_cases hg : (u.vregs i).isGlobal = true
      · obtain ⟨u', h1, hr⟩ := hu.spill hsp hiu (hiu.alive i hg)
        obtain ⟨hstep, hspec⟩ := step_spill idleEnv vi N (fun _ => False) (fun _ => False)
          (hiu.alive i hg) h1
        exact ⟨u', by rw [if_pos hg, h1], (hstep hiu).1, hspec.nVregs.trans hn, hr⟩
      · exact ⟨_, by rw [if_neg hg], hiu.release (by omega), by simpa using hn,
          hu.release (fun _ => id) fun _ hf => hf.elim⟩
  exact ⟨ra', h1, hr⟩

lemma Room.callOp (hsp : Spillable vi) (hi : Inv vi N ra) (h : Room W ra) :
    ∃ ra', ra.callOp = some ra' ∧ Room W ra' := by
  obtain ⟨ra1, h1, hi1, hr1⟩ := FoldM.total_range (n := N_PREGS)
    (f := fun ra p => if GPR_CALL_CLOBBER.test p then ra.spillPreg p else some ra)
    (P := fun _ u => Inv vi N u ∧ Room W u) ⟨hi, h⟩ fun p _ u ⟨hiu, hu⟩ => by
      by_cases hc : GPR_CALL_CLOBBER.test p = true
      · obtain ⟨u', h1, hr⟩ := hu.spillPreg hsp hiu p
        obtain ⟨hstep, -⟩ := step_spillPreg idleEnv W (fun _ => False) hiu h1
        exact ⟨u', by rw [if_pos hc, h1], (hstep hiu).1, hr⟩
      · exact ⟨u, by rw [if_neg hc], hiu, hu⟩
  obtain ⟨ra2, h2, hr2⟩ := hr1.blockBoundary hsp hi1
  refine ⟨ra2, ?_, hr2⟩
  have hcount : ra1.nVregs ≤ 255 := hi1.nVregs ▸ hsp.counter
  simp only [QRegAlloc.callOp, h1, Option.bind_eq_bind, Option.bind_some, if_pos hcount]
  exact h2

/-- One instruction.  Behind a terminator no local register is needed. -/
lemma Room.runInst {ins : Inst} (hsp : Spillable vi) (hi : Inv vi N ra) (h : Room W ra)
    (hg : GoodInst vi N W ins) : ∃ ra', ra.runInst ins = some ra' ∧
      Room (fun v => ins.op.isTerminator = false ∧ Written W ins.o v) ra' := by
  have hstay : ∀ ra' ins', ra.visit ins = some (ra', ins') → Room (Written W ins.o) ra' →
      ∃ ra', ra.runInst ins = some ra' ∧
        Room (fun v => ins.op.isTerminator = false ∧ Written W ins.o v) ra' := by
    intro ra' ins' h1 hr
    refine ⟨ra'.emit ins', ?_, (hr.mono fun _ h => h.2).emit _⟩
    simp only [QRegAlloc.runInst, h1, Option.bind_eq_bind, Option.bind_some]
  have hleave : ∀ ra' ins', ra.visit ins = some (ra', ins') → Room (fun _ => False) ra' →
      ins.op.isTerminator = true → ∃ ra', ra.runInst ins = some ra' ∧
        Room (fun v => ins.op.isTerminator = false ∧ Written W ins.o v) ra' := by
    intro ra' ins' h1 hr ht
    refine ⟨ra'.emit ins', ?_, (hr.mono fun v h => ?_).emit _⟩
    · simp only [QRegAlloc.runInst, h1, Option.bind_eq_bind, Option.bind_some]
    · rw [ht] at h
      exact absurd h.1 (by decide)
  obtain ⟨op, o, i, ho, hlen⟩ := ins
  cases op
  case br =>
    obtain ⟨ra', h1, hr⟩ := h.blockBoundary hsp hi
    refine hleave ra' ⟨.br, o, i, ho, hlen⟩ ?_ (hr.mono fun _ => False.elim) rfl
    simp only [visit, h1, Option.bind_eq_bind, Option.bind_some]
  case gbr tpc =>
    obtain ⟨ra', h1, hr⟩ := (h.mono fun _ => False.elim).regionBoundary hsp hi
    refine hleave ra' ⟨.gbr tpc, o, i, ho, hlen⟩ ?_ hr rfl
    simp only [visit, h1, Option.bind_eq_bind, Option.bind_some]
  case brcc =>
    obtain ⟨ra1, ins', h1, hr1⟩ := h.allocOp hsp hi rfl hg
    obtain ⟨-, -, hi1, -⟩ := allocOp_spec idleEnv hi hg.sel hg.input hg.output h1
    obtain ⟨ra', h2, hr⟩ := hr1.blockBoundary hsp hi1
    refine hleave ra' ins' ?_ (hr.mono fun _ => False.elim) rfl
    simp only [visit, h1, h2, Option.bind_eq_bind, Option.bind_some]
  case gbrind =>
    obtain ⟨ra1, ins', h1, hr1⟩ := h.allocOp hsp hi rfl hg
    obtain ⟨-, -, hi1, -⟩ := allocOp_spec idleEnv hi hg.sel hg.input hg.output h1
    obtain ⟨ra', h2, hr⟩ := (hr1.mono fun _ => False.elim).regionBoundary hsp hi1
    refine hleave ra' ins' ?_ hr rfl
    simp only [visit, h1, h2, Option.bind_eq_bind, Option.bind_some]
  case hcall stub =>
    obtain ⟨ra', h1, hr⟩ := h.callOp hsp hi
    refine hstay ra' ⟨.hcall stub, o, i, ho, hlen⟩ ?_ (hr.mono fun v hv => ?_)
    · simp only [visit, h1, Option.bind_eq_bind, Option.bind_some]
    · rcases hv with hv | ⟨t, hm⟩
      · exact hv
      · obtain rfl := List.length_eq_zero_iff.mp ho
        cases hm
  all_goals
    obtain ⟨ra', ins', h1, hr⟩ := h.allocOp hsp hi rfl hg
    exact hstay ra' ins' h1 hr

/-! ### Blocks and regions -/

lemma Room.runInsts {l : List Inst} (hsp : Spillable vi) (hi : Inv vi N ra) (h : Room W ra)
    (hg : GoodList vi N W l) (hstay : ∀ ins ∈ l, ins.op.isTerminator = false) :
    ∃ ra', l.foldlM QRegAlloc.runInst ra = some ra' ∧ Inv vi N ra' ∧
      Room (WrittenAfter W l) ra' := by
  induction l generalizing W ra with
  | nil =>
    rw [writtenAfter_nil]
    exact ⟨ra, rfl, hi, h⟩
  | cons ins l ih =>
    obtain ⟨ra1, h1, hr1⟩ := h.runInst hsp hi hg.1
    have hi1 := (runInst_spec idleEnv hi hg.1 h1).1
    obtain ⟨ra', h2, hi', hr⟩ := ih hi1 (hr1.mono fun v hv => ⟨hstay ins List.mem_cons_self, hv⟩)
      hg.2 fun i hi => hstay i (List.mem_cons_of_mem _ hi)
    rw [writtenAfter_cons]
    exact ⟨ra', FoldM.foldlM_cons_eq_some.mpr ⟨ra1, h1, h2⟩, hi', hr⟩

lemma isTerminator_of_leaves {op : Op} (h : op.leaves = false) : op.isTerminator = false := by
  cases op <;> first | rfl | cases h

/-- A block of instructions that the allocator handles. -/
lemma Room.runBlock {blk : Block} {body : List Inst} {last : Inst} (hsp : Spillable vi)
    (hi : Inv vi N ra) (h : Room (fun _ => False) ra) (ht : Terminated blk body last)
    (hbody : GoodList vi N (fun _ => False) body)
    (hlast : GoodInst vi N (WrittenAfter (fun _ => False) body) last) :
    ∃ ra' blk', ra.runBlock blk = some (ra', blk') ∧ Inv vi N ra' ∧
      Room (fun _ => False) ra' := by
  have hi0 : Inv vi N { ra with code := [] } :=
    ⟨hi.nVregs, hi.isGlobal, hi.type, hi.home, hi.outside, hi.p2v, hi.pool, hi.alive, hi.named,
      hi.frameSlot, hi.frameApart, hi.frameEnd⟩
  have h0 : Room (fun _ => False) { ra with code := [] } := ⟨h.slotted, h.live, h.frame⟩
  obtain ⟨ra1, h1, hi1, hr1⟩ := h0.runInsts hsp hi0 hbody fun ins hins =>
    isTerminator_of_leaves (ht.stays ins hins)
  obtain ⟨ra2, h2, hr2⟩ := hr1.runInst hsp hi1 hlast
  have hfold : blk.ilist.foldlM QRegAlloc.runInst { ra with code := [] } = some ra2 := by
    rw [ht.ilist, List.foldlM_append, h1]
    exact FoldM.foldlM_cons_eq_some.mpr ⟨ra2, h2, rfl⟩
  refine ⟨ra2, { blk with ilist := ra2.code }, ?_, (runInst_spec idleEnv hi1 hlast h2).1,
    hr2.mono fun _ => False.elim⟩
  simp only [QRegAlloc.runBlock, hfold, Option.bind_eq_bind, Option.bind_some]

variable (ra) in
/-- The constructor has a track for every register. -/
lemma addTracks_isSome {α : Type} (f : α → RTrack) (l : List α)
    (h : ra.nVregs + l.length ≤ MAX_VREGS) :
    ∃ ra', l.foldlM (fun ra a => addTrack (f a) ra) ra = some ra' ∧
      ra'.nVregs = ra.nVregs + l.length :=
  FoldM.total (P := fun i (u : QRegAlloc) => u.nVregs = ra.nVregs + i) rfl fun i hi u hu => by
    rw [addTrack, if_neg (by omega)]
    exact ⟨_, rfl, by simp [hu, Nat.add_assoc]⟩

lemma init_isSome (h : vi.numAll ≤ MAX_VREGS) : ∃ ra, init vi = some ra := by
  rw [VRegsInfo.numAll] at h
  obtain ⟨ra1, h1, hn⟩ := addTracks_isSome {} (fun g : StateReg =>
    { isGlobal := true, type := g.type, spillOffs := g.stateOffs }) vi.globInfo.regs
    (by simp only [Nat.zero_add]; omega)
  obtain ⟨ra2, h2, -⟩ := addTracks_isSome ra1 (fun t : VType =>
    { isGlobal := false, type := t, spillOffs := NO_SPILL }) vi.locInfo
    (by simp only [Nat.zero_add] at hn; omega)
  exact ⟨ra2, Option.bind_eq_some_iff.mpr ⟨ra1, h1, h2⟩⟩

/-- At the start no local register has a slot or a value. -/
lemma room_start (h : init vi = some ra) : Room (fun _ => False) ra.prologue := by
  obtain ⟨-, -, hf, hv⟩ := init_spec h
  obtain ⟨-, -, hf', hv'⟩ := prologue_spec ra
  refine ⟨fun v _ hs => ?_, fun _ _ hf => hf.elim, ?_⟩
  · rw [hv'] at hs
    split at hs <;> rw [(hv v).2.1] at hs <;> cases hs
  · rw [hf', hf]
    exact Nat.zero_le _

end QRegAlloc

/-- On a well-formed region the allocator completes: it finds a register for every operand and a
slot for every spill, no dead register is read, and its loops end. -/
theorem run_regAlloc_isSome {r : Region} (hwf : WellFormed r) (hal : Allocatable r)
    (hv : Virtual r) (hsp : Spillable r.vregsInfo) : ∃ r', QRegAlloc.run r = some r' := by
  have hblocks : ∀ (bs : List Block) (ra : QRegAlloc), (∀ blk ∈ bs, blk ∈ r.blist) →
      QRegAlloc.Inv r.vregsInfo (Named r) ra → QRegAlloc.Room (fun _ => False) ra →
      ∃ bs', QRegAlloc.runBlocks ra bs = some bs' := by
    intro bs
    induction bs with
    | nil => exact fun _ _ _ _ => ⟨[], rfl⟩
    | cons blk bs ih =>
      intro ra hmem hi hr
      have hb := hmem blk List.mem_cons_self
      obtain ⟨body, last, ht⟩ := hwf.terminated blk hb
      have hw := hal.written blk hb
      rw [ht.ilist] at hw
      obtain ⟨hw1, hw2⟩ := localsWritten_append.mp hw
      have hbody := goodList_of_region (l := body) hal hv hb (fun i hi => by
        rw [ht.ilist]
        exact List.mem_append_left _ hi) hw1
      have hlast := goodList_of_region (l := [last]) hal hv hb (fun i hi => by
        rw [ht.ilist]
        exact List.mem_append_right _ hi) hw2
      obtain ⟨ra1, blk1, h1, hi1, hr1⟩ := hr.runBlock hsp hi ht hbody hlast.1
      obtain ⟨bs', h2⟩ := ih ra1 (fun b hb => hmem b (List.mem_cons_of_mem _ hb)) hi1 hr1
      refine ⟨blk1 :: bs', ?_⟩
      simp only [QRegAlloc.runBlocks, h1, h2, Option.bind_eq_bind, Option.bind_some]
  have hcount := hsp.counter
  obtain ⟨ra, hinit⟩ : ∃ ra, QRegAlloc.init r.vregsInfo = some ra :=
    QRegAlloc.init_isSome (by rw [MAX_VREGS]; omega)
  obtain ⟨bs', h⟩ := hblocks r.blist ra.prologue (fun _ => id) (QRegAlloc.start_spec hinit).1
    (QRegAlloc.room_start hinit)
  refine ⟨{ r with blist := bs' }, ?_⟩
  simp only [QRegAlloc.run, hinit, h, Option.bind_eq_bind, Option.bind_some]

end Rv32jit.Qcg
