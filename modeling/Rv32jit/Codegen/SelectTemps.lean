/-
# The temporaries of the selection of operands

The allocator counts the registers of a region with eight bits, so it matters how many the
selection of operands adds.  An operation takes one temporary for every constant that it does
not admit, and one more if its output is tied and read by the other input; but then that input
is no constant.
-/
import Rv32jit.Codegen.SelectRun

namespace Rv32jit

namespace Qir

/-- The temporaries that the selection of operands adds in front of the operation at most. -/
def Op.selTemps : Op → ℕ
  | .hcall _ | .br | .gbr _ | .mov => 0
  | .brcc _ | .setcc _ => 2
  | .gbrind | .vmload _ _ | .vmstore _ _ => 1
  | .add | .sub | .and | .or | .xor | .sra | .srl | .sll => 1

/-- The temporaries of a list of instructions. -/
def codeTemps (l : List Inst) : ℕ := (l.map fun ins => ins.op.selTemps).sum

@[simp] lemma codeTemps_nil : codeTemps [] = 0 := rfl

@[simp] lemma codeTemps_cons (ins : Inst) (l : List Inst) :
    codeTemps (ins :: l) = ins.op.selTemps + codeTemps l := by simp [codeTemps]

@[simp] lemma codeTemps_append (l m : List Inst) :
    codeTemps (l ++ m) = codeTemps l + codeTemps m := by simp [codeTemps]

/-- Every operand has a type. -/
def Inst.Typed (ins : Inst) : Prop := ∀ o ∈ ins.operands, o.getType ≠ .UNDEF

end Qir

namespace Qcg.QSel

open Qir

variable {vi vi' : VRegsInfo} {ins : Inst} {c : InstCt} {st st' : SelState} {l l' : List Inst}

/-! ### The number of temporaries -/

/-- Input `i` may take a temporary, were it a constant. -/
def slotTemps (c : InstCt) (nOut i : ℕ) : ℕ := if (ctOf c (nOut + i)).ci.any then 0 else 1

/-- The temporaries that input `i` takes at most. -/
def constTemps (c : InstCt) (ins : Inst) (i : ℕ) : ℕ :=
  if (ins.i.getD i .bad).isConst then slotTemps c ins.op.nOut i else 0

lemma constTemps_le (c : InstCt) (ins : Inst) (i : ℕ) :
    constTemps c ins i ≤ slotTemps c ins.op.nOut i := by
  rw [constTemps]
  split
  · exact le_rfl
  · exact Nat.zero_le _

lemma slotTemps_le (c : InstCt) (nOut i : ℕ) : slotTemps c nOut i ≤ 1 := by
  rw [slotTemps]
  split <;> simp

lemma constTemps_of_vgpr {i v : ℕ} {t : VType} (h : ins.i.getD i .bad = .vgpr t v) :
    constTemps c ins i = 0 := by
  rw [constTemps, h]
  rfl

lemma lowerConst_of_any {i : ℕ} (h : (ctOf c (st.ins.op.nOut + i)).ci.any = true) :
    lowerConst c i st = st := by
  have hne : (ctOf c (st.ins.op.nOut + i)).ci ≠ .NO := by
    intro he
    rw [he] at h
    cases h
  rw [lowerConst]
  split
  · exact if_pos ⟨hne, by simp [matchGpConst, h]⟩
  · rfl

lemma numAll_lowerConst (c : InstCt) (i : ℕ) (st : SelState) :
    (lowerConst c i st).vi.numAll ≤ st.vi.numAll + constTemps c st.ins i ∧
      ∀ k, k ≠ i → constTemps c (lowerConst c i st).ins k = constTemps c st.ins k := by
  obtain ⟨hop, -, -, hother, -⟩ := lowerConst_inputs c i st
  refine ⟨?_, fun k hk => by rw [constTemps, constTemps, hop, hother k hk]⟩
  rcases lowerConst_cases c i st with ⟨he, -⟩ | ⟨t, val, hc, he⟩
  · rw [he]
    exact Nat.le_add_right _ _
  · cases hany : (ctOf c (st.ins.op.nOut + i)).ci.any with
    | true =>
      rw [lowerConst_of_any hany]
      exact Nat.le_add_right _ _
    | false =>
      rw [he, VRegsInfo.numAll_addLocal, constTemps, hc, slotTemps, hany]
      exact le_rfl

lemma numAll_lowerConsts (l : List ℕ) (hl : l.Nodup) (st : SelState) :
    (l.foldl (fun st i => lowerConst c i st) st).vi.numAll ≤
      st.vi.numAll + (l.map (constTemps c st.ins)).sum := by
  induction l generalizing st with
  | nil => exact le_rfl
  | cons i l ih =>
    rw [List.nodup_cons] at hl
    obtain ⟨hle, hsame⟩ := numAll_lowerConst c i st
    have hrest := ih hl.2 (lowerConst c i st)
    have hmap : l.map (constTemps c (lowerConst c i st).ins) = l.map (constTemps c st.ins) :=
      List.map_congr_left fun k hk => hsame k fun he => hl.1 (he ▸ hk)
    rw [hmap] at hrest
    rw [List.foldl_cons, List.map_cons, List.sum_cons]
    omega

/-- An operation without a tied input. -/
lemma slotTemps_free {op : Op} (hc : opCt op = some c)
    (hfree : ∀ k < op.nIn, (ctOf c (op.nOut + k)).hasAlias = false) :
    ((List.range op.nIn).map (slotTemps c op.nOut)).sum ≤ op.selTemps := by
  cases op <;> simp only [opCt, Option.some.injEq, reduceCtorEq] at hc <;> subst hc <;>
    simp only [Op.nIn, Op.nOut, Op.selTemps] at hfree ⊢ <;> revert hfree <;> decide

/-- An operation with a tied input. -/
lemma selTemps_tied {op : Op} (hout : op.nOut = 1) (hin : op.nIn = 2) (hc : opCt op = some c)
    (ha : (ctOf c 0).hasAlias = true) : op.selTemps = 1 := by
  cases op <;> simp only [opCt, Option.some.injEq, reduceCtorEq] at hc <;> subst hc <;>
    simp only [Op.nIn, Op.nOut, Op.selTemps, reduceCtorEq] at hout hin ⊢ <;> revert ha <;> decide

lemma numAll_selectOperands (h : selectOperands vi ins = some st) :
    st.vi.numAll ≤ vi.numAll + ins.op.selTemps := by
  simp only [selectOperands] at h
  obtain ⟨c, hc, h⟩ := Option.bind_eq_some_iff.mp h
  obtain ⟨st1, h1, h⟩ := Option.bind_eq_some_iff.mp h
  cases h
  have hlower := numAll_lowerConsts (c := c) (List.range ins.op.nIn) List.nodup_range st1
  rcases satisfyAliases_cases hc h1 with
    ⟨rfl, hfree⟩ | ⟨⟨hn, hn2, hidx, ha0, -⟩, hal, hzero⟩
  · have hle : ((List.range ins.op.nIn).map (constTemps c ins)).sum ≤
        ((List.range ins.op.nIn).map (slotTemps c ins.op.nOut)).sum :=
      List.sum_le_sum fun i _ => constTemps_le c ins i
    exact hlower.trans (Nat.add_le_add_left (hle.trans (slotTemps_free hc hfree)) _)
  · obtain ⟨o, ho⟩ : ∃ o, ins.o = [o] := List.length_eq_one_iff.mp (by rw [ins.ho, hn])
    obtain ⟨a, b, hi⟩ : ∃ a b, ins.i = [a, b] := List.length_eq_two.mp (by rw [ins.hi, hn2])
    obtain ⟨t, d, rfl, hst⟩ := satisfyAlias_zero hn hn2 hal hidx ho hi hzero
    rw [selTemps_tied hn hn2 hc ha0]
    have hsum : ((List.range ins.op.nIn).map (constTemps c st1.ins)).sum =
        constTemps c st1.ins 0 + constTemps c st1.ins 1 := by
      rw [hn2, show List.range 2 = [0, 1] from rfl, List.map_cons, List.map_cons, List.map_nil,
        List.sum_cons, List.sum_singleton]
    rw [hsum] at hlower
    refine hlower.trans ?_
    have h1 := (constTemps_le c st1.ins 1).trans (slotTemps_le c _ 1)
    -- the tied input is a register by now, and a second one if it got a copy
    rcases hst with ⟨hra, rfl⟩ | ⟨-, -, rfl⟩ | ⟨-, -, rfl⟩
    · obtain ⟨u, rfl⟩ := isReg_iff.mp hra
      rw [constTemps_of_vgpr (t := u) (v := d) (by simp [hi])]
      simpa using h1
    · rw [constTemps_of_vgpr (t := t) (v := d) (by simp [hi])]
      simpa using h1
    · rw [constTemps_of_vgpr (t := t) (v := d) (by simp [hi]),
        constTemps_of_vgpr (t := t) (v := (vi.addLocal t).1) (by simp [hi])]
      simp

lemma numAll_visit (h : visit vi ins = some st) :
    st.vi.numAll ≤ vi.numAll + ins.op.selTemps := by
  obtain ⟨op, o, i, ho, hi⟩ := ins
  cases op
  case br | gbr | hcall =>
    cases h
    exact le_rfl
  all_goals exact numAll_selectOperands h

/-- `runInsts` on a list of one instruction or more. -/
lemma runInsts_cons {x : VRegsInfo × List Inst} : runInsts vi (ins :: l) = some x ↔
    ∃ st y, visit vi ins = some st ∧ runInsts st.vi l = some y ∧
      x = (y.1, st.code ++ [st.ins] ++ y.2) := by
  simp only [runInsts, Option.bind_eq_bind, Option.bind_eq_some_iff, Option.some.injEq, Prod.exists]
  constructor
  · rintro ⟨st, h1, a, b, h2, h3⟩
    exact ⟨st, a, b, h1, h2, h3.symm⟩
  · rintro ⟨st, a, b, h1, h2, h3⟩
    exact ⟨st, h1, a, b, h2, h3.symm⟩

lemma numAll_runInsts (h : runInsts vi l = some (vi', l')) :
    vi'.numAll ≤ vi.numAll + codeTemps l := by
  induction l generalizing vi l' with
  | nil =>
    cases h
    exact le_rfl
  | cons ins l ih =>
    obtain ⟨st, y, h1, h2, h3⟩ := runInsts_cons.mp h
    cases h3
    have hv := numAll_visit h1
    have hrest := ih h2
    rw [codeTemps_cons]
    omega

/-- The selection of operands adds no more temporaries than the operations of the region take. -/
lemma numAll_runBlocks {bs bs' : List Block} (h : runBlocks vi bs = some (vi', bs')) :
    vi'.numAll ≤ vi.numAll + (bs.map fun blk => codeTemps blk.ilist).sum := by
  induction bs generalizing vi bs' with
  | nil =>
    cases h
    exact le_rfl
  | cons blk bs ih =>
    simp only [runBlocks] at h
    obtain ⟨⟨vi₁, code⟩, h1, h⟩ := Option.bind_eq_some_iff.mp h
    obtain ⟨⟨vi₂, blist⟩, h2, h⟩ := Option.bind_eq_some_iff.mp h
    cases h
    have hblk := numAll_runInsts h1
    have hrest := ih h2
    simp only at hblk hrest ⊢
    rw [List.map_cons, List.sum_cons]
    omega

/-! ### The types of the temporaries -/

/-- The operands of the instruction and the local registers have types. -/
structure AllTyped (vi : VRegsInfo) (ins : Inst) : Prop where
  ins : ins.Typed
  locals : ∀ type ∈ vi.locInfo, type ≠ .UNDEF

lemma AllTyped.getD (h : AllTyped vi ins) {k : ℕ} {o : VOperand} (hk : ins.i.getD k .bad = o)
    (ho : o ≠ .bad) : o.getType ≠ .UNDEF := by
  by_cases hlt : k < ins.i.length
  · rw [getD_of_lt hlt] at hk
    subst hk
    exact h.ins _ (List.mem_append_right _ (List.getElem_mem hlt))
  · rw [getD_of_ge (by omega)] at hk
    exact absurd hk.symm ho

lemma AllTyped.addLocal (h : AllTyped vi ins) {t : VType} (ht : t ≠ .UNDEF) :
    AllTyped (vi.addLocal t).2 ins := by
  refine ⟨h.ins, fun type hty => ?_⟩
  rcases List.mem_append.mp hty with hty | hty
  · exact h.locals type hty
  · rw [List.mem_singleton.mp hty]
    exact ht

lemma AllTyped.setI (h : AllTyped vi ins) (k v : ℕ) {t : VType} (ht : t ≠ .UNDEF) :
    AllTyped vi (ins.setI k (.vgpr t v)) := by
  refine ⟨fun o ho => ?_, h.locals⟩
  rcases List.mem_append.mp ho with ho | ho
  · exact h.ins o (List.mem_append_left _ ho)
  · rcases List.mem_or_eq_of_mem_set ho with ho | rfl
    · exact h.ins o (List.mem_append_right _ ho)
    · exact ht

lemma AllTyped.lowerConst (h : AllTyped st.vi st.ins) (i : ℕ) :
    AllTyped (QSel.lowerConst c i st).vi (QSel.lowerConst c i st).ins := by
  rcases lowerConst_cases c i st with ⟨he, -⟩ | ⟨t, val, hc, he⟩ <;> rw [he]
  · exact h
  · have ht : t ≠ .UNDEF := h.getD hc (by simp)
    exact (h.addLocal ht).setI i _ ht

lemma AllTyped.satisfyAliases (h : AllTyped vi ins) (hc : opCt ins.op = some c)
    (hst : (List.range ins.op.nIn).foldlM (fun st i => satisfyAlias c i st) ⟨vi, [], ins⟩ =
      some st) : AllTyped st.vi st.ins := by
  rcases satisfyAliases_cases hc hst with ⟨rfl, -⟩ | ⟨⟨hn, hn2, hidx, -, -⟩, hal, hzero⟩
  · exact h
  · obtain ⟨o, ho⟩ : ∃ o, ins.o = [o] := List.length_eq_one_iff.mp (by rw [ins.ho, hn])
    obtain ⟨a, b, hi⟩ : ∃ a b, ins.i = [a, b] := List.length_eq_two.mp (by rw [ins.hi, hn2])
    obtain ⟨t, d, rfl, hst⟩ := satisfyAlias_zero hn hn2 hal hidx ho hi hzero
    have ht : t ≠ .UNDEF := h.ins (.vgpr t d) (by simp [Inst.operands, ho])
    rcases hst with ⟨-, rfl⟩ | ⟨-, -, rfl⟩ | ⟨-, -, rfl⟩
    · exact h
    · exact h.setI 0 d ht
    · exact ((h.addLocal ht).setI 1 _ ht).setI 0 d ht

lemma typed_visit (h : visit vi ins = some st) (hins : ins.Typed)
    (hvi : ∀ type ∈ vi.locInfo, type ≠ .UNDEF) : ∀ type ∈ st.vi.locInfo, type ≠ .UNDEF := by
  have hselect : selectOperands vi ins = some st → AllTyped st.vi st.ins := by
    intro h
    simp only [selectOperands] at h
    obtain ⟨c, hc, h⟩ := Option.bind_eq_some_iff.mp h
    obtain ⟨st1, h1, h⟩ := Option.bind_eq_some_iff.mp h
    cases h
    have hlower : ∀ (l : List ℕ) (u : SelState), AllTyped u.vi u.ins →
        AllTyped (l.foldl (fun st i => QSel.lowerConst c i st) u).vi
          (l.foldl (fun st i => QSel.lowerConst c i st) u).ins := by
      intro l
      induction l with
      | nil => exact fun _ => id
      | cons i l ih => exact fun u hu => ih _ (hu.lowerConst i)
    exact hlower _ _ (AllTyped.satisfyAliases ⟨hins, hvi⟩ hc h1)
  obtain ⟨op, o, i, ho, hi⟩ := ins
  cases op
  case br | gbr | hcall =>
    cases h
    exact hvi
  all_goals exact (hselect h).locals

lemma typed_runInsts (h : runInsts vi l = some (vi', l')) (hl : ∀ ins ∈ l, ins.Typed)
    (hvi : ∀ type ∈ vi.locInfo, type ≠ .UNDEF) : ∀ type ∈ vi'.locInfo, type ≠ .UNDEF := by
  induction l generalizing vi l' with
  | nil =>
    cases h
    exact hvi
  | cons ins l ih =>
    obtain ⟨st, y, h1, h2, h3⟩ := runInsts_cons.mp h
    cases h3
    exact ih h2 (fun i hi => hl i (List.mem_cons_of_mem _ hi))
      (typed_visit h1 (hl ins List.mem_cons_self) hvi)

/-- Every temporary has a type if every operand of the region has one. -/
lemma typed_runBlocks {bs bs' : List Block} (h : runBlocks vi bs = some (vi', bs'))
    (hbs : ∀ blk ∈ bs, ∀ ins ∈ blk.ilist, ins.Typed)
    (hvi : ∀ type ∈ vi.locInfo, type ≠ .UNDEF) : ∀ type ∈ vi'.locInfo, type ≠ .UNDEF := by
  induction bs generalizing vi bs' with
  | nil =>
    cases h
    exact hvi
  | cons blk bs ih =>
    simp only [runBlocks] at h
    obtain ⟨⟨vi₁, code⟩, h1, h⟩ := Option.bind_eq_some_iff.mp h
    obtain ⟨⟨vi₂, blist⟩, h2, h⟩ := Option.bind_eq_some_iff.mp h
    cases h
    exact ih h2 (fun b hb => hbs b (List.mem_cons_of_mem _ hb))
      (typed_runInsts h1 (hbs blk List.mem_cons_self) hvi)

end Qcg.QSel

end Rv32jit
