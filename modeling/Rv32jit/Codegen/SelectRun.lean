/-
# The selection of operands over a region

Every instruction of the original code is replaced by code that does the same, the result
meets the operand constraints of the target machine, and so the region as a whole runs as
before.
-/
import Rv32jit.Codegen.SelectCorrect

namespace Rv32jit.Qcg

open Qir

namespace QSel

variable {env : HelperEnv} {vi vi' : VRegsInfo} {n : ℕ} {ins : Inst} {c : InstCt} {st : SelState}

/-- The outputs that `SelectOperands` accepts: registers, and anything for a move. -/
def GoodOut (ins : Inst) : Prop := ∀ o ∈ ins.o, (∃ t v, o = .vgpr t v) ∨ ins.op = .mov

/-- The assertion of `SelectOperands` is about tied outputs only. -/
def TiedOut (ins : Inst) : Prop :=
  ∀ c, opCt ins.op = some c → (ctOf c 0).hasAlias = true → ∀ o ∈ ins.o, ∃ t v, o = .vgpr t v

lemma GoodOut.tiedOut (h : GoodOut ins) : TiedOut ins := by
  intro c hc ha o ho
  refine (h o ho).resolve_right fun hm => ?_
  rw [hm] at hc
  cases hc
  revert ha
  decide

/-! ### One instruction -/

lemma foldl_setI (l : List ℕ) (st : SelState) (v : VOperand) :
    (l.foldl (fun st k => st.setI k v) st).ins.op = st.ins.op ∧
      (l.foldl (fun st k => st.setI k v) st).ins.o = st.ins.o := by
  induction l generalizing st with
  | nil => exact ⟨rfl, rfl⟩
  | cons k l ih => exact ih _

/-- The assertion of `SelectOperands` holds. -/
lemma satisfyAlias_isSome (st : SelState) {i : ℕ} (hc : opCt st.ins.op = some c)
    (hi : i < st.ins.op.nIn) (hout : TiedOut st.ins) :
    ∃ st', satisfyAlias c i st = some st' ∧ st'.ins.op = st.ins.op ∧ st'.ins.o = st.ins.o := by
  cases ha : (ctOf c (st.ins.op.nOut + i)).hasAlias with
  | false => exact ⟨st, satisfyAlias_of_free ha, rfl, rfl⟩
  | true =>
    obtain ⟨rfl, hn, -, hidx, ha0, -⟩ := tied_input hc hi ha
    obtain ⟨o, ho⟩ : ∃ o, st.ins.o = [o] := List.length_eq_one_iff.mp (by rw [st.ins.ho, hn])
    rw [hn, Nat.add_zero] at ha
    obtain ⟨t, d, rfl⟩ := hout c hc ha0 o (by simp [ho])
    simp only [satisfyAlias, hn, Nat.add_zero, ha, hidx, ho, Bool.not_true, Bool.false_eq_true,
      if_false, List.getD_cons_zero]
    split
    · exact ⟨st, rfl, rfl, ho⟩
    · split
      · exact ⟨_, rfl, rfl, ho⟩
      · obtain ⟨h1, h2⟩ := foldl_setI (liveInputs st.ins 0 d) ((st.createVGPR t).2.emitMov
          (st.createVGPR t).1 (.vgpr t d)) (st.createVGPR t).1
        exact ⟨_, rfl, h1, h2.trans ho⟩

lemma selectOperands_isSome (hc : opCt ins.op = some c) (hout : TiedOut ins) :
    ∃ st, selectOperands vi ins = some st := by
  have key : ∀ (l : List ℕ) (st : SelState), (∀ i ∈ l, i < ins.op.nIn) → st.ins.op = ins.op →
      st.ins.o = ins.o → ∃ st', l.foldlM (fun st i => satisfyAlias c i st) st = some st' := by
    intro l
    induction l with
    | nil => exact fun st _ _ _ => ⟨st, rfl⟩
    | cons i l ih =>
      intro st hl hop ho
      obtain ⟨st1, h1, hop1, ho1⟩ := satisfyAlias_isSome st (by rwa [hop])
        (by rw [hop]; exact hl i (by simp)) (by simpa only [TiedOut, hop, ho] using hout)
      obtain ⟨st2, h2⟩ := ih st1 (fun j hj => hl j (List.mem_cons_of_mem i hj))
        (hop1.trans hop) (ho1.trans ho)
      exact ⟨st2, FoldM.foldlM_cons_eq_some.mpr ⟨st1, h1, h2⟩⟩
  obtain ⟨st, h⟩ := key (List.range ins.op.nIn) ⟨vi, [], ins⟩ (fun i hi => List.mem_range.mp hi)
    rfl rfl
  refine ⟨(List.range ins.op.nIn).foldl (fun st i => lowerConst c i st) st, ?_⟩
  simp only [selectOperands, hc, h, Option.bind_eq_bind, Option.bind_some]

/-- The rewritten instruction meets the constraints of the target machine. -/
lemma selectOperands_spec (hsel : Selectable vi ins) (hext : vi.Extends vi')
    (h : selectOperands vi' ins = some st) (hfit : st.vi.numAll ≤ 2 ^ 16) :
    SelInv vi ins st ∧ Selected st.ins := by
  simp only [selectOperands] at h
  obtain ⟨c, hc, h⟩ := Option.bind_eq_some_iff.mp h
  obtain ⟨st1, h1, h⟩ := Option.bind_eq_some_iff.mp h
  cases h
  obtain ⟨hinv, htied⟩ := satisfyAliases_spec hsel hc hext h1
    ((ext_lowerConsts c _ st1).numAll_le.trans hfit)
  obtain ⟨hop, ho, hadm, hreg⟩ := lowerConsts_inputs c (List.range ins.op.nIn) st1
  refine ⟨hinv.lowerConsts hfit, fun c' hc' k hk => ?_⟩
  rw [hop, hinv.op] at hc' hk ⊢
  rw [hc] at hc'
  cases hc'
  refine ⟨fun hal => ?_, fun t val hv => ?_⟩
  · obtain ⟨hidx, t, t', d, hd, hin⟩ := htied k hk hal
    have hin' := hreg k t' d hin
    refine ⟨t, t', d, ?_, ?_⟩
    · have hlt : k < ((List.range ins.op.nIn).foldl (fun st i => lowerConst c i st)
          st1).ins.i.length := by
        rw [Inst.hi, hop, hinv.op]
        exact hk
      rw [getD_of_lt hlt] at hin'
      rw [List.getElem?_eq_getElem hlt, hin']
    · rw [hidx, ho, hinv.o, hd]
      rfl
  · have := hadm k (Or.inr (List.mem_range.mpr hk)) t val (by
      rw [List.getD_eq_getElem?_getD, hv]
      rfl)
    rwa [hop, hinv.op] at this

/-- What is shown of every instruction of the original code. -/
structure VisitSpec (vi vi' : VRegsInfo) (ins : Inst) (st : SelState) : Prop where
  ext : vi'.Extends st.vi
  inv : SelInv vi ins st
  selected : ∀ i ∈ st.code ++ [st.ins], Selected i
  sim : ∀ env, Simulates env vi vi (Agree vi.numAll) (Agree vi.numAll) (Agree vi.numAll) ins
    (st.code ++ [st.ins])

lemma ext_satisfyAlias {i : ℕ} {st' : SelState} (h : satisfyAlias c i st = some st') :
    st.vi.Extends st'.vi := by
  have hfold : ∀ (l : List ℕ) (st : SelState) (v : VOperand),
      (l.foldl (fun st k => st.setI k v) st).vi = st.vi := by
    intro l
    induction l with
    | nil => exact fun _ _ => rfl
    | cons k l ih => exact fun st v => ih _ v
  simp only [satisfyAlias] at h
  split at h
  · cases h
    exact .refl _
  · split at h
    · split at h
      · cases h
        exact .refl _
      · cases h
        simp only [SelState.setI_vi, SelState.emitMov_vi]
        split
        · exact .refl _
        · rw [hfold]
          exact .addLocal _ _
    · cases h

lemma ext_selectOperands (h : selectOperands vi ins = some st) : vi.Extends st.vi := by
  simp only [selectOperands] at h
  obtain ⟨c, hc, h⟩ := Option.bind_eq_some_iff.mp h
  obtain ⟨st1, h1, h⟩ := Option.bind_eq_some_iff.mp h
  cases h
  have h0 : vi.Extends st1.vi :=
    FoldM.relates (R := fun a b : SelState => a.vi.Extends b.vi) (fun _ => .refl _)
      (fun _ _ _ => .trans) h1 fun i _ u u' hu => ext_satisfyAlias hu
  exact h0.trans (ext_lowerConsts c _ st1)

lemma ext_visit (h : visit vi ins = some st) : vi.Extends st.vi := by
  obtain ⟨op, o, i, ho, hi⟩ := ins
  cases op
  case br | gbr | hcall =>
    cases h
    exact .refl _
  all_goals exact ext_selectOperands h

lemma simulates_of_inv (hinv : SelInv vi ins st) (hcall : ∀ stub, ins.op ≠ .hcall stub) :
    Simulates env vi vi (Agree vi.numAll) (Agree vi.numAll) (Agree vi.numAll) ins
      (st.code ++ [st.ins]) := by
  intro s s' hs
  rcases hinv.sim env s s' hs with ⟨s1, hq, hp⟩ | ⟨hl, u, hu⟩
  · obtain ⟨hev, hfl, hst⟩ := exec_prepared env hp hinv.op hinv.o hcall
    refine Simulates.of_quiet (R := fun a b => a = s ∧ b = s') ?_ s s' ⟨rfl, rfl⟩
    rintro _ _ ⟨rfl, rfl⟩
    exact ⟨s1, hq, hev, hfl, fun hn => hst (by rw [hn]; simp), fun _ hns => hst hns⟩
  · rw [exec_illegal hl]
    refine ⟨Qir.Flow.noConfusion, fun _ => ⟨u, fun rest => ?_, fun h => absurd rfl h⟩⟩
    rw [List.append_assoc, hu]

lemma visit_spec (hsel : Selectable vi ins) (hext : vi.Extends vi')
    (h : visit vi' ins = some st) (hfit : st.vi.numAll ≤ 2 ^ 16) :
    VisitSpec vi vi' ins st := by
  -- the operations that the visitor passes over
  have hskip : opCt ins.op = none → st = ⟨vi', [], ins⟩ → VisitSpec vi vi' ins st := by
    rintro hnone rfl
    refine ⟨.refl vi', .start hsel hext, ?_, fun env => Simulates.of_quiet fun s s' hs => ?_⟩
    · intro i hi
      rw [List.mem_singleton.mp hi]
      exact selected_of_opCt_none hnone
    · obtain ⟨hev, hfl, hst⟩ := exec_agree env vi hsel.below hs
      exact ⟨s', Quiet.nil s', hev, hfl, fun _ => hst, fun _ _ => hst⟩
  have hselect : (∀ stub, ins.op ≠ .hcall stub) → selectOperands vi' ins = some st →
      VisitSpec vi vi' ins st := by
    intro hcall h
    obtain ⟨hinv, hs⟩ := selectOperands_spec hsel hext h hfit
    refine ⟨ext_selectOperands h, hinv, fun i hi => ?_, fun env => simulates_of_inv hinv hcall⟩
    rcases List.mem_append.mp hi with hi | hi
    · obtain ⟨t, v, o, rfl, -, -⟩ := hinv.moves i hi
      exact selected_mkMov _ _
    · rw [List.mem_singleton.mp hi]
      exact hs
  obtain ⟨op, o, i, ho, hi⟩ := ins
  cases op
  case br | gbr | hcall => exact hskip rfl (Option.some.inj h).symm
  all_goals exact hselect (fun _ => Op.noConfusion) h

/-! ### Blocks and regions -/

/-- The code `l'` consists of pieces that replace the instructions of `l`. -/
def Pieces (vi vi' : VRegsInfo) (l l' : List Inst) : Prop :=
  ∃ pieces : List (List Inst), l' = pieces.flatten ∧
    List.Forall₂ (fun ins δ => ∃ vi₁ st, VisitSpec vi vi₁ ins st ∧ st.vi.Extends vi' ∧
      δ = st.code ++ [st.ins]) l pieces

lemma ext_runInsts {l l' : List Inst} (h : runInsts vi l = some (vi', l')) :
    vi.Extends vi' := by
  induction l generalizing vi l' with
  | nil =>
    cases h
    exact .refl _
  | cons ins l ih =>
    simp only [runInsts] at h
    obtain ⟨st, h1, h⟩ := Option.bind_eq_some_iff.mp h
    obtain ⟨⟨vi₂, code⟩, h2, h⟩ := Option.bind_eq_some_iff.mp h
    cases h
    exact (ext_visit h1).trans (ih h2)

lemma ext_runBlocks {l l' : List Block} (h : runBlocks vi l = some (vi', l')) :
    vi.Extends vi' := by
  induction l generalizing vi l' with
  | nil =>
    cases h
    exact .refl _
  | cons blk l ih =>
    simp only [runBlocks] at h
    obtain ⟨⟨vi₁, code⟩, h1, h⟩ := Option.bind_eq_some_iff.mp h
    obtain ⟨⟨vi₂, blist⟩, h2, h⟩ := Option.bind_eq_some_iff.mp h
    cases h
    exact (ext_runInsts h1).trans (ih h2)

lemma Pieces.mono {vi'' : VRegsInfo} {l l' : List Inst} (h : Pieces vi vi' l l')
    (hext : vi'.Extends vi'') : Pieces vi vi'' l l' := by
  obtain ⟨p, hp, hall⟩ := h
  exact ⟨p, hp, hall.imp fun ins δ ⟨vi₁, st, h1, h2, h3⟩ => ⟨vi₁, st, h1, h2.trans hext, h3⟩⟩

lemma runInsts_spec {l l' : List Inst} {vi'' : VRegsInfo} (hsel : ∀ ins ∈ l, Selectable vi ins)
    (hext : vi.Extends vi') (h : runInsts vi' l = some (vi'', l')) (hfit : vi''.numAll ≤ 2 ^ 16) :
    Pieces vi vi'' l l' := by
  induction l generalizing vi' l' with
  | nil =>
    cases h
    exact ⟨[], rfl, .nil⟩
  | cons ins l ih =>
    simp only [runInsts] at h
    obtain ⟨st, h1, h⟩ := Option.bind_eq_some_iff.mp h
    obtain ⟨⟨vi₂, code⟩, h2, h⟩ := Option.bind_eq_some_iff.mp h
    cases h
    have hext' := ext_runInsts h2
    obtain ⟨pieces, rfl, hall⟩ := ih (fun i hi => hsel i (List.mem_cons_of_mem _ hi))
      (hext.trans (ext_visit h1)) h2
    exact ⟨(st.code ++ [st.ins]) :: pieces, rfl, .cons ⟨vi', st,
      visit_spec (hsel ins (by simp)) hext h1 (hext'.numAll_le.trans hfit), hext', rfl⟩ hall⟩

/-- What is shown of a block. -/
def BlockSpec (vi vi' : VRegsInfo) (blk blk' : Block) : Prop :=
  blk'.succs = blk.succs ∧ Pieces vi vi' blk.ilist blk'.ilist

lemma runBlocks_spec {l l' : List Block} {vi'' : VRegsInfo}
    (hsel : ∀ blk ∈ l, ∀ ins ∈ blk.ilist, Selectable vi ins) (hext : vi.Extends vi')
    (h : runBlocks vi' l = some (vi'', l')) (hfit : vi''.numAll ≤ 2 ^ 16) :
    List.Forall₂ (BlockSpec vi vi'') l l' := by
  induction l generalizing vi' l' with
  | nil =>
    cases h
    exact .nil
  | cons blk l ih =>
    simp only [runBlocks] at h
    obtain ⟨⟨vi₁, code⟩, h1, h⟩ := Option.bind_eq_some_iff.mp h
    obtain ⟨⟨vi₂, blist⟩, h2, h⟩ := Option.bind_eq_some_iff.mp h
    cases h
    have hext' := ext_runBlocks h2
    refine .cons ⟨rfl, ?_⟩ (ih (fun b hb => hsel b (List.mem_cons_of_mem _ hb))
      (hext.trans (ext_runInsts h1)) h2)
    exact (runInsts_spec (hsel blk (by simp)) hext h1 (hext'.numAll_le.trans hfit)).mono hext'

lemma runInsts_isSome {l : List Inst} (h : ∀ ins ∈ l, TiedOut ins) (vi : VRegsInfo) :
    ∃ x, runInsts vi l = some x := by
  induction l generalizing vi with
  | nil => exact ⟨_, rfl⟩
  | cons ins l ih =>
    have hv : ∃ st, visit vi ins = some st := by
      have hout := h ins (by simp)
      obtain ⟨op, o, i, ho, hi⟩ := ins
      cases op
      case br | gbr | hcall => exact ⟨_, rfl⟩
      all_goals exact selectOperands_isSome rfl hout
    obtain ⟨st, h1⟩ := hv
    obtain ⟨x, h2⟩ := ih (fun i hi => h i (List.mem_cons_of_mem _ hi)) st.vi
    refine ⟨(x.1, st.code ++ [st.ins] ++ x.2), ?_⟩
    simp only [runInsts, h1, h2, Option.bind_eq_bind, Option.bind_some]

lemma runBlocks_isSome {l : List Block} (h : ∀ blk ∈ l, ∀ ins ∈ blk.ilist, TiedOut ins)
    (vi : VRegsInfo) : ∃ x, runBlocks vi l = some x := by
  induction l generalizing vi with
  | nil => exact ⟨_, rfl⟩
  | cons blk l ih =>
    obtain ⟨x, h1⟩ := runInsts_isSome (h blk (by simp)) vi
    obtain ⟨y, h2⟩ := ih (fun b hb => h b (List.mem_cons_of_mem _ hb)) x.1
    refine ⟨(y.1, { blk with ilist := x.2 } :: y.2), ?_⟩
    simp only [runBlocks, h1, h2, Option.bind_eq_bind, Option.bind_some]

lemma forall₂_mem_right {α β : Type} {R : α → β → Prop} {l : List α} {l' : List β}
    (h : List.Forall₂ R l l') {b : β} (hb : b ∈ l') : ∃ a ∈ l, R a b := by
  induction h with
  | nil => cases hb
  | cons hR _ ih =>
    rcases List.mem_cons.mp hb with rfl | hb
    · exact ⟨_, List.mem_cons_self, hR⟩
    · obtain ⟨a, ha, hR⟩ := ih hb
      exact ⟨a, List.mem_cons_of_mem _ ha, hR⟩

lemma Pieces.selected {l l' : List Inst} (h : Pieces vi vi' l l') : ∀ i ∈ l', Selected i := by
  obtain ⟨pieces, rfl, hall⟩ := h
  intro i hi
  obtain ⟨δ, hδ, hi⟩ := List.mem_flatten.mp hi
  obtain ⟨ins, -, vi₁, st, hv, -, rfl⟩ := forall₂_mem_right hall hδ
  exact hv.selected i hi

lemma Pieces.sameRun {l l' : List Inst} (h : Pieces vi vi' l l') (env : HelperEnv) {s s' : QState}
    (hs : Agree vi.numAll s s') :
    SameRun (Agree vi.numAll) .stuck (execList env vi l s) (execList env vi l' s') := by
  obtain ⟨pieces, rfl, hall⟩ := h
  induction hall generalizing s s' with
  | nil => exact ⟨rfl, rfl, fun h => absurd rfl h⟩
  | cons hd _ ih =>
    obtain ⟨vi₁, st, hv, -, rfl⟩ := hd
    exact .cons (hv.sim env) (fun _ _ h => ih h) hs

/-- The blocks of the selected region run as those of the original one. -/
lemma execBlock_qsel {r r' : Region} (hext : r.vregsInfo.Extends r'.vregsInfo)
    (h : List.Forall₂ (BlockSpec r.vregsInfo r'.vregsInfo) r.blist r'.blist) (env : HelperEnv)
    (b : ℕ) {s s' : QState} (hs : Agree r.vregsInfo.numAll s s') :
    SameRun (Agree r.vregsInfo.numAll) .stuck (execBlock env r b s) (execBlock env r' b s') := by
  have hlen := h.length_eq
  simp only [execBlock]
  by_cases hb : b < r.blist.length
  · obtain ⟨hsucc, hp⟩ := List.Forall₂.get h hb (by omega)
    rw [List.getElem?_eq_getElem hb, List.getElem?_eq_getElem (by omega)]
    simp only [List.get_eq_getElem] at hsucc hp
    obtain ⟨h1, h2, h3⟩ := hp.sameRun env hs
    simp only [execList_congr hext.1]
    refine ⟨h1, by simp only [h2, hsucc], fun hns => h3 fun he => hns ?_⟩
    simp only [he, leave]
  · rw [List.getElem?_eq_none (by omega), List.getElem?_eq_none (by omega)]
    exact ⟨rfl, rfl, fun h => absurd rfl h⟩

end QSel

open QSel

/-- The selection of operands completes.  If the numbers of the registers, temporaries
included, fit in 16 bits, then every instruction is replaced by code that gives every register
of the original region, every slot and the memory the value that the instruction gave it and
passes on control as it did; the result meets the operand constraints of the target machine;
and any number of blocks leave the same trace, take the same branches and reach the same
exit. -/
theorem run_qsel {r : Region}
    (hout : ∀ blk ∈ r.blist, ∀ ins ∈ blk.ilist, GoodOut ins)
    (hsel : ∀ blk ∈ r.blist, ∀ ins ∈ blk.ilist, Selectable r.vregsInfo ins) :
    ∃ r' info, QSel.run r = some (r', info) ∧ (r'.vregsInfo.numAll ≤ 2 ^ 16 →
      List.Forall₂ (BlockSpec r.vregsInfo r'.vregsInfo) r.blist r'.blist ∧
      (∀ blk ∈ r'.blist, ∀ ins ∈ blk.ilist, Selected ins) ∧
      ∀ (env : HelperEnv) (n b : ℕ) (s s' : QState), Agree r.vregsInfo.numAll s s' →
        SameRun (Agree r.vregsInfo.numAll) .stuck (Qir.run env r n b s)
          (Qir.run env r' n b s')) := by
  obtain ⟨⟨vi, blist⟩, h⟩ := runBlocks_isSome (fun blk hb ins hins => (hout blk hb ins
    hins).tiedOut) r.vregsInfo
  refine ⟨{ blist := blist, vregsInfo := vi },
    { has_calls := r.blist.any fun blk => blk.ilist.any fun ins => ins.op.hasCalls }, by
    simp only [QSel.run, h, Option.bind_eq_bind, Option.bind_some], fun hfit => ?_⟩
  have hext := ext_runBlocks h
  have hall := runBlocks_spec hsel (.refl _) h hfit
  refine ⟨hall, fun blk hb => ?_, fun env n b s s' hs => ?_⟩
  · obtain ⟨blk₀, -, -, hp⟩ := forall₂_mem_right hall hb
    exact hp.selected
  · have hblocks : ∀ b s s', Agree r.vregsInfo.numAll s s' → SameRun (Agree r.vregsInfo.numAll)
        .stuck (execBlock env r b s) (execBlock env ⟨blist, vi⟩ b s') :=
      fun b _ _ => execBlock_qsel hext hall env b
    exact run_of_blocks (fun _ _ h => h.cpu) hblocks n b hs

/-! ### Regions that the pass does not handle -/

/-- A region with a global and `n` local registers that compares constants. -/
def setccRegion (n : ℕ) : Region where
  blist := [{ ilist := [.mkSetcc .EQ (.vgpr .I32 1) (.const .I32 5) (.const .I32 5), .mkGBr 0] }]
  vregsInfo := { sampleVRegs with locInfo := List.replicate n .I32 }

/-- A region with so many registers that the next number does not fit in 16 bits. -/
def fullRegion : Region := setccRegion (2 ^ 16 - 1)

/-- The second input is the home of the output. -/
def homeRegion : Region :=
  sampleRegion [.mkAdd (.vgpr .I32 0) (.vgpr .I32 1) (.slot true .I32 0)]

/-- The first input is wider than the output. -/
def wideRegion : Region :=
  sampleRegion [.mkSrl (.vgpr .I8 1) (.vgpr .I32 0) (.const .I32 8)]

/-- The second input reads the output at a narrower type. -/
def mixedRegion : Region :=
  sampleRegion [.mkSub (.vgpr .I32 0) (.vgpr .I32 1) (.vgpr .I8 0)]

/-- The region that the pass makes of `setccRegion`; the temporary has the number `v`. -/
lemma run_setccRegion {n v : ℕ} (hv : (n + 1) % 2 ^ 16 = v) : QSel.run (setccRegion n) = some
    ({ blist := [{ ilist := [.mkMov (.vgpr .I32 v) (.const .I32 5),
        .mkSetcc .EQ (.vgpr .I32 1) (.vgpr .I32 v) (.const .I32 5), .mkGBr 0] }],
       vregsInfo := ((setccRegion n).vregsInfo.addLocal .I32).2 }, {}) := by
  have hnum : ((setccRegion n).vregsInfo.addLocal .I32).1 = v := by
    simp [VRegsInfo.addLocal, setccRegion, sampleVRegs, ← hv]
  rw [← hnum]
  rfl

/-- The pass completes on the region, but the code that it makes runs differently. -/
def SelDiffers (r : Region) : Prop :=
  (∀ blk ∈ r.blist, ∀ ins ∈ blk.ilist, GoodOut ins) ∧
    ∃ r' info, QSel.run r = some (r', info) ∧ ∃ env n b s,
      ¬ SameRun (Agree r.vregsInfo.numAll) .stuck (Qir.run env r n b s) (Qir.run env r' n b s)

/-- On registers beyond 16 bits, on a slot that is the home of the output, on an input wider
than the output and on one that reads the output at another type the selected region differs
from the original one. -/
theorem run_qsel_needs_selectable : SelDiffers fullRegion ∧ SelDiffers homeRegion ∧
    SelDiffers wideRegion ∧ SelDiffers mixedRegion := by
  refine ⟨?_, ?_, ?_, ?_⟩
  · refine ⟨?_, _, _, run_setccRegion (v := 0) (by norm_num), idleEnv, 1, 0, sampleState,
      fun h => ?_⟩
    · intro blk hb ins hins
      obtain rfl := List.mem_singleton.mp hb
      rcases List.mem_cons.mp hins with rfl | hins
      · simp [GoodOut, Inst.mkSetcc]
      · rw [List.mem_singleton.mp hins]
        simp [GoodOut, Inst.mkGBr]
    · exact absurd (congrFun (h.2.2 (by decide)).cpu 0) (by decide)
  · refine ⟨?_, _, _, (Option.some_get (by decide)).symm, idleEnv, 1, 0, sampleState,
      fun h => ?_⟩
    · simp [homeRegion, sampleRegion, GoodOut, Inst.mkAdd, Inst.mkGBr]
    · exact absurd (congrFun (h.2.2 (by decide)).cpu 0) (by decide)
  · refine ⟨?_, _, _, (Option.some_get (by decide)).symm, idleEnv, 1, 0, sampleState,
      fun h => ?_⟩
    · simp [wideRegion, sampleRegion, GoodOut, Inst.mkSrl, Inst.mkGBr]
    · exact absurd ((h.2.2 (by decide)).vreg 1 (by decide)) (by decide)
  · refine ⟨?_, _, _, (Option.some_get (by decide)).symm, idleEnv, 1, 0, sampleState,
      fun h => ?_⟩
    · simp [mixedRegion, sampleRegion, GoodOut, Inst.mkSub, Inst.mkGBr]
    · exact absurd (congrFun (h.2.2 (by decide)).cpu 1) (by decide)

/-- A region with a tied operation whose second input is its output. -/
def tiedRegion : Region :=
  sampleRegion [.mkSub (.vgpr .I32 0) (.const .I32 5) (.vgpr .I32 0)]

theorem run_qsel_tiedRegion :
    ∃ r' info, QSel.run tiedRegion = some (r', info) ∧ (r'.vregsInfo.numAll ≤ 2 ^ 16 →
      List.Forall₂ (BlockSpec tiedRegion.vregsInfo r'.vregsInfo) tiedRegion.blist r'.blist ∧
      (∀ blk ∈ r'.blist, ∀ ins ∈ blk.ilist, Selected ins) ∧
      ∀ (env : HelperEnv) (n b : ℕ) (s s' : QState), Agree tiedRegion.vregsInfo.numAll s s' →
        SameRun (Agree tiedRegion.vregsInfo.numAll) .stuck (Qir.run env tiedRegion n b s)
          (Qir.run env r' n b s')) := by
  refine run_qsel ?_ ?_
  · simp [tiedRegion, sampleRegion, GoodOut, Inst.mkSub, Inst.mkGBr]
  · intro blk hb ins hins
    obtain rfl := List.mem_singleton.mp hb
    rcases List.mem_cons.mp hins with rfl | hins
    · refine ⟨?_, fun c t d a b hc _ ho hi _ => ?_⟩
      · simp [Inst.operands, Inst.mkSub, VOperand.Sized, tiedRegion, sampleRegion, sampleVRegs,
          VRegsInfo.vregType, VRegsInfo.getGlobalInfo]
      · simp only [Inst.mkSub, List.cons.injEq, VOperand.vgpr.injEq, and_true] at ho hi
        obtain ⟨rfl, rfl⟩ := ho
        obtain ⟨rfl, rfl⟩ := hi
        refine ⟨le_rfl, fun t' h => ?_, fun t' k g h => by cases h⟩
        cases h
        rfl
    · obtain rfl := List.mem_singleton.mp hins
      exact ⟨by simp [Inst.operands, Inst.mkGBr], fun c t d a b hc => by cases hc⟩

end Rv32jit.Qcg
