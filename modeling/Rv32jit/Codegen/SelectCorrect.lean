/-
# The selection of operands is correct

The moves in front of an instruction prepare the state for the rewritten instruction: its
inputs have the values of the original ones, and whatever it writes, the states agree on the
registers of the original code afterwards.
-/
import Rv32jit.Codegen.SelectAgree
import Rv32jit.Lib.FoldM

namespace Rv32jit.Qcg

open Qir

namespace QSel

variable {env : HelperEnv} {vi vi' : VRegsInfo} {n : ℕ} {s s' s'' : QState} {ins ins' : Inst}
  {c : InstCt} {st : SelState}

/-- An instruction of the original code.  If the first input of a tied operation is not its
output already, it is no wider than the output, and the other input does not see the output
through another type or through a slot. -/
structure Selectable (vi : VRegsInfo) (ins : Inst) : Prop where
  sized : ∀ o ∈ ins.operands, o.Sized vi
  tied : ∀ c t d a b, opCt ins.op = some c → (ctOf c 0).hasAlias = true →
    ins.o = [.vgpr t d] → ins.i = [a, b] → isReg d a = false →
      a.getType.toSize ≤ t.toSize ∧ (∀ t', b = .vgpr t' d → t' = t) ∧
        ∀ t' k g, b = .slot true t' k → vi.getGlobalInfo d = some g →
          StateReg.Apart ⟨g.stateOffs, t⟩ ⟨k, t'⟩

lemma below_of_sized {o : VOperand} (h : o.Sized vi) : Below vi.numAll o := by
  cases o with
  | vgpr t v =>
    obtain ⟨t₀, ht, -⟩ := h
    exact VRegsInfo.lt_numAll ht
  | _ => trivial

lemma Selectable.below (h : Selectable vi ins) : ∀ o ∈ ins.i, Below vi.numAll o :=
  fun o ho => below_of_sized (h.sized o (List.mem_append_right _ ho))

lemma isReg_iff {d : ℕ} {o : VOperand} : isReg d o = true ↔ ∃ t, o = .vgpr t d := by
  cases o <;> simp [isReg]

lemma getD_of_lt {l : List VOperand} {k : ℕ} (hk : k < l.length) : l.getD k .bad = l[k] := by
  simp [List.getD_eq_getElem?_getD, hk]

lemma getD_of_ge {l : List VOperand} {k : ℕ} (hk : l.length ≤ k) : l.getD k .bad = .bad := by
  simp [List.getD_eq_getElem?_getD, hk]

lemma getD_set {l : List VOperand} {i : ℕ} (hi : i < l.length) (v : VOperand) (k : ℕ) :
    (l.set i v).getD k .bad = if k = i then v else l.getD k .bad := by
  simp only [List.getD_eq_getElem?_getD, List.getElem?_set, hi]
  by_cases hk : i = k
  · simp [hk]
  · simp [hk, Ne.symm hk]

/-! ### The state before the rewritten instruction -/

/-- In `s'` the instruction `ins'` finds what `ins` finds in `s`. -/
structure Prepared (n : ℕ) (vi : VRegsInfo) (ins ins' : Inst) (s s' : QState) : Prop where
  inputs : ∀ k < ins.i.length,
    readOpr vi s' (ins'.i.getD k .bad) = readOpr vi s (ins.i.getD k .bad) ∧
      (ins'.i.getD k .bad).isReadable = (ins.i.getD k .bad).isReadable
  outs : ∀ (m : ByteMem) (xs : List (BitVec 32)), xs.length = ins.o.length →
    Agree n (writeOuts vi { s with mem := m } ins.o xs) (writeOuts vi { s' with mem := m } ins.o xs)
  mem : s'.mem = s.mem
  cpu : ins.op.sideeff = true → s'.cpu = s.cpu

/-- Agreeing states are prepared for an instruction that is not rewritten. -/
lemma Prepared.of_agree (hb : ∀ o ∈ ins.i, Below n o) (h : Agree n s s') :
    Prepared n vi ins ins s s' := by
  refine ⟨fun k hk => ⟨h.readOpr (hb _ ?_), rfl⟩, fun m xs _ => (h.withMem m).writeOuts _ _, h.mem,
    fun _ => h.cpu⟩
  rw [getD_of_lt hk]
  exact List.getElem_mem hk

lemma map_eq_of_getD {β : Type} {f f' : VOperand → β} {l l' : List VOperand}
    (hlen : l'.length = l.length)
    (h : ∀ k < l.length, f' (l'.getD k .bad) = f (l.getD k .bad)) : l'.map f' = l.map f := by
  refine List.ext_getElem (by simpa using hlen) fun k hk hk' => ?_
  simp only [List.length_map] at hk hk'
  have := h k hk'
  rw [getD_of_lt hk, getD_of_lt hk'] at this
  simpa using this

variable (env) in
/-- The rewritten instruction in a prepared state. -/
lemma exec_prepared (h : Prepared n vi ins ins' s s') (hop : ins'.op = ins.op)
    (ho : ins'.o = ins.o) (hcall : ∀ stub, ins.op ≠ .hcall stub) :
    (exec env vi ins' s').1 = (exec env vi ins s).1 ∧
      (exec env vi ins' s').2.1 = (exec env vi ins s).2.1 ∧
      ((exec env vi ins s).2.1 ≠ .stuck →
        Agree n (exec env vi ins s).2.2 (exec env vi ins' s').2.2) := by
  have hlen : ins'.i.length = ins.i.length := by rw [ins'.hi, ins.hi, hop]
  have hvals : ins'.i.map (readOpr vi s') = ins.i.map (readOpr vi s) :=
    map_eq_of_getD hlen fun k hk => (h.inputs k hk).1
  have hread : ins'.i.map VOperand.isReadable = ins.i.map VOperand.isReadable :=
    map_eq_of_getD hlen fun k hk => (h.inputs k hk).2
  have hleg : ins'.legal = ins.legal := by
    have := congrArg (fun l : List Bool => l.all id) hread
    simp only [List.all_map, Function.id_comp] at this
    rw [Inst.legal, Inst.legal, ho, this]
  by_cases hl : ins.legal = true
  · rw [exec_eq_eval hcall hl, exec_eq_eval (by rwa [hop]) (by rwa [hleg]), hop, ho, hvals, h.mem]
    refine ⟨?_, rfl, fun hns => h.outs _ _ (by rw [Op.eval_outs hns, ins.ho])⟩
    by_cases hse : ins.op.sideeff = true
    · rw [h.cpu hse]
    · rw [Op.eval_acc (by simpa using hse)]
      rfl
  · have hl' : ins.legal = false := by simpa using hl
    rw [exec_illegal hl', exec_illegal (by rw [hleg, hl'])]
    exact ⟨rfl, rfl, fun h => absurd rfl h⟩

/-- A temporary takes the place of a constant. -/
lemma Prepared.lowerConst {i v : ℕ} {t : VType} {val : BitVec 32}
    (h : Prepared n vi ins ins' s s') (hi : i < ins'.i.length) (hop : ins'.op = ins.op)
    (hc : ins'.i.getD i .bad = .const t val) (hb : ∀ o ∈ ins'.i, Below v o) (hn : n ≤ v)
    (hg : vi.getGlobalInfo v = none) :
    Prepared n vi ins (ins'.setI i (.vgpr t v)) s
      (writeOpr vi s' (.vgpr t v) (readOpr vi s' (.const t val))) := by
  set s1 := writeOpr vi s' (.vgpr t v) (readOpr vi s' (.const t val)) with hs1
  have hlen : ins'.i.length = ins.i.length := by rw [ins'.hi, ins.hi, hop]
  have hagree : Agree v s' s1 := (Agree.refl v s').writeTemp le_rfl hg _ _
  refine ⟨fun k hk => ?_, fun m xs hxs => ?_, ?_, fun hse => ?_⟩
  · rw [Inst.setI_i, getD_set hi]
    split
    · rename_i hki
      subst hki
      obtain ⟨h1, h2⟩ := h.inputs k hk
      rw [hc] at h1 h2
      rw [← h1, ← h2, hs1, readOpr_writeOpr_same]
      exact ⟨lowBytes_readOpr s' le_rfl, rfl⟩
    · rw [hagree.readOpr (hb _ ?_)]
      · exact h.inputs k hk
      · rw [getD_of_lt (by omega)]
        exact List.getElem_mem _
  · have hlow : Agree n s' s1 := (Agree.refl n s').writeTemp hn hg _ _
    exact (h.outs m xs hxs).trans ((hlow.withMem m).writeOuts _ _)
  · rw [hagree.mem, h.mem]
  · rw [hagree.cpu, h.cpu hse]

/-! ### The invariant of the pass over one instruction -/

/-- What holds of the pass at one instruction: the moves inserted so far either prepare the
state for the instruction as rewritten so far, or get stuck as the original instruction does.
`vi` has the registers of the original region. -/
structure SelInv (vi : VRegsInfo) (ins : Inst) (st : SelState) : Prop where
  ext : vi.Extends st.vi
  op : st.ins.op = ins.op
  o : st.ins.o = ins.o
  below : ∀ o ∈ st.ins.i, Below st.vi.numAll o
  /-- The moves write temporaries or the output, and read what the instruction read. -/
  moves : ∀ i ∈ st.code, ∃ t v o, i = .mkMov (.vgpr t v) o ∧ o ∈ ins.i ∧
    (.vgpr t v ∈ ins.o ∨ (vi.numAll ≤ v ∧ v < st.vi.numAll ∧ st.vi.vregType v = some t))
  /-- An input is an original one, or has been written by a move. -/
  inputs : ∀ o ∈ st.ins.i, o ∈ ins.i ∨
    ∃ t v src, o = .vgpr t v ∧ Inst.mkMov (.vgpr t v) src ∈ st.code
  sim : ∀ env s s', Agree vi.numAll s s' →
    (∃ s1, Quiet env vi st.code s' s1 ∧ Prepared vi.numAll vi ins st.ins s s1) ∨
      (ins.legal = false ∧ ∃ u, ∀ rest, execList env vi (st.code ++ rest) s' = ([], .stuck, u))

lemma SelInv.start (h : Selectable vi ins) (hext : vi.Extends vi') : SelInv vi ins ⟨vi', [], ins⟩ :=
  ⟨hext, rfl, rfl, fun o ho => (h.below o ho).mono hext.numAll_le, by simp, fun _ => Or.inl,
    fun _ _ s' hs => Or.inl ⟨s', Quiet.nil s', .of_agree h.below hs⟩⟩

lemma lowerConst_cases (c : InstCt) (i : ℕ) (st : SelState) :
    (lowerConst c i st = st ∧ ∀ t val, st.ins.i.getD i .bad = .const t val →
      matchGpConst val.toNat (ctOf c (st.ins.op.nOut + i)).ci = true) ∨
    ∃ t val, st.ins.i.getD i .bad = .const t val ∧ lowerConst c i st =
      ⟨(st.vi.addLocal t).2, st.code ++ [.mkMov (.vgpr t (st.vi.addLocal t).1) (.const t val)],
        st.ins.setI i (.vgpr t (st.vi.addLocal t).1)⟩ := by
  rw [lowerConst]
  split
  · rename_i t val heq
    split
    · rename_i hm
      refine Or.inl ⟨rfl, fun t' val' h => ?_⟩
      rw [heq] at h
      cases h
      exact hm.2
    · exact Or.inr ⟨t, val, heq, rfl⟩
  · rename_i hne
    exact Or.inl ⟨rfl, fun t val h => absurd h (hne t val)⟩

lemma ext_lowerConst (c : InstCt) (i : ℕ) (st : SelState) :
    st.vi.Extends (lowerConst c i st).vi := by
  rcases lowerConst_cases c i st with ⟨h, -⟩ | ⟨t, val, -, h⟩ <;> rw [h]
  · exact .refl _
  · exact .addLocal _ _

lemma ext_lowerConsts (c : InstCt) (l : List ℕ) (st : SelState) :
    st.vi.Extends (l.foldl (fun st i => lowerConst c i st) st).vi := by
  induction l generalizing st with
  | nil => exact .refl _
  | cons i l ih => exact (ext_lowerConst c i st).trans (ih _)

lemma SelInv.lowerConst {i : ℕ} (h : SelInv vi ins st)
    (hfit : (lowerConst c i st).vi.numAll ≤ 2 ^ 16) : SelInv vi ins (lowerConst c i st) := by
  rcases lowerConst_cases c i st with ⟨he, -⟩ | ⟨t, val, hc, he⟩
  · rwa [he]
  rw [he] at hfit ⊢
  simp only [VRegsInfo.numAll_addLocal] at hfit
  rw [VRegsInfo.addLocal_fst (by omega)]
  have hi : i < st.ins.i.length := by
    by_contra hge
    rw [getD_of_ge (by omega)] at hc
    cases hc
  have hg : vi.getGlobalInfo st.vi.numAll = none := VRegsInfo.getGlobalInfo_of_ge h.ext.numAll_le
  have hmem : .const t val ∈ ins.i := by
    have hin : .const t val ∈ st.ins.i := by
      rw [← hc, getD_of_lt hi]
      exact List.getElem_mem hi
    rcases h.inputs _ hin with hin | ⟨_, _, _, he', -⟩
    · exact hin
    · cases he'
  refine ⟨h.ext.trans (.addLocal _ t), h.op, h.o, fun o ho => ?_, fun i' hi' => ?_,
    fun o ho => ?_, fun env s s' hs => ?_⟩
  · simp only [VRegsInfo.numAll_addLocal]
    rcases List.mem_or_eq_of_mem_set ho with ho | rfl
    · exact (h.below o ho).mono (Nat.le_succ _)
    · exact Nat.lt_succ_self _
  · rcases List.mem_append.mp hi' with hi' | hi'
    · obtain ⟨t', v, o, hm, ho, hv⟩ := h.moves i' hi'
      refine ⟨t', v, o, hm, ho, hv.imp_right fun ⟨h1, h2, h3⟩ => ⟨h1, ?_, ?_⟩⟩
      · rw [VRegsInfo.numAll_addLocal]
        exact Nat.lt_succ_of_lt h2
      · rw [(VRegsInfo.Extends.addLocal st.vi t).vregType h2, h3]
    · refine ⟨t, st.vi.numAll, _, List.mem_singleton.mp hi', hmem, Or.inr ⟨h.ext.numAll_le, ?_, ?_⟩⟩
      · rw [VRegsInfo.numAll_addLocal]
        exact Nat.lt_succ_self _
      · exact VRegsInfo.vregType_addLocal_self st.vi t
  · rcases List.mem_or_eq_of_mem_set ho with ho | rfl
    · rcases h.inputs o ho with ho | ⟨t', v, src, he', hm⟩
      · exact Or.inl ho
      · exact Or.inr ⟨t', v, src, he', List.mem_append_left _ hm⟩
    · exact Or.inr ⟨_, _, _, rfl, List.mem_append_right _ (List.mem_singleton_self _)⟩
  · rcases h.sim env s s' hs with ⟨s1, hq, hp⟩ | ⟨hl, u, hu⟩
    · exact Or.inl ⟨_, hq.append (Quiet.mov rfl rfl s1),
        hp.lowerConst hi h.op hc h.below h.ext.numAll_le hg⟩
    · refine Or.inr ⟨hl, u, fun rest => ?_⟩
      rw [List.append_assoc]
      exact hu _

lemma SelInv.lowerConsts {l : List ℕ} (h : SelInv vi ins st)
    (hfit : (l.foldl (fun st i => QSel.lowerConst c i st) st).vi.numAll ≤ 2 ^ 16) :
    SelInv vi ins (l.foldl (fun st i => QSel.lowerConst c i st) st) := by
  induction l generalizing st with
  | nil => exact h
  | cons i l ih => exact ih (h.lowerConst ((ext_lowerConsts c l _).numAll_le.trans hfit)) hfit

/-! ### The constants that remain -/

/-- Input `k` is no constant, or one that its constraint admits. -/
def Admitted (c : InstCt) (ins : Inst) (k : ℕ) : Prop :=
  ∀ t (val : BitVec 32), ins.i.getD k .bad = .const t val →
    matchGpConst val.toNat (ctOf c (ins.op.nOut + k)).ci = true

/-- Lowering one constant: the input in hand is admitted afterwards, and no other changes. -/
lemma lowerConst_inputs (c : InstCt) (i : ℕ) (st : SelState) :
    (lowerConst c i st).ins.op = st.ins.op ∧ (lowerConst c i st).ins.o = st.ins.o ∧
      Admitted c (lowerConst c i st).ins i ∧
      (∀ k, k ≠ i → (lowerConst c i st).ins.i.getD k .bad = st.ins.i.getD k .bad) ∧
      ∀ k t v, st.ins.i.getD k .bad = .vgpr t v →
        (lowerConst c i st).ins.i.getD k .bad = .vgpr t v := by
  rcases lowerConst_cases c i st with ⟨he, hadm⟩ | ⟨t, val, hc, he⟩
  · rw [he]
    exact ⟨rfl, rfl, hadm, fun _ _ => rfl, fun _ _ _ => id⟩
  · rw [he]
    have hi : i < st.ins.i.length := by
      by_contra hge
      rw [getD_of_ge (by omega)] at hc
      cases hc
    refine ⟨rfl, rfl, fun t' val' h => ?_, fun k hk => ?_, fun k t' v hv => ?_⟩
    · rw [Inst.setI_i, getD_set hi, if_pos rfl] at h
      cases h
    · rw [Inst.setI_i, getD_set hi, if_neg hk]
    · have hk : k ≠ i := by
        rintro rfl
        rw [hc] at hv
        cases hv
      rw [Inst.setI_i, getD_set hi, if_neg hk, hv]

/-- After the loop every input that it visits is admitted, and registers are still there. -/
lemma lowerConsts_inputs (c : InstCt) (l : List ℕ) (st : SelState) :
    (l.foldl (fun st i => lowerConst c i st) st).ins.op = st.ins.op ∧
      (l.foldl (fun st i => lowerConst c i st) st).ins.o = st.ins.o ∧
      (∀ k, Admitted c st.ins k ∨ k ∈ l →
        Admitted c (l.foldl (fun st i => lowerConst c i st) st).ins k) ∧
      ∀ k t v, st.ins.i.getD k .bad = .vgpr t v →
        (l.foldl (fun st i => lowerConst c i st) st).ins.i.getD k .bad = .vgpr t v := by
  induction l generalizing st with
  | nil => exact ⟨rfl, rfl, fun k hk => hk.resolve_right (by simp), fun _ _ _ => id⟩
  | cons i l ih =>
    obtain ⟨hop, ho, hadm, hother, hreg⟩ := lowerConst_inputs c i st
    obtain ⟨hop', ho', hadm', hreg'⟩ := ih (lowerConst c i st)
    refine ⟨hop'.trans hop, ho'.trans ho, fun k hk => hadm' k ?_, fun k t v hv =>
      hreg' k t v (hreg k t v hv)⟩
    by_cases hki : k = i
    · subst hki
      exact Or.inl hadm
    · rcases hk with hk | hk
      · refine Or.inl fun t val hc => ?_
        rw [hother k hki] at hc
        rw [hop]
        exact hk t val hc
      · exact Or.inr ((List.mem_cons.mp hk).resolve_left hki)

/-! ### Tied inputs -/

/-- Only the first input of a two-operand operation is tied, to the only output. -/
lemma tied_input {op : Op} {k : ℕ} (h : opCt op = some c) (hk : k < op.nIn)
    (ha : (ctOf c (op.nOut + k)).hasAlias = true) :
    k = 0 ∧ op.nOut = 1 ∧ op.nIn = 2 ∧ (ctOf c 1).aliasIdx = 0 ∧ (ctOf c 0).hasAlias = true ∧
      op.sideeff = false := by
  have hk2 : k < 2 := lt_of_lt_of_le hk (by cases op <;> simp [Op.nIn])
  cases op <;> simp only [opCt, Option.some.injEq, reduceCtorEq] at h <;> subst h <;>
    simp only [Op.nOut, Op.nIn, Op.sideeff] at hk ha ⊢ <;> clear hk <;> interval_cases k <;>
    revert ha <;> decide

lemma satisfyAlias_of_free {i : ℕ} (h : (ctOf c (st.ins.op.nOut + i)).hasAlias = false) :
    satisfyAlias c i st = some st := by
  simp [satisfyAlias, h]

/-- The first input of a tied operation. -/
lemma satisfyAlias_zero {a b o : VOperand} (hn : ins.op.nOut = 1) (hn2 : ins.op.nIn = 2)
    (ha : (ctOf c 1).hasAlias = true) (hidx : (ctOf c 1).aliasIdx = 0) (ho : ins.o = [o])
    (hi : ins.i = [a, b]) (h : satisfyAlias c 0 ⟨vi, [], ins⟩ = some st) :
    ∃ t d, o = .vgpr t d ∧
      ((isReg d a = true ∧ st = ⟨vi, [], ins⟩) ∨
      (isReg d a = false ∧ isReg d b = false ∧
        st = ⟨vi, [.mkMov (.vgpr t d) a], ins.setI 0 (.vgpr t d)⟩) ∨
      (isReg d a = false ∧ isReg d b = true ∧
        st = ⟨(vi.addLocal t).2,
          [.mkMov (.vgpr t (vi.addLocal t).1) (.vgpr t d), .mkMov (.vgpr t d) a],
          (ins.setI 1 (.vgpr t (vi.addLocal t).1)).setI 0 (.vgpr t d)⟩)) := by
  simp only [satisfyAlias, hn, Nat.add_zero, ha, hidx, Bool.not_true, Bool.false_eq_true, if_false,
    ho, hi, List.getD_cons_zero] at h
  cases o with
  | vgpr t d =>
    refine ⟨t, d, rfl, ?_⟩
    have hlive : liveInputs ins 0 d = if isReg d b then [1] else [] := by
      cases hb : isReg d b <;> simp [liveInputs, hn2, hi, List.range_succ, hb]
    simp only [hlive] at h
    cases ha : isReg d a with
    | true =>
      simp only [ha, if_true, Option.some.injEq] at h
      exact Or.inl ⟨rfl, h.symm⟩
    | false =>
      refine Or.inr ?_
      cases hb : isReg d b with
      | false =>
        simp only [ha, hb, Bool.false_eq_true, if_false, List.isEmpty_nil, if_true,
          Option.some.injEq] at h
        exact Or.inl ⟨rfl, rfl, h.symm⟩
      | true =>
        simp only [ha, hb, Bool.false_eq_true, if_false, List.isEmpty_cons, if_true,
          Option.some.injEq] at h
        exact Or.inr ⟨rfl, rfl, h.symm⟩
  | _ => cases h

/-- Writing the output of a tied operation early makes no difference: it is written again. -/
lemma Prepared.of_tied {t : VType} {d : ℕ} {a b : VOperand} (b' : VOperand)
    (hse : ins.op.sideeff = false)
    (ho : ins.o = [.vgpr t d]) (hi : ins.i = [a, b]) (hi' : ins'.i = [.vgpr t d, b'])
    (hs : Agree n s s') (ha : Below n a) (hsize : a.getType.toSize ≤ t.toSize)
    (hread : a.isReadable = true)
    (hb : readOpr vi (writeOpr vi s' (.vgpr t d) (readOpr vi s' a)) b' = readOpr vi s b ∧
      b'.isReadable = b.isReadable) :
    Prepared n vi ins ins' s (writeOpr vi s' (.vgpr t d) (readOpr vi s' a)) := by
  refine ⟨fun k hk => ?_, fun m xs hxs => ?_, ?_, fun h => ?_⟩
  · rw [hi, hi'] at *
    have hk2 : k < 2 := hk
    interval_cases k
    · refine ⟨?_, hread.symm⟩
      rw [List.getD_cons_zero, List.getD_cons_zero, readOpr_writeOpr_same,
        lowBytes_readOpr s' hsize, hs.readOpr ha]
    · exact hb
  · obtain ⟨x, rfl⟩ : ∃ x, xs = [x] := List.length_eq_one_iff.mp (by rw [hxs, ho]; rfl)
    rw [ho]
    have hmem : ({ writeOpr vi s' (.vgpr t d) (readOpr vi s' a) with mem := m } : QState) =
        writeOpr vi { s' with mem := m } (.vgpr t d) (readOpr vi s' a) := by
      cases hg : vi.getGlobalInfo d <;> simp [writeOpr, hg]
    simp only [writeOuts, hmem, writeOpr_writeOpr]
    exact (hs.withMem m).writeOpr _ _
  · cases hg : vi.getGlobalInfo d <;> simp [writeOpr, hg, hs.mem]
  · rw [hse] at h
    cases h

/-- The other input, when it does not name the output. -/
lemma readOpr_other {t : VType} {d : ℕ} {b : VOperand} (hd : VOperand.Sized vi (.vgpr t d))
    (hb : b.Sized vi) (hreg : isReg d b = false)
    (hslot : ∀ t' k g, b = .slot true t' k → vi.getGlobalInfo d = some g →
      StateReg.Apart ⟨g.stateOffs, t⟩ ⟨k, t'⟩) (s : QState) (x : BitVec 32) :
    readOpr vi (writeOpr vi s (.vgpr t d) x) b = readOpr vi s b := by
  obtain ⟨t₀, ht₀, hle⟩ := hd
  cases b with
  | vgpr u w =>
    obtain ⟨u₀, hu₀, hle'⟩ := hb
    have hne : w ≠ d := by simpa [isReg] using hreg
    exact readOpr_writeOpr_of_ne vi hne (fun g hg => VRegsInfo.le_of_vregType ht₀ hle hg)
      (fun g hg => VRegsInfo.le_of_vregType hu₀ hle' hg) s x
  | slot g u k =>
    cases hg : vi.getGlobalInfo d with
    | none => cases g <;> simp [readOpr, writeOpr, hg]
    | some r =>
      cases g with
      | false => simp [readOpr, writeOpr, hg]
      | true =>
        simp only [readOpr, writeOpr, hg]
        exact ByteMem.load_store_disjoint _ _ (hslot u k r rfl hg).symm
  | _ => cases hg : vi.getGlobalInfo d <;> simp [readOpr, writeOpr, hg]

/-- A move from an operand that cannot be read gets stuck. -/
lemma execList_mkMov_stuck {d o : VOperand} (ho : o.isReadable = false) (s : QState)
    (rest : List Inst) : execList env vi (.mkMov d o :: rest) s = ([], .stuck, s) := by
  have hl : (Inst.mkMov d o).legal = false := by simp [Inst.legal, Inst.mkMov, ho]
  have hx : exec env vi (.mkMov d o) s = ([], .stuck, s) := exec_illegal hl s
  rw [execList_cons_leave (by rw [hx]; simp), hx]

/-- The aliases of a tied operation. -/
lemma SelInv.satisfyAlias {a b o : VOperand} (hsel : Selectable vi ins)
    (hc : opCt ins.op = some c) (hn : ins.op.nOut = 1) (hn2 : ins.op.nIn = 2)
    (hse : ins.op.sideeff = false) (ha : (ctOf c 1).hasAlias = true)
    (ha0 : (ctOf c 0).hasAlias = true) (hidx : (ctOf c 1).aliasIdx = 0) (ho : ins.o = [o])
    (hi : ins.i = [a, b]) (hext : vi.Extends vi')
    (hfit : st.vi.numAll ≤ 2 ^ 16) (h : QSel.satisfyAlias c 0 ⟨vi', [], ins⟩ = some st) :
    SelInv vi ins st ∧ ∃ t t' d, ins.o = [.vgpr t d] ∧ st.ins.i.getD 0 .bad = .vgpr t' d := by
  obtain ⟨t, d, rfl, hst⟩ := satisfyAlias_zero hn hn2 ha hidx ho hi h
  have hsd : VOperand.Sized vi (.vgpr t d) := hsel.sized _ (by simp [Inst.operands, ho])
  have hsa : a.Sized vi := hsel.sized _ (by simp [Inst.operands, hi])
  have hsb : b.Sized vi := hsel.sized _ (by simp [Inst.operands, hi])
  have hd : d < vi.numAll := below_of_sized hsd
  have hle := hext.numAll_le
  rcases hst with ⟨hra, rfl⟩ | ⟨hra, hrb, rfl⟩ | ⟨hra, hrb, rfl⟩
  · -- the input is the output already
    obtain ⟨t', rfl⟩ := isReg_iff.mp hra
    exact ⟨.start hsel hext, t, t', d, ho, by simp [hi]⟩
  · -- the other input does not read the output
    obtain ⟨hsize, -, hslot⟩ := hsel.tied c t d a b hc ha0 ho hi hra
    refine ⟨⟨hext, rfl, rfl, fun o ho' => ?_, fun i hi' => ?_, fun o ho' => ?_,
      fun env s s' hs => ?_⟩, t, t, d, ho, by simp [hi]⟩
    · rcases List.mem_or_eq_of_mem_set ho' with h' | rfl
      · exact (hsel.below o h').mono hle
      · exact lt_of_lt_of_le hd hle
    · exact ⟨t, d, a, List.mem_singleton.mp hi', by simp [hi], Or.inl (by simp [ho])⟩
    · rcases List.mem_or_eq_of_mem_set ho' with h' | rfl
      · exact Or.inl h'
      · exact Or.inr ⟨t, d, a, rfl, by simp⟩
    · cases hread : a.isReadable with
      | true =>
        refine Or.inl ⟨_, Quiet.mov rfl hread s', Prepared.of_tied _ hse ho hi (by simp [hi]) hs
          (below_of_sized hsa) hsize hread ⟨?_, rfl⟩⟩
        rw [readOpr_other hsd hsb hrb hslot, hs.readOpr (below_of_sized hsb)]
      | false =>
        exact Or.inr ⟨by simp [Inst.legal, hi, hread], s', execList_mkMov_stuck hread s'⟩
  · -- the other input reads the output, and gets a copy
    obtain ⟨hsize, htype, -⟩ := hsel.tied c t d a b hc ha0 ho hi hra
    obtain ⟨t', rfl⟩ := isReg_iff.mp hrb
    obtain rfl := htype t' rfl
    simp only [VRegsInfo.numAll_addLocal] at hfit
    rw [VRegsInfo.addLocal_fst (by omega)]
    have hg : vi.getGlobalInfo vi'.numAll = none := VRegsInfo.getGlobalInfo_of_ge hle
    refine ⟨⟨hext.trans (.addLocal _ t'), rfl, rfl, fun o ho' => ?_,
      fun i hi' => ?_, fun o ho' => ?_, fun env s s' hs => ?_⟩, t', t', d, ho, by simp [hi]⟩
    · simp only [VRegsInfo.numAll_addLocal]
      rcases List.mem_or_eq_of_mem_set ho' with h' | rfl
      · rcases List.mem_or_eq_of_mem_set h' with h' | rfl
        · exact (hsel.below o h').mono (Nat.le_succ_of_le hle)
        · exact Nat.lt_succ_self _
      · exact Nat.lt_succ_of_lt (lt_of_lt_of_le hd hle)
    · rcases List.mem_cons.mp hi' with rfl | hi'
      · refine ⟨t', vi'.numAll, _, rfl, by simp [hi], Or.inr ⟨hle, ?_, ?_⟩⟩
        · rw [VRegsInfo.numAll_addLocal]
          exact Nat.lt_succ_self _
        · exact VRegsInfo.vregType_addLocal_self vi' t'
      · exact ⟨t', d, a, List.mem_singleton.mp hi', by simp [hi], Or.inl (by simp [ho])⟩
    · rcases List.mem_or_eq_of_mem_set ho' with h' | rfl
      · rcases List.mem_or_eq_of_mem_set h' with h' | rfl
        · exact Or.inl h'
        · exact Or.inr ⟨_, _, _, rfl, List.mem_cons_self⟩
      · exact Or.inr ⟨t', d, a, rfl, by simp⟩
    · set tmp := VOperand.vgpr t' vi'.numAll with htmp
      have hq : Quiet env vi [.mkMov tmp (.vgpr t' d)] s' _ := Quiet.mov rfl rfl s'
      set s1 := writeOpr vi s' tmp (readOpr vi s' (.vgpr t' d)) with hs1
      have hs' : Agree vi.numAll s s1 := hs.writeTemp hle hg _ _
      cases hread : a.isReadable with
      | true =>
        refine Or.inl ⟨_, hq.append (Quiet.mov rfl hread s1), Prepared.of_tied tmp hse
          ho hi (by simp [hi]) hs' (below_of_sized hsa) hsize hread ⟨?_, rfl⟩⟩
        have hne : vi'.numAll ≠ d := by omega
        obtain ⟨t₀, ht₀, hle⟩ := hsd
        rw [htmp, readOpr_writeOpr_of_ne vi hne (fun g hg => VRegsInfo.le_of_vregType ht₀ hle hg)
          (fun g hg' => by rw [hg] at hg'; cases hg'), hs1, htmp, readOpr_writeOpr_same]
        exact (lowBytes_readOpr s' (o := .vgpr t' d) le_rfl).trans (hs.readOpr hd)
      | false =>
        refine Or.inr ⟨by simp [Inst.legal, hi, hread], s1, fun rest => ?_⟩
        have := hq (.mkMov (.vgpr t' d) a :: rest)
        simp only [List.cons_append, List.nil_append] at this ⊢
        rw [this]
        exact execList_mkMov_stuck hread s1 rest

/-! ### The pass over one instruction -/

/-- The aliases of any operation: nothing is tied, or the first of two inputs is. -/
lemma satisfyAliases_cases (hc : opCt ins.op = some c)
    (h : (List.range ins.op.nIn).foldlM (fun st i => satisfyAlias c i st) ⟨vi, [], ins⟩ = some st) :
    (st = ⟨vi, [], ins⟩ ∧ ∀ k < ins.op.nIn, (ctOf c (ins.op.nOut + k)).hasAlias = false) ∨
      ((ins.op.nOut = 1 ∧ ins.op.nIn = 2 ∧ (ctOf c 1).aliasIdx = 0 ∧
        (ctOf c 0).hasAlias = true ∧ ins.op.sideeff = false) ∧ (ctOf c 1).hasAlias = true ∧
        satisfyAlias c 0 ⟨vi, [], ins⟩ = some st) := by
  by_cases htied : ∃ k < ins.op.nIn, (ctOf c (ins.op.nOut + k)).hasAlias = true
  · obtain ⟨k, hk, hal⟩ := htied
    obtain ⟨rfl, hn, hn2, hidx, ha0, hse⟩ := tied_input hc hk hal
    rw [hn, Nat.add_zero] at hal
    obtain ⟨o, ho⟩ : ∃ o, ins.o = [o] := List.length_eq_one_iff.mp (by rw [ins.ho, hn])
    obtain ⟨a, b, hi⟩ : ∃ a b, ins.i = [a, b] := List.length_eq_two.mp (by rw [ins.hi, hn2])
    rw [hn2, show List.range 2 = [0, 1] from rfl] at h
    obtain ⟨st1, h1, h2⟩ := FoldM.foldlM_cons_eq_some.mp h
    obtain ⟨st2, h3, h4⟩ := FoldM.foldlM_cons_eq_some.mp h2
    rw [FoldM.foldlM_nil_eq_some] at h4
    subst h4
    have hop1 : st1.ins.op = ins.op := by
      obtain ⟨t, d, -, hst⟩ := satisfyAlias_zero hn hn2 hal hidx ho hi h1
      rcases hst with ⟨-, rfl⟩ | ⟨-, -, rfl⟩ | ⟨-, -, rfl⟩ <;> rfl
    have hfree : (ctOf c (ins.op.nOut + 1)).hasAlias = false := by
      by_contra hal'
      have := tied_input hc (k := 1) (by omega) (by simpa using hal')
      omega
    rw [satisfyAlias_of_free (by rw [hop1]; exact hfree)] at h3
    cases h3
    exact Or.inr ⟨⟨hn, hn2, hidx, ha0, hse⟩, hal, h1⟩
  · push Not at htied
    have hid : ∀ (l : List ℕ), (∀ i ∈ l, i < ins.op.nIn) →
        l.foldlM (fun st i => satisfyAlias c i st) (⟨vi, [], ins⟩ : SelState) =
          some ⟨vi, [], ins⟩ := by
      intro l hl
      induction l with
      | nil => rfl
      | cons i l ih =>
        have hfree : satisfyAlias c i ⟨vi, [], ins⟩ = some ⟨vi, [], ins⟩ :=
          satisfyAlias_of_free (by simpa using htied i (hl i (by simp)))
        rw [List.foldlM_cons, hfree]
        exact ih fun j hj => hl j (List.mem_cons_of_mem i hj)
    rw [hid _ fun i hi => List.mem_range.mp hi] at h
    cases h
    exact Or.inl ⟨rfl, fun k hk => by simpa using htied k hk⟩

lemma satisfyAliases_spec (hsel : Selectable vi ins) (hc : opCt ins.op = some c)
    (hext : vi.Extends vi')
    (h : (List.range ins.op.nIn).foldlM (fun st i => satisfyAlias c i st) ⟨vi', [], ins⟩ = some st)
    (hfit : st.vi.numAll ≤ 2 ^ 16) :
    SelInv vi ins st ∧ ∀ k < ins.op.nIn, (ctOf c (ins.op.nOut + k)).hasAlias = true →
      (ctOf c (ins.op.nOut + k)).aliasIdx = 0 ∧
        ∃ t t' d, ins.o = [.vgpr t d] ∧ st.ins.i.getD k .bad = .vgpr t' d := by
  rcases satisfyAliases_cases hc h with
    ⟨rfl, hfree⟩ | ⟨⟨hn, hn2, hidx, ha0, hse⟩, hal, hzero⟩
  · exact ⟨.start hsel hext, fun k hk hal => absurd hal (by rw [hfree k hk]; decide)⟩
  · obtain ⟨o, ho⟩ : ∃ o, ins.o = [o] := List.length_eq_one_iff.mp (by rw [ins.ho, hn])
    obtain ⟨a, b, hi⟩ : ∃ a b, ins.i = [a, b] := List.length_eq_two.mp (by rw [ins.hi, hn2])
    obtain ⟨hinv, hreg⟩ := SelInv.satisfyAlias hsel hc hn hn2 hse hal ha0 hidx ho hi hext
      hfit hzero
    refine ⟨hinv, fun k hk hal' => ?_⟩
    obtain ⟨rfl, -⟩ := tied_input hc hk hal'
    rw [hn]
    exact ⟨hidx, hreg⟩

end QSel

end Rv32jit.Qcg
