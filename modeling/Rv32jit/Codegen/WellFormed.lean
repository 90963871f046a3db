/-
# Well-formed regions

What the allocator and the emitter rely on and do not check: a block has one instruction that
leaves it, at its end, with as many successors as that instruction asks for, and the local
registers do not live longer than their block.  The selection of operands keeps all of it.
-/
import Rv32jit.Codegen.RegAllocRun
import Rv32jit.Codegen.SelectTemps

namespace Rv32jit

namespace Qir.Op

/-- Control does not go on behind the operation: it is a terminator, or the call of a helper that
raises a trap. -/
def leaves : Op → Bool
  | hcall .rv32_ecall | hcall .rv32_ebreak => true
  | op => op.isTerminator

/-- The number of blocks to which the operation passes control. -/
def nSuccs : Op → ℕ
  | br => 1
  | brcc _ => 2
  | _ => 0

lemma leaves_of_nOut {op : Op} (h : op.nOut = 1) : op.leaves = false := by
  cases op <;> first | rfl | cases h

lemma exit_of_leaves {op : Op} (h : op.leaves = true) :
    (op.isTerminator || op.hasCalls) = true := by
  cases op <;> first | rfl | cases h

end Qir.Op

namespace Qcg

open Qir

/-- The block consists of `body`, which stays in it, and of one instruction that leaves it. -/
structure Terminated (blk : Block) (body : List Inst) (last : Inst) : Prop where
  ilist : blk.ilist = body ++ [last]
  stays : ∀ ins ∈ body, ins.op.leaves = false
  leaves : last.op.leaves = true
  succs : blk.succs.length = last.op.nSuccs

/-- Every block ends in its only exit, its successors exist, and it writes a local register before
it reads it. -/
structure WellFormed (r : Region) : Prop where
  terminated : ∀ blk ∈ r.blist, ∃ body last, Terminated blk body last
  succs : ∀ blk ∈ r.blist, ∀ b ∈ blk.succs, b < r.blist.length
  written : ∀ blk ∈ r.blist, LocalsWritten r.vregsInfo (fun _ => False) blk.ilist

variable {vi vi' vi₁ : VRegsInfo} {W W' : ℕ → Prop} {ins : Inst} {l l' m : List Inst} {blk : Block}

lemma Terminated.endsInExit {body : List Inst} {last : Inst} (h : Terminated blk body last) :
    EndsInExit blk := by
  refine ⟨last, ?_, Op.exit_of_leaves h.leaves⟩
  rw [h.ilist, List.getLast?_concat]

/-! ### Registers written so far -/

/-- The registers written after the code `l`. -/
def WrittenAfter (W : ℕ → Prop) (l : List Inst) (v : ℕ) : Prop :=
  W v ∨ ∃ ins ∈ l, ∃ t, VOperand.vgpr t v ∈ ins.o

lemma writtenAfter_nil : WrittenAfter W [] = W := by
  funext v
  simp [WrittenAfter]

lemma writtenAfter_cons :
    WrittenAfter W (ins :: l) = WrittenAfter (QRegAlloc.Written W ins.o) l := by
  funext v
  simp only [WrittenAfter, QRegAlloc.Written, List.mem_cons, exists_eq_or_imp, or_assoc]

lemma WrittenAfter.append {v : ℕ} (h : WrittenAfter W l v) : WrittenAfter W (l ++ m) v := by
  rcases h with h | ⟨ins, hins, h⟩
  · exact Or.inl h
  · exact Or.inr ⟨ins, List.mem_append_left m hins, h⟩

lemma LocalsWritten.mono (h : LocalsWritten vi W l) (hW : ∀ v, W v → W' v) :
    LocalsWritten vi W' l := by
  induction l generalizing W W' with
  | nil => trivial
  | cons ins l ih =>
    refine ⟨fun ty v ho hg => hW v (h.1 ty v ho hg), ih h.2 fun v hv => ?_⟩
    exact hv.imp_left (hW v)

lemma localsWritten_append : LocalsWritten vi W (l ++ m) ↔
    LocalsWritten vi W l ∧ LocalsWritten vi (WrittenAfter W l) m := by
  induction l generalizing W with
  | nil => simp [LocalsWritten, writtenAfter_nil]
  | cons ins l ih =>
    rw [List.cons_append, LocalsWritten, ih, LocalsWritten, writtenAfter_cons, and_assoc]

lemma localsWritten_singleton : LocalsWritten vi W [ins] ↔
    ∀ t v, VOperand.vgpr t v ∈ ins.i → vi.isGlobal v = false → W v := by
  simp [LocalsWritten]

/-- Only the table of the globals matters. -/
lemma LocalsWritten.congr (hvi : vi'.globInfo = vi.globInfo) (h : LocalsWritten vi W l) :
    LocalsWritten vi' W l := by
  induction l generalizing W with
  | nil => trivial
  | cons ins l ih =>
    refine ⟨fun t v ho hg => h.1 t v ho ?_, ih h.2⟩
    rw [← hg, VRegsInfo.isGlobal, VRegsInfo.isGlobal, hvi]

/-! ### The pass over one instruction -/

namespace QSel

variable {st st' : SelState} {c : InstCt}

/-- The operand may be read: it is no local register, or one that has been written. -/
def Readable (vi : VRegsInfo) (W : ℕ → Prop) (o : VOperand) : Prop :=
  ∀ t v, o = .vgpr t v → vi.isGlobal v = false → W v

/-- The moves gathered so far in front of `ins`, and what has become of `ins`. -/
structure Gathered (vi : VRegsInfo) (W : ℕ → Prop) (ins : Inst) (st : SelState) : Prop where
  op : st.ins.op = ins.op
  o : st.ins.o = ins.o
  moves : ∀ i ∈ st.code, i.op = .mov
  written : LocalsWritten vi W st.code
  inputs : ∀ o ∈ st.ins.i, Readable vi (WrittenAfter W st.code) o

lemma Gathered.start (h : LocalsWritten vi W [ins]) : Gathered vi W ins ⟨vi', [], ins⟩ := by
  refine ⟨rfl, rfl, by simp, trivial, fun o ho t v he hg => ?_⟩
  rw [writtenAfter_nil]
  exact h.1 t v (he ▸ ho) hg

lemma Gathered.createVGPR (h : Gathered vi W ins st) (t : VType) :
    Gathered vi W ins (st.createVGPR t).2 :=
  ⟨h.op, h.o, h.moves, h.written, h.inputs⟩

lemma Gathered.readable (h : Gathered vi W ins st) (k : ℕ) :
    Readable vi (WrittenAfter W st.code) (st.ins.i.getD k .bad) := by
  by_cases hk : k < st.ins.i.length
  · rw [getD_of_lt hk]
    exact h.inputs _ (List.getElem_mem hk)
  · rw [getD_of_ge (by omega)]
    exact fun t v he => by cases he

/-- A move in front of the instruction: behind it the destination may be read, too. -/
lemma Gathered.emitMov {t : VType} {d : ℕ} {s : VOperand} (h : Gathered vi W ins st)
    (hs : Readable vi (WrittenAfter W st.code) s) :
    Gathered vi W ins (st.emitMov (.vgpr t d) s) ∧
      Readable vi (WrittenAfter W (st.emitMov (.vgpr t d) s).code) (.vgpr t d) := by
  refine ⟨⟨h.op, h.o, fun i hi => ?_, localsWritten_append.mpr ⟨h.written,
    localsWritten_singleton.mpr fun t v ho hg => ?_⟩, fun o ho t v he hg => ?_⟩, ?_⟩
  · rcases List.mem_append.mp hi with hi | hi
    · exact h.moves i hi
    · rw [List.mem_singleton.mp hi]
      rfl
  · exact hs t v (List.mem_singleton.mp ho).symm hg
  · exact (h.inputs o ho t v he hg).append
  · intro t' v he _
    cases he
    exact Or.inr ⟨_, List.mem_append_right _ (List.mem_singleton_self _), t,
      List.mem_singleton_self _⟩

lemma Gathered.setI {x : VOperand} (h : Gathered vi W ins st) (k : ℕ)
    (hx : Readable vi (WrittenAfter W st.code) x) : Gathered vi W ins (st.setI k x) := by
  refine ⟨h.op, h.o, h.moves, h.written, fun o ho => ?_⟩
  rcases List.mem_or_eq_of_mem_set ho with ho | rfl
  · exact h.inputs o ho
  · exact hx

lemma Gathered.foldl_setI {x : VOperand} (h : Gathered vi W ins st) (ks : List ℕ)
    (hx : Readable vi (WrittenAfter W st.code) x) :
    Gathered vi W ins (ks.foldl (fun st k => st.setI k x) st) ∧
      (ks.foldl (fun st k => st.setI k x) st).code = st.code := by
  induction ks generalizing st with
  | nil => exact ⟨h, rfl⟩
  | cons k ks ih => exact ih (h.setI k hx) hx

/-- The output of a tied operation is read by the inputs in `live`, so it may be read. -/
lemma Gathered.readable_live {t : VType} {i d : ℕ} (h : Gathered vi W ins st)
    (hlive : (liveInputs st.ins i d).isEmpty = false) :
    Readable vi (WrittenAfter W st.code) (.vgpr t d) := by
  obtain ⟨k, hk⟩ := List.exists_mem_of_ne_nil (liveInputs st.ins i d) (by
    rintro he
    rw [he] at hlive
    cases hlive)
  have hreg : isReg d (st.ins.i.getD k .bad) = true := by
    have := (List.mem_filter.mp hk).2
    exact (Bool.and_eq_true_iff.mp this).2
  obtain ⟨u, hu⟩ := isReg_iff.mp hreg
  intro t' v he hg
  cases he
  exact h.readable k u d hu hg

lemma Gathered.satisfyAlias {i : ℕ} (h : Gathered vi W ins st)
    (hst : QSel.satisfyAlias c i st = some st') : Gathered vi W ins st' := by
  have hsrc := h.readable i
  simp only [QSel.satisfyAlias] at hst
  split at hst
  · cases hst
    exact h
  split at hst
  case h_2 => cases hst
  split at hst
  · cases hst
    exact h
  · rename_i t d _ _
    cases hst
    split
    · -- no other input reads the output
      obtain ⟨h1, hd⟩ := h.emitMov (t := t) (d := d) hsrc
      exact h1.setI i hd
    · rename_i hlive
      obtain ⟨h1, htmp⟩ := (h.createVGPR t).emitMov (t := t) (d := (st.vi.addLocal t).1)
        (h.readable_live (t := t) (by simpa using hlive))
      obtain ⟨h2, hcode⟩ := h1.foldl_setI (liveInputs st.ins i d) htmp
      have hsrc' : Readable vi (WrittenAfter W ((st.createVGPR t).2.emitMov
          (.vgpr t (st.vi.addLocal t).1) (.vgpr t d)).code) (st.ins.i.getD i .bad) :=
        fun t' v he hg => (hsrc t' v he hg).append
      rw [← hcode] at hsrc'
      obtain ⟨h3, hd⟩ := h2.emitMov (t := t) (d := d) hsrc'
      exact h3.setI i hd

lemma Gathered.lowerConst (h : Gathered vi W ins st) (i : ℕ) :
    Gathered vi W ins (QSel.lowerConst c i st) := by
  rcases lowerConst_cases c i st with ⟨he, -⟩ | ⟨t, val, -, he⟩ <;> rw [he]
  · exact h
  · obtain ⟨h1, hd⟩ := (h.createVGPR t).emitMov (t := t) (d := (st.vi.addLocal t).1)
      (s := .const t val) (fun _ _ he => by cases he)
    exact h1.setI i hd

/-- What the pass makes of an instruction: moves, and then the operation with its outputs. -/
lemma gathered_visit (h : visit vi' ins = some st) (hw : LocalsWritten vi W [ins]) :
    Gathered vi W ins st := by
  have hstart : Gathered vi W ins ⟨vi', [], ins⟩ := .start hw
  have hselect : selectOperands vi' ins = some st → Gathered vi W ins st := by
    intro h
    simp only [selectOperands] at h
    obtain ⟨c, -, h⟩ := Option.bind_eq_some_iff.mp h
    obtain ⟨st₁, h₁, h⟩ := Option.bind_eq_some_iff.mp h
    cases h
    have halias := FoldM.relates (R := fun u u' : SelState => Gathered vi W ins u →
      Gathered vi W ins u') (fun _ => id) (fun _ _ _ f g => g ∘ f) h₁
      fun i _ u u' hu hg => hg.satisfyAlias hu
    have hlower : ∀ (l : List ℕ) (u : SelState), Gathered vi W ins u →
        Gathered vi W ins (l.foldl (fun st i => QSel.lowerConst c i st) u) := by
      intro l
      induction l with
      | nil => exact fun _ => id
      | cons i l ih => exact fun u hu => ih _ (hu.lowerConst i)
    exact hlower _ _ (halias hstart)
  obtain ⟨op, o, i, ho, hi⟩ := ins
  cases op
  case br | gbr | hcall =>
    cases h
    exact hstart
  all_goals exact hselect h

/-! ### The pass over a block -/

lemma written_runInsts (hvi : runInsts vi' l = some (vi₁, l')) (hw : LocalsWritten vi W l)
    (hW : ∀ v, W v → W' v) : LocalsWritten vi W' l' := by
  induction l generalizing vi' l' W W' with
  | nil =>
    cases hvi
    trivial
  | cons ins l ih =>
    obtain ⟨st, y, h1, h2, h3⟩ := runInsts_cons.mp hvi
    cases h3
    have hg : Gathered vi W' ins st :=
      gathered_visit h1 ⟨fun t v ho hgl => hW v (hw.1 t v ho hgl), trivial⟩
    rw [List.append_assoc, localsWritten_append]
    refine ⟨hg.written, fun t v ho hgl => hg.inputs _ ho t v rfl hgl, ih h2 hw.2 fun v hv => ?_⟩
    rw [hg.o]
    rcases hv with hv | hv
    · exact Or.inl (Or.inl (hW v hv))
    · exact Or.inr hv

/-- Every instruction that comes out is a move, or has the operation of one that went in. -/
lemma mem_runInsts (h : runInsts vi l = some (vi₁, l')) {i : Inst} (hi : i ∈ l') :
    i.op = .mov ∨ ∃ ins ∈ l, i.op = ins.op ∧ (ins.op.hasCalls = true → i = ins) := by
  induction l generalizing vi l' with
  | nil =>
    cases h
    cases hi
  | cons ins l ih =>
    obtain ⟨st, y, h1, h2, h3⟩ := runInsts_cons.mp h
    cases h3
    have hg : Gathered vi (fun _ => True) ins st :=
      gathered_visit h1 ⟨fun _ _ _ _ => trivial, trivial⟩
    rcases List.mem_append.mp hi with hi | hi
    · rcases List.mem_append.mp hi with hi | hi
      · exact Or.inl (hg.moves i hi)
      · obtain rfl := List.mem_singleton.mp hi
        refine Or.inr ⟨ins, List.mem_cons_self, hg.op, fun hc => ?_⟩
        obtain ⟨op, o, i, ho, hi'⟩ := ins
        cases op with
        | hcall stub =>
          cases h1
          rfl
        | _ => cases hc
    · refine (ih h2 hi).imp_right fun ⟨ins', hm, h'⟩ => ⟨ins', List.mem_cons_of_mem _ hm, h'⟩

/-- The pass makes no call. -/
lemma mem_of_hasCalls (h : runInsts vi l = some (vi₁, l')) {i : Inst} (hi : i ∈ l')
    (hc : i.op.hasCalls = true) : i ∈ l := by
  rcases mem_runInsts h hi with hm | ⟨ins, hins, hop, heq⟩
  · rw [hm] at hc
    cases hc
  · rw [heq (by rwa [hop] at hc)]
    exact hins

lemma runInsts_append {x : VRegsInfo × List Inst} (h : runInsts vi (l ++ m) = some x) :
    ∃ y z, runInsts vi l = some y ∧ runInsts y.1 m = some z ∧ x = (z.1, y.2 ++ z.2) := by
  induction l generalizing vi x with
  | nil => exact ⟨(vi, []), x, rfl, h, rfl⟩
  | cons ins l ih =>
    obtain ⟨st, y, h1, h2, rfl⟩ := runInsts_cons.mp h
    obtain ⟨u, z, h3, h4, rfl⟩ := ih h2
    exact ⟨_, z, runInsts_cons.mpr ⟨st, u, h1, h3, rfl⟩, h4, by simp⟩

lemma terminated_runInsts {body : List Inst} {last : Inst} (ht : Terminated blk body last)
    (h : runInsts vi blk.ilist = some (vi₁, l')) :
    ∃ body' last', Terminated { blk with ilist := l' } body' last' ∧ last'.op = last.op := by
  rw [ht.ilist] at h
  obtain ⟨y, z, h1, h2, h3⟩ := runInsts_append h
  cases h3
  obtain ⟨st, u, h4, h5, rfl⟩ := runInsts_cons.mp h2
  cases h5
  have hg : Gathered vi (fun _ => True) last st :=
    gathered_visit h4 ⟨fun _ _ _ _ => trivial, trivial⟩
  refine ⟨y.2 ++ st.code, st.ins, ⟨by simp, fun i hi => ?_, ?_, ?_⟩, hg.op⟩
  · rcases List.mem_append.mp hi with hi | hi
    · rcases mem_runInsts h1 hi with hm | ⟨ins, hins, hop, -⟩
      · rw [hm]
        rfl
      · rw [hop]
        exact ht.stays ins hins
    · rw [hg.moves i hi]
      rfl
  · rw [hg.op]
    exact ht.leaves
  · rw [hg.op]
    exact ht.succs

/-! ### The pass over a region -/

/-- What the pass makes of each block. -/
lemma forall₂_runBlocks {bs bs' : List Block} (h : runBlocks vi bs = some (vi₁, bs')) :
    List.Forall₂ (fun blk blk' => ∃ u u' l', runInsts u blk.ilist = some (u', l') ∧
      blk' = { blk with ilist := l' }) bs bs' := by
  induction bs generalizing vi bs' with
  | nil =>
    cases h
    exact .nil
  | cons blk bs ih =>
    simp only [runBlocks] at h
    obtain ⟨⟨u', l'⟩, h1, h⟩ := Option.bind_eq_some_iff.mp h
    obtain ⟨⟨u₂, rest⟩, h2, h⟩ := Option.bind_eq_some_iff.mp h
    cases h
    exact .cons ⟨vi, u', l', h1, rfl⟩ (ih h2)

/-- The selection of operands keeps a region well-formed. -/
theorem wellFormed_run {r r' : Region} {info : MachineRegionInfo} (h : WellFormed r)
    (hrun : QSel.run r = some (r', info)) : WellFormed r' := by
  simp only [QSel.run] at hrun
  obtain ⟨⟨vi₁, bs⟩, hblocks, hrun⟩ := Option.bind_eq_some_iff.mp hrun
  cases hrun
  have hall := forall₂_runBlocks hblocks
  refine ⟨fun blk' hb => ?_, fun blk' hb b hs => ?_, fun blk' hb => ?_⟩ <;>
    obtain ⟨blk, hblk, u, u', l', hl, rfl⟩ := forall₂_mem_right hall hb
  · obtain ⟨body, last, ht⟩ := h.terminated blk hblk
    obtain ⟨body', last', ht', -⟩ := terminated_runInsts ht hl
    exact ⟨body', last', ht'⟩
  · rw [← hall.length_eq]
    exact h.succs blk hblk b hs
  · exact LocalsWritten.congr (ext_runBlocks hblocks).1
      (written_runInsts hl (h.written blk hblk) fun _ => id)

end QSel

end Qcg

end Rv32jit
