/-
# Register allocation completes on translated code

The allocator counts registers with eight bits and has a frame of fixed size, and it checks
neither against what it is given.  A job of one range is small enough: an instruction takes at
most one temporary in translation and two in the selection of operands, an indirect jump or a
branch one more, and a range has at most `TB_MAX_INSNS` instructions.
-/
import Rv32jit.Codegen.RegAllocTotal
import Rv32jit.Guest.Compile

namespace Rv32jit.Translate

open Qir Insn CPUState Qcg

variable {prog : BitVec 32 → BitVec 32} {t : Translator} {vi : VRegsInfo} {ins : Inst}
  {raw ip a : BitVec 32} {b k tmp : ℕ} {code : List Inst} {succs : List ℕ}
  {range : BitVec 32 × BitVec 32}

/-! ### Temporaries of the selection of operands -/

lemma selTemps_le (op : Qir.Op) : op.selTemps ≤ 2 := by
  cases op <;> simp [Qir.Op.selTemps]

lemma selTemps_foldAdd (d x y : VOperand) : (foldAdd d x y).op.selTemps ≤ 1 := by
  unfold foldAdd
  split <;> (try split) <;> exact Nat.le_of_ble_eq_true rfl

/-- An assignment to the destination of a word. -/
lemma codeTemps_toRd (raw : BitVec 32) (mk : VOperand → Inst) {n : ℕ}
    (h : ∀ d, (mk d).op.selTemps ≤ n) : codeTemps (toRd raw mk) ≤ n := by
  rw [toRd]
  split
  · rw [codeTemps_cons, codeTemps_nil]
    exact h _
  · exact Nat.zero_le _

lemma codeTemps_address (raw imm : BitVec 32) (tmp : ℕ) :
    codeTemps (addressCode raw imm tmp) ≤ 1 := by
  rw [addressCode]
  split
  · rw [codeTemps_cons, codeTemps_nil]
    exact selTemps_foldAdd _ _ _
  · exact Nat.zero_le _

lemma codeTemps_insnCode (f : Family) (raw ip : BitVec 32) (tmp : ℕ) :
    codeTemps (insnCode f raw ip tmp) ≤ 2 := by
  have hsave : codeTemps (saveCode f ip) = 0 := by
    rw [saveCode]
    split <;> rfl
  have hmov : ∀ c, codeTemps (toRd raw fun d => .mkMov d (vconst c)) ≤ 0 :=
    fun c => codeTemps_toRd raw _ fun _ => le_rfl
  have hlink : codeTemps (linkCode raw ip) ≤ 0 := hmov _
  rw [insnCode, codeTemps_append, hsave, Nat.zero_add]
  cases f with
  | illegal | brcc | fence | call => exact Nat.zero_le _
  | lui | auipc => exact (hmov _).trans (Nat.zero_le _)
  | jal => exact hlink.trans (Nat.zero_le _)
  | arith q src =>
    rw [bodyCode]
    exact codeTemps_toRd raw _ fun _ => selTemps_le _
  | jalr =>
    have hadd := selTemps_foldAdd (.vgpr .I32 tmp) (gprop (rs1 raw)) (vconst (immI raw))
    have hand : (Inst.mkAnd (.vgpr .I32 tmp) (.vgpr .I32 tmp) (vconst (~~~1#32))).op.selTemps = 1 :=
      rfl
    rw [bodyCode, targetCode, codeTemps_append, codeTemps_cons, codeTemps_cons, codeTemps_nil]
    omega
  | load sz sgn =>
    rw [bodyCode, loadCode, codeTemps_append]
    exact Nat.add_le_add (codeTemps_address _ _ _) le_rfl
  | store sz =>
    rw [bodyCode, storeCode, codeTemps_append]
    exact Nat.add_le_add (codeTemps_address _ _ _) le_rfl

lemma Jump.codeTemps (h : Jump t a code succs) : Qir.codeTemps code = 0 := by
  cases h <;> rfl

/-- A block takes two temporaries for each of its instructions, and perhaps one for its end. -/
lemma Covers.codeTemps (h : Covers prog t k a code succs) : Qir.codeTemps code ≤ 2 * k + 1 := by
  induction h with
  | step hend htmp hrest ih =>
    rw [codeTemps_append]
    exact (Nat.add_le_add (codeTemps_insnCode _ _ _ _) ih).trans (by omega)
  | call hf => exact (codeTemps_insnCode _ _ _ _).trans (by decide)
  | jal hf hj =>
    rw [codeTemps_append, hj.codeTemps]
    exact (codeTemps_insnCode _ _ _ _).trans (by decide)
  | jalr hf htmp =>
    rw [codeTemps_append]
    exact Nat.add_le_add (codeTemps_insnCode _ _ _ _) (Nat.le_of_ble_eq_true rfl)
  | brcc hf ht hf' => exact Nat.le_of_ble_eq_true rfl
  | cut hj =>
    rw [hj.codeTemps]
    exact Nat.zero_le _

/-! ### Types -/

lemma type_of_store {op : Insn.Op} {sz : VType} (h : family op = .store sz) : sz ≠ .UNDEF := by
  rintro rfl
  cases op <;> cases h

lemma nOut_foldAdd (d x y : VOperand) : (foldAdd d x y).op.nOut = 1 := by
  rw [← Inst.ho, (foldAdd_operands d x y).1]
  rfl

lemma nOut_toRd (mk : VOperand → Inst) (h : ∀ d, (mk d).op.nOut = 1) (hins : ins ∈ toRd raw mk) :
    ins.op.nOut = 1 := by
  rw [toRd] at hins
  split at hins
  · rw [List.mem_singleton.mp hins]
    exact h _
  · cases hins

lemma nOut_address {imm : BitVec 32} (hins : ins ∈ addressCode raw imm tmp) :
    ins.op.nOut = 1 := by
  rw [addressCode] at hins
  split at hins
  · rw [List.mem_singleton.mp hins]
    exact nOut_foldAdd _ _ _
  · cases hins

/-- The code of an instruction without output is a call or a store. -/
lemma nOut_insnCode {f : Family} (hins : ins ∈ insnCode f raw ip tmp) :
    ins.op.nOut = 1 ∨ ins.op.hasCalls = true ∨ ∃ sz, f = .store sz ∧
      ins = .mkVMStore sz .U (addressOpr raw (immS raw) tmp) (gprop (rs2 raw) sz) := by
  have hmov : ∀ c, ins ∈ toRd raw (fun d => .mkMov d (vconst c)) → ins.op.nOut = 1 :=
    fun c => nOut_toRd _ fun _ => rfl
  rcases List.mem_append.mp hins with hins | hins
  · rw [saveCode] at hins
    split at hins
    · rw [List.mem_singleton.mp hins]
      exact Or.inl rfl
    · cases hins
  · cases f with
    | illegal | brcc => cases hins
    | lui | auipc | jal => exact Or.inl (hmov _ hins)
    | arith q src =>
      refine Or.inl (nOut_toRd (fun d => applyFolder (q.inst d (gprop (rs1 raw)) (src.opr raw)))
        (fun d => ?_) hins)
      by_cases hop : q.op = .add
      · obtain ⟨op, hout, hin⟩ := q
        obtain rfl : op = .add := hop
        exact nOut_foldAdd _ _ _
      · rw [applyFolder_of_ne hop]
        exact q.nOut
    | jalr =>
      refine Or.inl ?_
      rcases List.mem_append.mp hins with hins | hins
      · rcases List.mem_pair.mp hins with rfl | rfl
        · exact nOut_foldAdd _ _ _
        · rfl
      · exact hmov _ hins
    | load sz sgn =>
      refine Or.inl ?_
      rcases List.mem_append.mp hins with hins | hins
      · exact nOut_address hins
      · rw [List.mem_singleton.mp hins]
        rfl
    | store sz =>
      rcases List.mem_append.mp hins with hins | hins
      · exact Or.inl (nOut_address hins)
      · exact Or.inr (Or.inr ⟨sz, rfl, List.mem_singleton.mp hins⟩)
    | fence | call =>
      rw [List.mem_singleton.mp hins]
      exact Or.inr (Or.inl rfl)

lemma GuestInst.typed (h : GuestInst vi ins) (hs : ∀ sz sgn, ins.op ≠ .vmstore sz sgn) :
    ins.Typed := by
  intro o ho
  have ht : o.getType = .I32 := by
    rcases List.mem_append.mp ho with ho | ho
    · exact (h.output o ho).1
    · exact h.wide hs o ho
  rw [ht]
  decide

lemma typed_insnCode {op : Insn.Op} (hg : GuestInst vi ins)
    (hins : ins ∈ insnCode (family op) raw ip tmp) : ins.Typed := by
  rcases nOut_insnCode hins with hout | hcall | ⟨sz, hf, rfl⟩
  · refine hg.typed fun sz sgn he => ?_
    rw [he] at hout
    cases hout
  · refine hg.typed fun sz sgn he => ?_
    rw [he] at hcall
    cases hcall
  · intro o ho
    rcases List.mem_pair.mp ho with rfl | rfl
    · rw [addressOpr]
      split
      · exact VType.noConfusion
      · rw [getType_gprop]
        exact VType.noConfusion
    · rw [getType_gprop]
      exact type_of_store hf

lemma Covers.typed (h : Covers prog t k a code succs)
    (hg : ∀ ins ∈ code, GuestInst vi ins) : ∀ ins ∈ code, ins.Typed := by
  have hexit : ∀ {code : List Inst} {ins : Inst}, (∀ ins ∈ code, GuestInst vi ins) → ins ∈ code →
      ins.op.isTerminator = true → ins.Typed := by
    intro code ins hg hins hterm
    refine (hg ins hins).typed fun sz sgn he => ?_
    rw [he] at hterm
    cases hterm
  induction h with
  | step hend htmp hrest ih =>
    intro ins hins
    rcases List.mem_append.mp hins with hm | hm
    · exact typed_insnCode (hg ins hins) hm
    · exact ih (fun i hi => hg i (List.mem_append_right _ hi)) ins hm
  | call hf => exact fun ins hins => typed_insnCode (hg ins hins) hins
  | jal hf hj =>
    intro ins hins
    rcases List.mem_append.mp hins with hm | hm
    · exact typed_insnCode (hg ins hins) hm
    · refine hexit hg hins ?_
      cases hj <;> rw [List.mem_singleton.mp hm] <;> rfl
  | jalr hf htmp =>
    intro ins hins
    rcases List.mem_append.mp hins with hm | hm
    · exact typed_insnCode (hg ins hins) hm
    · refine hexit hg hins ?_
      rw [List.mem_singleton.mp hm]
      rfl
  | brcc hf ht hf' =>
    intro ins hins
    refine hexit hg hins ?_
    rw [List.mem_singleton.mp hins]
    rfl
  | cut hj =>
    intro ins hins
    refine hexit hg hins ?_
    cases hj <;> rw [List.mem_singleton.mp hins] <;> rfl

lemma Translated.typed {ranges : List (BitVec 32 × BitVec 32)} (h : Translated prog ranges t)
    (hfit : t.region.vregsInfo.numAll ≤ 2 ^ 16) :
    ∀ blk ∈ t.region.blist, ∀ ins ∈ blk.ilist, ins.Typed := by
  intro blk hblk
  have hg := h.guest hfit blk hblk
  obtain ⟨b, hb, rfl⟩ := List.getElem_of_mem hblk
  obtain ⟨a, hfind | ⟨-, heq⟩⟩ := h.blocks b hb
  · obtain ⟨-, code, succs, heq, hc⟩ := h.covered hfit a b hfind
    rw [List.getElem?_eq_getElem hb, Option.some.injEq] at heq
    rw [heq] at hg ⊢
    exact hc.typed hg
  · have hc : Covers prog t 0 a [.mkGBr a] [] := .cut .gbr
    rw [List.getElem?_eq_getElem hb, Option.some.injEq] at heq
    rw [heq] at hg ⊢
    exact hc.typed hg

/-! ### Jobs of one range -/

lemma rangeTemps_le (prog : BitVec 32 → BitVec 32) (boundary : BitVec 32) (n : ℕ)
    (ip : BitVec 32) : rangeTemps prog boundary n ip ≤ n := by
  induction n generalizing ip with
  | zero => exact le_rfl
  | succ n ih =>
    have hone : insnTemps (prog ip) ≤ 1 := by
      rw [insnTemps]
      split <;> simp
    rw [rangeTemps]
    split
    · omega
    · have := ih (ip + 4)
      omega

/-- A job of one range has one block for it. -/
lemma find_translate_range (ht : Translator.translate prog [range] = some t)
    (hb : t.find a = some b) : b = 0 := by
  have hnodup : ([range].map Prod.fst).Nodup := List.nodup_singleton _
  obtain ⟨hstart, -⟩ := progress_start prog hnodup rfl
  obtain ⟨-, hmap⟩ := progress_foldlM hstart hnodup ht
  rw [Translator.find, hmap] at hb
  simp only [Translator.insertRange, Translator.init, Translator.find, Region.createBlock,
    List.foldl_cons, List.foldl_nil, List.lookup_nil, Option.isSome_none, Bool.false_eq_true,
    if_false, List.nil_append, List.length_nil, List.lookup_cons] at hb
  split at hb <;> simp_all

lemma numAll_translate_range (ht : Translator.translate prog [range] = some t) :
    t.region.vregsInfo.numAll ≤ 96 := by
  have hle := rangeTemps_le prog range.2 TB_MAX_INSNS range.1
  rw [numAll_translate ht, jobVRegs, List.map_singleton, List.sum_singleton]
  rw [TB_MAX_INSNS] at hle ⊢
  omega

/-- The other blocks take no temporaries. -/
lemma codeTemps_translate_range (ht : Translator.translate prog [range] = some t) :
    (t.region.blist.map fun blk => Qir.codeTemps blk.ilist).sum ≤ 129 := by
  have hnodup : ([range].map Prod.fst).Nodup := List.nodup_singleton _
  have htr := translated_of_translate hnodup ht
  have hfit : t.region.vregsInfo.numAll ≤ 2 ^ 16 :=
    (numAll_translate_range ht).trans (by decide)
  have hzero : ∀ b (hb : b < t.region.blist.length), b ≠ 0 →
      Qir.codeTemps t.region.blist[b].ilist = 0 := by
    intro b hb hne
    obtain ⟨a, hfind | ⟨-, heq⟩⟩ := htr.blocks b hb
    · exact absurd (find_translate_range ht hfind) hne
    · rw [List.getElem?_eq_getElem hb, Option.some.injEq] at heq
      rw [heq]
      rfl
  have hfirst : ∀ hb : 0 < t.region.blist.length,
      Qir.codeTemps t.region.blist[0].ilist ≤ 129 := by
    intro hb
    obtain ⟨a, hfind | ⟨-, heq⟩⟩ := htr.blocks 0 hb
    · obtain ⟨-, code, succs, heq, hc⟩ := htr.covered hfit a 0 hfind
      have hk := length_jobIps_le prog [range] a
      rw [List.getElem?_eq_getElem hb, Option.some.injEq] at heq
      rw [heq]
      refine hc.codeTemps.trans ?_
      rw [TB_MAX_INSNS] at hk
      omega
    · rw [List.getElem?_eq_getElem hb, Option.some.injEq] at heq
      rw [heq]
      exact Nat.zero_le _
  revert hzero hfirst
  cases t.region.blist with
  | nil => exact fun _ _ => Nat.zero_le _
  | cons blk bs =>
    intro hzero hfirst
    have hrest : (bs.map fun blk => Qir.codeTemps blk.ilist).sum = 0 := by
      refine List.sum_eq_zero fun n hn => ?_
      obtain ⟨blk', hm, rfl⟩ := List.mem_map.mp hn
      obtain ⟨i, hi, rfl⟩ := List.getElem_of_mem hm
      exact hzero (i + 1) (Nat.succ_lt_succ hi) (Nat.succ_ne_zero i)
    rw [List.map_cons, List.sum_cons, hrest]
    exact hfirst (Nat.succ_pos _)

/-- The registers that the allocator gets, and the frame that they need. -/
lemma spillable_of_range {r : Region} {info : MachineRegionInfo}
    (ht : Translator.translate prog [range] = some t) (hrun : QSel.run t.region = some (r, info)) :
    Spillable r.vregsInfo := by
  have hnodup : ([range].map Prod.fst).Nodup := List.nodup_singleton _
  have htr := translated_of_translate hnodup ht
  have hnum := numAll_translate_range ht
  have htemps := codeTemps_translate_range ht
  have htyped := htr.typed (hnum.trans (by decide))
  simp only [QSel.run] at hrun
  obtain ⟨⟨vi, blist⟩, hblocks, hrun⟩ := Option.bind_eq_some_iff.mp hrun
  cases hrun
  have hglob : vi.globInfo = stateInfo := (QSel.ext_runBlocks hblocks).1.trans htr.globInfo
  have hall : vi.numAll ≤ 225 := by
    have := QSel.numAll_runBlocks hblocks
    omega
  refine ⟨fun v g hg => ?_, QSel.typed_runBlocks hblocks htyped fun type hty => ?_, ?_,
    hall.trans (by decide)⟩
  · have hoffs : ∀ k ∈ stateInfo.regs, k.stateOffs ≠ NO_SPILL := by decide
    rw [VRegsInfo.getGlobalInfo, hglob] at hg
    exact hoffs g (List.mem_of_getElem? hg)
  · rw [htr.locals type hty]
    exact VType.noConfusion
  · have hloc : 32 + vi.locInfo.length = vi.numAll := by
      rw [VRegsInfo.numAll, hglob, length_stateInfo]
    show 4 * vi.locInfo.length ≤ 1024
    omega

/-- A job of one range that is translated is compiled. -/
lemma compile_of_translate (ht : Translator.translate prog [range] = some t) :
    ∃ r', compile prog [range] = some (t, r') := by
  have hnodup : ([range].map Prod.fst).Nodup := List.nodup_singleton _
  obtain ⟨r, info, hrun⟩ := run_qsel_isSome hnodup ht
  have hsp := spillable_of_range ht hrun
  obtain ⟨hal, hv, -⟩ := allocatable_of_run hnodup ht hrun (hsp.counter.trans (by decide))
  have hwf := QSel.wellFormed_run (wellFormed_translate hnodup ht) hrun
  obtain ⟨r', hr'⟩ := run_regAlloc_isSome hwf hal hv hsp
  exact ⟨r', by simp [compile, ht, hrun, hr']⟩

/-- Register allocation completes on what the translator and the selection of operands make of a
job of one range, whatever the memory of the guest: every operand finds an admissible register,
no dead register is read, neither the tracks nor the frame run out, and the loop over the tracks
that counts with eight bits ends. -/
theorem run_regAlloc_translate (prog : BitVec 32 → BitVec 32) (range : BitVec 32 × BitVec 32)
    (t : Translator) (ht : Translator.translate prog [range] = some t) :
    ∃ r info r', QSel.run t.region = some (r, info) ∧ QRegAlloc.run r = some r' := by
  obtain ⟨r', hc⟩ := compile_of_translate ht
  rw [compile, ht, Option.bind_eq_bind, Option.bind_some] at hc
  obtain ⟨⟨r, info⟩, hrun, hc⟩ := Option.bind_eq_some_iff.mp hc
  obtain ⟨r'', hr, -⟩ := Option.bind_eq_some_iff.mp hc
  exact ⟨r, info, r'', hrun, hr⟩

theorem run_regAlloc_branchProg :
    ∃ t r info r', Translator.translate branchProg [(0, 8)] = some t ∧
      QSel.run t.region = some (r, info) ∧ QRegAlloc.run r = some r' := by
  have hlegal : ∀ ip, decode (branchProg ip) ≠ .illegal := by
    intro ip
    rw [branchProg]
    split <;> decide
  obtain ⟨t, ht⟩ : ∃ t, Translator.translate branchProg [(0, 8)] = some t :=
    translate_isSome hlegal (by simp) (by simp)
  obtain ⟨r, info, r', h1, h2⟩ := run_regAlloc_translate branchProg (0, 8) t ht
  exact ⟨t, r, info, r', ht, h1, h2⟩

end Rv32jit.Translate
