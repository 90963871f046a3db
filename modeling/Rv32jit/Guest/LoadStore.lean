/-
# Loads and stores

The code of a load or a store agrees with the interpreter's handler, unless the word is a load
to `x0` with offset zero.  For these the translator makes the base register the destination:
the load overwrites it or, with `x0` as the base, has a constant as its output.
-/
import Rv32jit.Guest.InsnCorrect

namespace Rv32jit.Translate

open Qir Insn CPUState

/-- The loads. -/
def isLoad : Insn.Op → Bool
  | .lb | .lh | .lw | .lbu | .lhu => true
  | _ => false

/-- The stores. -/
def isStore : Insn.Op → Bool
  | .sb | .sh | .sw => true
  | _ => false

/-- The translated word agrees with the interpreter: wherever it is translated, its code has
legal operands only and, run from any state, makes the same accesses to the guest memory as the
handler and leaves the same registers and the same memory. -/
def TranslatesAccess (raw : BitVec 32) : Prop :=
  ∀ t : Translator, t.bb < t.region.blist.length → t.region.vregsInfo.globInfo = stateInfo →
    t.region.vregsInfo.numAll < 2 ^ 16 →
    ∃ t' code, Translator.handler (decode raw) raw t = some t' ∧ t.Emits code t' ∧
      (∀ ins ∈ code, ins.legal = true) ∧
      ∀ other clobber h s, Rel h s → h.gip = t.insn_ip →
        ∃ ev s', Runs (Interp.helperEnv other clobber) t'.region.vregsInfo code s ev s' ∧
          memAccesses ev = (Interp.step raw h).acc ∧
          (∀ i < 32, gpr s'.cpu i = (Interp.step raw h).hart.gpr i) ∧
          s'.mem = (Interp.step raw h).hart.mem

variable {vi : VRegsInfo} {raw ip : BitVec 32} {tmp : ℕ} {op : Insn.Op}

lemma family_of_access (hop : isLoad op = true ∨ isStore op = true) :
    (∃ sz sgn, family op = .load sz sgn) ∨ ∃ sz, family op = .store sz := by
  cases op <;> first
    | exact Or.inl ⟨_, _, rfl⟩
    | exact Or.inr ⟨_, rfl⟩
    | simp [isLoad, isStore] at hop

lemma isX0Load_iff : isX0Load (family op) raw = true ↔
    isLoad op = true ∧ rd raw = 0 ∧ immI raw = 0 := by
  cases op <;> simp [isX0Load, isLoad, family]

lemma isWritable_addressOpr {imm : BitVec 32} (h : imm ≠ 0) :
    (addressOpr raw imm tmp).isWritable = true := by
  rw [addressOpr, if_pos h]
  rfl

lemma isReadable_addressOpr (imm : BitVec 32) : (addressOpr raw imm tmp).isReadable = true := by
  rw [addressOpr]
  split
  · rfl
  · exact isReadable_gprop _ _

lemma legal_addressCode (imm : BitVec 32) :
    ∀ ins ∈ addressCode raw imm tmp, ins.legal = true := by
  intro ins hins
  rw [addressCode] at hins
  split at hins
  · rw [List.mem_singleton.mp hins]
    exact legal_foldAdd rfl (isReadable_gprop _ _) rfl
  · cases hins

lemma legal_saveCode (f : Family) (ip : BitVec 32) :
    ∀ ins ∈ saveCode f ip, ins.legal = true := by
  intro ins hins
  rw [saveCode] at hins
  split at hins
  · rw [List.mem_singleton.mp hins]
    rfl
  · cases hins

/-- All operands are legal, but for a load to `x0` with offset zero. -/
lemma legal_insnCode (hop : isLoad op = true ∨ isStore op = true)
    (hx0 : isX0Load (family op) raw = false) :
    ∀ ins ∈ insnCode (family op) raw ip tmp, ins.legal = true := by
  intro ins hins
  rcases List.mem_append.mp hins with hins | hins
  · exact legal_saveCode _ _ ins hins
  rcases family_of_access hop with ⟨sz, sgn, hf⟩ | ⟨sz, hf⟩ <;> rw [hf] at hins hx0 <;>
    rcases List.mem_append.mp hins with hins | hins
  · exact legal_addressCode _ ins hins
  · rw [List.mem_singleton.mp hins]
    have hd : (if rd raw ≠ 0 then vgpr (rd raw) else
        addressOpr raw (immI raw) tmp).isWritable = true := by
      split
      · rfl
      · rename_i h0
        refine isWritable_addressOpr ?_
        simpa [isX0Load, not_not.mp h0] using hx0
    simp only [Inst.legal, Inst.mkVMLoad, List.all_cons, List.all_nil, hd,
      isReadable_addressOpr, Bool.and_self]
  · exact legal_addressCode _ ins hins
  · rw [List.mem_singleton.mp hins]
    simp [Inst.legal, Inst.mkVMStore, isReadable_addressOpr, isReadable_gprop]

lemma nextTemp_ge {t : Translator} (hvi : t.region.vregsInfo.globInfo = stateInfo)
    (hfit : t.region.vregsInfo.numAll < 2 ^ 16) : 32 ≤ t.nextTemp := by
  rw [Translator.nextTemp, VRegsInfo.addLocal_fst hfit, VRegsInfo.numAll, hvi,
    length_stateInfo]
  omega

lemma globInfo_insnVRegs (f : Family) (raw : BitVec 32) (vi : VRegsInfo) :
    (insnVRegs f raw vi).globInfo = vi.globInfo := by
  rw [insnVRegs]
  split <;> rfl

lemma ends_of_access (hop : isLoad op = true ∨ isStore op = true) : (family op).ends = false := by
  rcases family_of_access hop with ⟨sz, sgn, hf⟩ | ⟨sz, hf⟩ <;> rw [hf] <;> rfl

/-- A load or a store of another kind agrees. -/
lemma translatesAccess (hop : isLoad (decode raw) = true ∨ isStore (decode raw) = true)
    (hx0 : isX0Load (family (decode raw)) raw = false) : TranslatesAccess raw := by
  intro t hbb hvi hfit
  obtain ⟨t', ht', hemit, -, -, -, hv⟩ := Translator.handler_emits (ends_of_access hop) raw t
  refine ⟨t', _, ht', hemit, legal_insnCode hop hx0, fun other clobber h s hr hip => ?_⟩
  have hvi' : t'.region.vregsInfo.globInfo = stateInfo := by rw [hv, globInfo_insnVRegs, hvi]
  obtain ⟨ev, hag⟩ := insnCode_agrees other clobber raw (ends_of_access hop) hx0 hvi'
    (nextTemp_ge hvi hfit) hr hip
  obtain ⟨s', hrun, hrel⟩ := hag.runs
  exact ⟨ev, s', hrun, hag.acc, fun i hi => hrel.gpr hi, hrel.mem⟩

/-! ### The loads that do not agree -/

/-- A translator at the start of its first block. -/
def oneBlock : Translator :=
  { Translator.init with region := { blist := [{}], vregsInfo := ⟨stateInfo, []⟩ } }

/-- All registers are zero and all bytes of the memory are one. -/
def onesHart : Interp.Hart where
  cpu _ := 0
  gip := 0
  mem _ := 1

/-- A state over the memory of `onesHart`. -/
def onesState : QState where
  vreg _ := 0
  preg _ := 0
  frame _ := 0
  cpu _ := 0
  mem _ := 1

lemma rel_ones : Rel onesHart onesState := ⟨.refl _, rfl, by decide⟩

lemma load_const (c : BitVec 8) (a n : ℕ) :
    (ByteMem.load (fun _ => c) a n : BitVec 32) = ByteMem.load (fun _ => c) 0 n := by
  induction n generalizing a with
  | zero => rfl
  | succ n ih => simp only [ByteMem.load, ih (a + 1), ih (0 + 1)]

/-- A load from a memory of ones. -/
lemma extend_ones_ne_zero {sz : VType} {sgn : VSign} (hop : isLoad op = true)
    (hf : family op = .load sz sgn) (a : ℕ) :
    sgn.extend sz (onesHart.mem.load a sz.toSize) ≠ 0 := by
  rw [onesHart, load_const]
  cases op <;> cases hop <;> cases hf <;> decide

/-- The interpreter's load to `x0` changes no register. -/
lemma gpr_step_load {sz : VType} {sgn : VSign} {h : Interp.Hart} {i : ℕ}
    (hf : family (decode raw) = .load sz sgn) (hrd : rd raw = 0) (h0 : gpr h.cpu 0 = 0)
    (hi : i < 32) : (Interp.step raw h).hart.gpr i = h.gpr i := by
  have h0' : gpr (setIp h.cpu h.gip) 0 = 0 := by rw [gpr_setIp _ (by norm_num), h0]
  rw [Interp.step, Interp.handler_family, hf]
  change gpr (setGpr (setGpr (setIp h.cpu h.gip) (rd raw) _) 0 0) i = gpr h.cpu i
  rw [setGpr_setGpr_zero h0', if_pos hrd, gpr_setIp _ hi]

/-- A load to `x0` with offset zero. -/
lemma not_translatesAccess (hop : isLoad (decode raw) = true) (hrd : rd raw = 0)
    (himm : immI raw = 0) : ¬ TranslatesAccess raw := by
  intro htr
  have hvi : oneBlock.region.vregsInfo.globInfo = stateInfo := rfl
  obtain ⟨t', code, ht', hemit, hlegal, hrun⟩ := htr oneBlock (by decide) hvi (by decide)
  obtain ⟨t'', ht'', hemit', -, -, -, hv⟩ :=
    Translator.handler_emits (ends_of_access (Or.inl hop)) raw oneBlock
  rw [ht', Option.some.injEq] at ht''
  subst ht''
  obtain rfl := hemit.unique (by decide) hemit'
  obtain ⟨sz, sgn, hf⟩ : ∃ sz sgn, family (decode raw) = .load sz sgn := by
    rcases family_of_access (Or.inl hop) with h | ⟨sz, hf⟩
    · exact h
    · cases hd : decode raw <;> rw [hd] at hop hf <;> cases hop <;> cases hf
  -- the code stores the instruction pointer and loads the base register from its own address
  have hcode : ∀ ip tmp, insnCode (family (decode raw)) raw ip tmp =
      saveCode (family (decode raw)) ip ++
        [.mkVMLoad sz sgn (gprop (rs1 raw)) (gprop (rs1 raw))] := by
    intro ip tmp
    simp [insnCode, hf, bodyCode, loadCode, addressCode, addressOpr, hrd, himm]
  rw [hcode] at hlegal hrun
  by_cases h0 : rs1 raw = 0
  · have := hlegal _ (List.mem_append_right _ (List.mem_singleton_self _))
    rw [h0] at this
    cases this
  · have hg : gprop (rs1 raw) = vgpr (rs1 raw) := by rw [gprop, if_neg h0]
    have hvi' : t'.region.vregsInfo.globInfo = stateInfo := by
      rw [hv, globInfo_insnVRegs, hvi]
    obtain ⟨ev, s', hs', -, hgpr, -⟩ := hrun (fun _ _ cpu mem => ⟨cpu, mem, false⟩)
      (fun _ preg _ _ => preg) onesHart onesState rel_ones rfl
    rw [hg] at hs'
    rw [hs'.unique ((runs_saveCode _ _ _).append (.single (exec_mkVMLoad rfl rfl _)))] at hgpr
    have hlt := rs1_lt raw
    have hval := hgpr (rs1 raw) hlt
    rw [writeOpr_vgpr hvi' _ h0 hlt] at hval
    have hmem : (saved (family (decode raw)) oneBlock.insn_ip onesState).mem = onesHart.mem := by
      rw [saved]
      split <;> rfl
    simp only [gpr_setGpr_same, hmem] at hval
    refine extend_ones_ne_zero hop hf _ (hval.trans ?_)
    rw [gpr_step_load hf hrd rel_ones.x0 hlt]
    exact load_const 0 _ 4

/-- The translated code of a load or a store agrees with the interpreter's handler exactly if
the word is no load to `x0` with offset zero. -/
theorem translatesAccess_iff (raw : BitVec 32)
    (hop : isLoad (decode raw) = true ∨ isStore (decode raw) = true) :
    TranslatesAccess raw ↔ ¬ (isLoad (decode raw) = true ∧ rd raw = 0 ∧ immI raw = 0) := by
  rw [← isX0Load_iff]
  refine ⟨fun h hx0 => ?_, fun hx0 => translatesAccess hop (by simpa using hx0)⟩
  obtain ⟨h1, h2, h3⟩ := isX0Load_iff.mp hx0
  exact not_translatesAccess h1 h2 h3 h

/-- `lw x0, 0(x5)`: the translated code overwrites `x5`. -/
theorem not_translatesAccess_lw_x0 : isLoad (decode 0x0002A003#32) = true ∧
    ¬ TranslatesAccess 0x0002A003#32 :=
  ⟨by decide, not_translatesAccess (by decide) (by decide) (by decide)⟩

/-- `lw x6, 8(x5)`. -/
theorem translatesAccess_iff_lw_x6 : TranslatesAccess 0x0082A303#32 ↔
    ¬ (isLoad (decode 0x0082A303#32) = true ∧ rd 0x0082A303#32 = 0 ∧ immI 0x0082A303#32 = 0) :=
  translatesAccess_iff 0x0082A303#32 (Or.inl (by decide))

end Rv32jit.Translate
