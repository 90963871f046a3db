/-
# The code of an instruction

What the translator appends to the current block for one instruction, as a list.  An
instruction whose code does not leave the block is this list and nothing else; a jump or a
branch is completed by the code that passes control on.
-/
import Rv32jit.Guest.Family

namespace Rv32jit.Translate

open Qir Insn CPUState

/-! ### The lists -/

/-- An instruction with the destination of the word as its output, left out for `x0`. -/
def toRd (raw : BitVec 32) (mk : VOperand → Inst) : List Inst :=
  if rd raw ≠ 0 then [mk (vgpr (rd raw))] else []

/-- The address of a load or a store, with `tmp` as the temporary. -/
def addressOpr (raw imm : BitVec 32) (tmp : ℕ) : VOperand :=
  if imm ≠ 0 then .vgpr .I32 tmp else gprop (rs1 raw)

/-- The sum of base and offset; a zero offset needs no instruction. -/
def addressCode (raw imm : BitVec 32) (tmp : ℕ) : List Inst :=
  if imm ≠ 0 then [foldAdd (.vgpr .I32 tmp) (gprop (rs1 raw)) (vconst imm)] else []

/-- The code of a load. -/
def loadCode (raw : BitVec 32) (sz : VType) (sgn : VSign) (tmp : ℕ) : List Inst :=
  addressCode raw (immI raw) tmp ++
    [.mkVMLoad sz sgn (if rd raw ≠ 0 then vgpr (rd raw) else addressOpr raw (immI raw) tmp)
      (addressOpr raw (immI raw) tmp)]

/-- The code of a store. -/
def storeCode (raw : BitVec 32) (sz : VType) (tmp : ℕ) : List Inst :=
  addressCode raw (immS raw) tmp ++
    [.mkVMStore sz .U (addressOpr raw (immS raw) tmp) (gprop (rs2 raw) sz)]

/-- The code that writes the return address. -/
def linkCode (raw ip : BitVec 32) : List Inst := toRd raw fun d => .mkMov d (vconst (ip + 4))

/-- The target of an indirect jump. -/
def targetCode (raw : BitVec 32) (tmp : ℕ) : List Inst :=
  [foldAdd (.vgpr .I32 tmp) (gprop (rs1 raw)) (vconst (immI raw)),
    .mkAnd (.vgpr .I32 tmp) (.vgpr .I32 tmp) (vconst (~~~1#32))]

/-- The code of the body of a handler. -/
def bodyCode (f : Family) (raw ip : BitVec 32) (tmp : ℕ) : List Inst :=
  match f with
  | .lui => toRd raw fun d => .mkMov d (vconst (immU raw))
  | .auipc => toRd raw fun d => .mkMov d (vconst (immU raw + ip))
  | .jal => linkCode raw ip
  | .jalr => targetCode raw tmp ++ linkCode raw ip
  | .load sz sgn => loadCode raw sz sgn tmp
  | .store sz => storeCode raw sz tmp
  | .arith q src => toRd raw fun d => applyFolder (q.inst d (gprop (rs1 raw)) (src.opr raw))
  | .fence stub | .call stub _ => [.mkHcall stub (vconst raw)]
  | .illegal | .brcc _ => []

/-- The code that stores the instruction pointer. -/
def saveCode (f : Family) (ip : BitVec 32) : List Inst :=
  if f.saves then [.mkMov (.slot true .I32 ipOffs) (vconst ip)] else []

/-- The code of an instruction at address `ip`. -/
def insnCode (f : Family) (raw ip : BitVec 32) (tmp : ℕ) : List Inst :=
  saveCode f ip ++ bodyCode f raw ip tmp

/-- The instruction takes a temporary. -/
def usesTemp (f : Family) (raw : BitVec 32) : Bool :=
  match f with
  | .jalr => true
  | .load _ _ => immI raw != 0
  | .store _ => immS raw != 0
  | _ => false

/-- The registers of the region after the instruction. -/
def insnVRegs (f : Family) (raw : BitVec 32) (vi : VRegsInfo) : VRegsInfo :=
  if usesTemp f raw then (vi.addLocal .I32).2 else vi

namespace Translator

/-- Code at the end of the current block. -/
def emit (t : Translator) (code : List Inst) (vi : VRegsInfo) : Translator :=
  { t with region :=
    { blist := t.region.blist.modify t.bb fun blk => { blk with ilist := blk.ilist ++ code }
      vregsInfo := vi } }

lemma create_eq (t : Translator) (ins : Inst) :
    t.create ins = t.emit [applyFolder ins] t.region.vregsInfo := rfl

lemma emit_emit (t : Translator) (c d : List Inst) (vi vi' : VRegsInfo) :
    (t.emit c vi).emit d vi' = t.emit (c ++ d) vi' := by
  simp only [emit, List.modify_modify_eq]
  congr 3
  funext blk
  simp

lemma emit_nil (t : Translator) : t.emit [] t.region.vregsInfo = t := by
  obtain ⟨⟨blist, vi⟩, bb, m, c, ip⟩ := t
  simp only [emit, List.append_nil]
  congr 2
  exact List.modify_id _ _

lemma emit_emit_same (t : Translator) (c d : List Inst) (vi : VRegsInfo) :
    (t.emit c vi).emit d (t.emit c vi).region.vregsInfo = t.emit (c ++ d) vi :=
  emit_emit t c d vi vi

/-! ### The handlers append the lists -/

/-- How a handler passes control on after its code. -/
def exitFamily (f : Family) (raw : BitVec 32) (tmp : ℕ) (t : Translator) : Translator :=
  match f with
  | .jal => t.makeGBr (t.insn_ip + immJ raw)
  | .jalr => t.create (.mkGBrind (.vgpr .I32 tmp))
  | .brcc cc => t.translateBrcc raw cc
  | _ => t

/-- The number of the next temporary. -/
def nextTemp (t : Translator) : ℕ := (t.region.vregsInfo.addLocal .I32).1

lemma address_eq (t : Translator) (raw imm : BitVec 32) :
    t.address raw imm = (addressOpr raw imm t.nextTemp, t.emit (addressCode raw imm t.nextTemp)
      (if imm ≠ 0 then (t.region.vregsInfo.addLocal .I32).2 else t.region.vregsInfo)) := by
  simp only [address, addressOpr, addressCode]
  split
  · rfl
  · rw [emit_nil]

lemma translateLink_eq (t : Translator) (raw : BitVec 32) :
    t.translateLink raw = t.emit (linkCode raw t.insn_ip) t.region.vregsInfo := by
  simp only [translateLink, linkCode, toRd]
  split
  · rfl
  · exact (emit_nil t).symm

lemma body_eq {f : Family} (hf : f ≠ .illegal) (raw : BitVec 32) (t : Translator) :
    bodyFamily f raw t = some (exitFamily f raw t.nextTemp
      (t.emit (bodyCode f raw t.insn_ip t.nextTemp) (insnVRegs f raw t.region.vregsInfo))) := by
  cases f with
  | illegal => exact absurd rfl hf
  | brcc cc =>
    simp only [bodyFamily, bodyCode, insnVRegs, usesTemp, Bool.false_eq_true, if_false, emit_nil]
    rfl
  | fence stub | call stub trap => rfl
  | lui | auipc | arith =>
    simp only [bodyFamily, bodyCode, translateLui, translateAuipc, translateArithm, exitFamily,
      toRd, insnVRegs, usesTemp, Bool.false_eq_true, if_false]
    split
    · rfl
    · rw [emit_nil]
  | jal =>
    simp only [bodyFamily, bodyCode, translateJal, translateLink_eq]
    rfl
  | jalr =>
    simp only [bodyFamily, bodyCode, translateJalr, translateLink_eq, create_eq, emit_emit_same,
      exitFamily]
    rfl
  | load sz sgn =>
    simp only [bodyFamily, bodyCode, translateLoad, address_eq, exitFamily, insnVRegs, usesTemp,
      bne_iff_ne, create_eq, emit_emit_same, loadCode]
    split <;> rfl
  | store sz =>
    simp only [bodyFamily, bodyCode, translateStore, address_eq, exitFamily, insnVRegs, usesTemp,
      bne_iff_ne, create_eq, emit_emit_same, storeCode]
    rfl

lemma makeGBr_fields (t : Translator) (ip : BitVec 32) :
    (t.makeGBr ip).insn_ip = t.insn_ip ∧ (t.makeGBr ip).control = t.control := by
  simp only [makeGBr]
  split <;> exact ⟨rfl, rfl⟩

lemma makeTarget_fields (t : Translator) (ip : BitVec 32) :
    (t.makeTarget ip).2.insn_ip = t.insn_ip ∧ (t.makeTarget ip).2.control = t.control := by
  simp only [makeTarget]
  split <;> exact ⟨rfl, rfl⟩

lemma exitFamily_fields (f : Family) (raw : BitVec 32) (tmp : ℕ) (t : Translator) :
    (exitFamily f raw tmp t).insn_ip = t.insn_ip ∧
      (exitFamily f raw tmp t).control = t.control := by
  cases f with
  | jal => exact makeGBr_fields t _
  | brcc cc =>
    obtain ⟨h1, h2⟩ := makeTarget_fields t (t.insn_ip + 4)
    obtain ⟨h3, h4⟩ := makeTarget_fields (t.makeTarget (t.insn_ip + 4)).2
      ((t.makeTarget (t.insn_ip + 4)).2.insn_ip + immB raw)
    exact ⟨h3.trans h1, h4.trans h2⟩
  | _ => exact ⟨rfl, rfl⟩

/-- A handler appends the code of its instruction and passes control on. -/
lemma handler_eq {op : Insn.Op} (hop : family op ≠ .illegal) (raw : BitVec 32) (t : Translator) :
    handler op raw t =
      some { exitFamily (family op) raw t.nextTemp (t.emit
          (insnCode (family op) raw t.insn_ip t.nextTemp)
          (insnVRegs (family op) raw t.region.vregsInfo)) with
        control := if (family op).ends then .BRANCH else t.control
        insn_ip := t.insn_ip + 4 } := by
  have hsave : (if (family op).saves then t.preSideeff else t) =
      t.emit (saveCode (family op) t.insn_ip) t.region.vregsInfo := by
    simp only [saveCode]
    split
    · rfl
    · exact (emit_nil t).symm
  simp only [handler, saves_family, hsave, body_family, body_eq hop, ends_family,
    Option.bind_eq_bind, Option.bind_some]
  rw [show (t.emit (saveCode (family op) t.insn_ip) t.region.vregsInfo).nextTemp = t.nextTemp
    from rfl, emit_emit]
  have hend : ∀ u : Translator, u.insn_ip = t.insn_ip → u.control = t.control →
      (let v := if (family op).ends then { u with control := .BRANCH } else u
       some { v with insn_ip := v.insn_ip + 4 }) =
        some { u with
          control := if (family op).ends then .BRANCH else t.control
          insn_ip := t.insn_ip + 4 } := by
    intro u h1 h2
    cases (family op).ends <;> simp [h1, h2]
  exact hend _ (exitFamily_fields _ _ _ _).1 (exitFamily_fields _ _ _ _).2

/-- The code that the translator has put at the end of its block between `t` and `t'`. -/
structure Emits (t : Translator) (code : List Inst) (t' : Translator) : Prop where
  blist : t'.region.blist =
    t.region.blist.modify t.bb fun blk => { blk with ilist := blk.ilist ++ code }
  bb : t'.bb = t.bb

lemma Emits.refl (t : Translator) : Emits t [] t := by
  refine ⟨?_, rfl⟩
  simp only [List.append_nil]
  exact (List.modify_id _ _).symm

lemma Emits.trans {t t' t'' : Translator} {c d : List Inst} (h : Emits t c t')
    (h' : Emits t' d t'') : Emits t (c ++ d) t'' := by
  refine ⟨?_, h'.bb.trans h.bb⟩
  rw [h'.blist, h.blist, h.bb, List.modify_modify_eq]
  congr 1
  funext blk
  simp

/-- There is only one code that does it. -/
lemma Emits.unique {t t' : Translator} {c d : List Inst} (hbb : t.bb < t.region.blist.length)
    (h : Emits t c t') (h' : Emits t d t') : c = d := by
  have heq := congrArg (fun l => l[t.bb]?) (h.blist.symm.trans h'.blist)
  simpa [hbb] using heq

/-- The handler of an instruction that stays in its block. -/
lemma handler_emits {op : Insn.Op} (hend : (family op).ends = false) (raw : BitVec 32)
    (t : Translator) :
    ∃ t', handler op raw t = some t' ∧ Emits t (insnCode (family op) raw t.insn_ip t.nextTemp) t' ∧
      t'.insn_ip = t.insn_ip + 4 ∧ t'.control = t.control ∧ t'.ip2bb = t.ip2bb ∧
      t'.region.vregsInfo = insnVRegs (family op) raw t.region.vregsInfo := by
  have hill : family op ≠ .illegal := by
    intro h
    rw [h] at hend
    cases hend
  have hexit : ∀ u, exitFamily (family op) raw t.nextTemp u = u := by
    intro u
    cases hf : family op with
    | jal | jalr | brcc =>
      rw [hf] at hend
      cases hend
    | _ => rfl
  refine ⟨_, handler_eq hill raw t, ?_⟩
  rw [hexit, hend]
  exact ⟨⟨rfl, rfl⟩, rfl, rfl, rfl, rfl⟩

end Translator

end Rv32jit.Translate
