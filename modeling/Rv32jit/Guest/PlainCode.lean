/-
# The operands of translated code

A load to `x0` whose offset is zero has its address for the destination.  If the base is `x0` too,
this is a constant, which the emitter does not take for a destination; all other code has operands
that it takes.  The words that a job covers decide which it is.
-/
import Rv32jit.Codegen.Plain
import Rv32jit.Guest.Allocate

namespace Rv32jit.Translate

open Qir Insn CPUState Qcg

/-- The destination of the code of the instruction is a constant. -/
def loadsToConst (f : Family) (raw : BitVec 32) : Bool :=
  match f with
  | .load _ _ => rd raw = 0 ∧ immI raw = 0 ∧ rs1 raw = 0
  | _ => false

/-- The addresses of the words of a range that are translated, of which `n` are left at most. -/
def rangeInsns (prog : BitVec 32 → BitVec 32) (boundary_ip : BitVec 32) :
    ℕ → BitVec 32 → List (BitVec 32)
  | 0, _ => []
  | n + 1, ip =>
      ip :: if (family (decode (prog ip))).ends ∨ n = 0 ∨ boundary_ip ≤ ip + 4 then []
        else rangeInsns prog boundary_ip n (ip + 4)

/-- Some word of the job is a load to `x0` from the constant address zero. -/
def hasConstLoad (prog : BitVec 32 → BitVec 32) (ranges : List (BitVec 32 × BitVec 32)) : Bool :=
  ranges.any fun range => (rangeInsns prog range.2 TB_MAX_INSNS range.1).any fun ip =>
    loadsToConst (family (decode (prog ip))) (prog ip)

section
variable {raw ip imm : BitVec 32} {tmp i : ℕ} {ins : Inst} {d x y : VOperand}

/-! ### The code of an instruction -/

lemma value_gprop (i : ℕ) (type : VType) : Value type (gprop i type) := by
  rw [gprop]
  split <;> exact rfl

lemma value_vconst (c : BitVec 32) : Value .I32 (vconst c) := rfl

lemma value_src (src : Src) (raw : BitVec 32) : Value .I32 (src.opr raw) := by
  cases src with
  | imm | shamt => exact rfl
  | reg => exact value_gprop _ _

/-- An operation on words, with a register for its output. -/
lemma plain_op {v : ℕ} (hne : ins.op ≠ .mov) (hs : ∀ sz sgn, ins.op ≠ .vmstore sz sgn)
    (hl : ∀ sz sgn, ins.op = .vmload sz sgn → sz ≠ .UNDEF) (ho : ins.o = [.vgpr .I32 v])
    (hi : ∀ x ∈ ins.i, Value .I32 x) : Plain ins := by
  refine .op hne ?_ (fun k x hx => ?_) fun x hx => ⟨v, ?_⟩
  · cases hop : ins.op with
    | vmload sz sgn => exact hl sz sgn hop
    | vmstore sz sgn => exact absurd hop (hs sz sgn)
    | _ => exact trivial
  · have ht : inType ins.op k = .I32 := by
      unfold inType
      split
      · rename_i hop
        exact absurd hop (hs _ _)
      · rfl
    rw [ht]
    exact hi x (List.mem_of_getElem? hx)
  · rwa [ho, List.mem_singleton] at hx

lemma plain_mov {v : ℕ} (hx : Value .I32 x) : Plain (.mkMov (.vgpr .I32 v) x) :=
  .mov VType.noConfusion (.inl ⟨v, rfl⟩) hx

lemma plain_binop (q : Binop) {v : ℕ} (hx : Value .I32 x) (hy : Value .I32 y) :
    Plain (q.inst (.vgpr .I32 v) x y) := by
  have hout := q.nOut
  have hin := q.nIn
  refine plain_op (v := v) ?_ ?_ ?_ rfl fun z hz => ?_
  · intro h
    rw [show q.op = .mov from h] at hin
    cases hin
  · intro sz sgn h
    rw [show q.op = .vmstore sz sgn from h] at hout
    cases hout
  · intro sz sgn h
    rw [show q.op = .vmload sz sgn from h] at hin
    cases hin
  · rcases List.mem_pair.mp hz with rfl | rfl
    · exact hx
    · exact hy

lemma plain_foldAdd {v : ℕ} (hx : Value .I32 x) (hy : Value .I32 y) :
    Plain (foldAdd (.vgpr .I32 v) x y) := by
  have hadd : ∀ x y, Value .I32 x → Value .I32 y → Plain (.mkAdd (.vgpr .I32 v) x y) :=
    fun x y => plain_binop ⟨.add, rfl, rfl⟩
  unfold foldAdd
  split
  · exact plain_mov (value_vconst _)
  · split
    · exact plain_mov hy
    · exact hadd _ _ hy hx
  · split
    · exact plain_mov hx
    · exact hadd _ _ hx hy
  · exact hadd _ _ hx hy

lemma plain_toRd (mk : VOperand → Inst) (h : ∀ v, Plain (mk (.vgpr .I32 v))) :
    ∀ ins ∈ toRd raw mk, Plain ins := by
  intro ins hins
  rw [toRd] at hins
  split at hins
  · rw [List.mem_singleton.mp hins]
    exact h _
  · cases hins

lemma value_address : Value .I32 (addressOpr raw imm tmp) := by
  rw [addressOpr]
  split
  · exact rfl
  · exact value_gprop _ _

lemma plain_address : ∀ ins ∈ addressCode raw imm tmp, Plain ins := by
  intro ins hins
  rw [addressCode] at hins
  split at hins
  · rw [List.mem_singleton.mp hins]
    exact plain_foldAdd (value_gprop _ _) (value_vconst _)
  · cases hins

lemma type_of_load {op : Insn.Op} {sz : VType} {sgn : VSign} (h : family op = .load sz sgn) :
    sz ≠ .UNDEF := by
  rintro rfl
  cases op <;> cases h

/-- The destination of a load. -/
lemma load_cases (raw : BitVec 32) (tmp : ℕ) (sz : VType) (sgn : VSign) :
    (∃ v, (if rd raw ≠ 0 then vgpr (rd raw) else addressOpr raw (immI raw) tmp) = .vgpr .I32 v) ∧
        loadsToConst (.load sz sgn) raw = false ∨
      (if rd raw ≠ 0 then vgpr (rd raw) else addressOpr raw (immI raw) tmp) = .const .I32 0 ∧
        loadsToConst (.load sz sgn) raw = true := by
  rw [loadsToConst, decide_eq_true_eq, decide_eq_false_iff_not]
  by_cases hd : rd raw = 0
  · rw [if_neg (not_not.mpr hd), addressOpr]
    by_cases hm : immI raw = 0
    · rw [if_neg (not_not.mpr hm), gprop]
      by_cases hs : rs1 raw = 0
      · exact .inr ⟨if_pos hs, hd, hm, hs⟩
      · exact .inl ⟨⟨_, if_neg hs⟩, fun h => hs h.2.2⟩
    · exact .inl ⟨⟨tmp, if_pos hm⟩, fun h => hm h.2.1⟩
  · exact .inl ⟨⟨_, if_pos hd⟩, fun h => hd h.1⟩

/-- The code of an instruction but for such a load. -/
lemma plain_insnCode {op : Insn.Op} (h : loadsToConst (family op) raw = false) :
    ∀ ins ∈ insnCode (family op) raw ip tmp, Plain ins := by
  have hmov : ∀ c, ∀ ins ∈ toRd raw (fun d => .mkMov d (vconst c)), Plain ins :=
    fun c => plain_toRd _ fun v => plain_mov (value_vconst c)
  intro ins hins
  rcases List.mem_append.mp hins with hins | hins
  · rw [saveCode] at hins
    split at hins
    · rw [List.mem_singleton.mp hins]
      exact .mov VType.noConfusion (.inr ⟨_, rfl⟩) (value_vconst ip)
    · cases hins
  · revert h
    generalize hf : family op = f at hins
    intro h
    cases f with
    | illegal | brcc => cases hins
    | lui | auipc | jal => exact hmov _ ins hins
    | arith q src =>
      refine plain_toRd (fun d => applyFolder (q.inst d (gprop (rs1 raw)) (src.opr raw)))
        (fun v => ?_) ins hins
      by_cases hop : q.op = .add
      · obtain ⟨op', hout, hin⟩ := q
        obtain rfl : op' = .add := hop
        exact plain_foldAdd (value_gprop _ _) (value_src src raw)
      · rw [applyFolder_of_ne hop]
        exact plain_binop q (value_gprop _ _) (value_src src raw)
    | jalr =>
      rcases List.mem_append.mp hins with hins | hins
      · rcases List.mem_pair.mp hins with rfl | rfl
        · exact plain_foldAdd (value_gprop _ _) (value_vconst _)
        · exact plain_binop ⟨.and, rfl, rfl⟩ (x := .vgpr .I32 tmp) rfl (value_vconst _)
      · exact hmov _ ins hins
    | load sz sgn =>
      rcases List.mem_append.mp hins with hins | hins
      · exact plain_address ins hins
      · rw [List.mem_singleton.mp hins]
        rcases load_cases raw tmp sz sgn with ⟨⟨v, hv⟩, -⟩ | ⟨-, ht⟩
        · rw [hv]
          refine plain_op (v := v) Op.noConfusion (fun _ _ => Op.noConfusion) ?_ rfl fun x hx => ?_
          · rintro _ _ ⟨⟩
            exact type_of_load hf
          · rw [List.mem_singleton.mp hx]
            exact value_address
        · rw [h] at ht
          cases ht
    | store sz =>
      rcases List.mem_append.mp hins with hins | hins
      · exact plain_address ins hins
      · rw [List.mem_singleton.mp hins]
        refine .op Op.noConfusion ⟨type_of_store hf, rfl⟩ (fun k x hx => ?_) fun x hx => by cases hx
        rcases k with _ | _ | k
        · cases hx
          exact value_address
        · cases hx
          exact value_gprop _ _
        · cases hx
    | fence | call =>
      rw [List.mem_singleton.mp hins]
      refine .op Op.noConfusion trivial (fun k x hx => ?_) fun x hx => by cases hx
      rcases k with _ | k
      · cases hx
        exact value_vconst _
      · cases hx

/-- The code of such a load. -/
lemma constLoad_insnCode (ip : BitVec 32) (tmp : ℕ) {f : Family} (h : loadsToConst f raw = true) :
    ∃ ins ∈ insnCode f raw ip tmp, ConstLoad ins := by
  cases f with
  | load sz sgn =>
    rcases load_cases raw tmp sz sgn with ⟨-, hf⟩ | ⟨hd, -⟩
    · rw [h] at hf
      cases hf
    · exact ⟨_, List.mem_append_right _ (List.mem_append_right _ (List.mem_singleton_self _)),
        sz, sgn, .I32, 0, rfl, by rw [hd]; rfl⟩
  | _ => cases h

end

/-! ### The code of a job -/

variable {Q : Inst → Prop} {prog : BitVec 32 → BitVec 32} {t t' : Translator} {c : ℕ}

/-- All instructions of the region have the property. -/
def AllInsts (Q : Inst → Prop) (t : Translator) : Prop :=
  ∀ blk ∈ t.region.blist, ∀ ins ∈ blk.ilist, Q ins

/-- Every jump and every branch has the property, and the code of an instruction has it but for a
load to a constant. -/
structure Detects (Q : Inst → Prop) : Prop where
  br : Q .mkBr
  gbr : ∀ a, Q (.mkGBr a)
  gbrind : ∀ tmp, Q (.mkGBrind (.vgpr .I32 tmp))
  brcc : ∀ cc i j, Q (.mkBrcc cc (gprop i) (gprop j))
  code : ∀ (op : Insn.Op) raw ip tmp,
    (∀ ins ∈ insnCode (family op) raw ip tmp, Q ins) ↔ loadsToConst (family op) raw = false

/-- The block at which the translator is exists. -/
abbrev AtBlock (t : Translator) : Prop := t.bb < t.region.blist.length

lemma forall_modify {l : List Block} {f : Block → Block} {P : Prop}
    (hf : ∀ blk, (∀ ins ∈ (f blk).ilist, Q ins) ↔ (∀ ins ∈ blk.ilist, Q ins) ∧ P)
    (hc : c < l.length) : (∀ blk ∈ l.modify c f, ∀ ins ∈ blk.ilist, Q ins) ↔
      (∀ blk ∈ l, ∀ ins ∈ blk.ilist, Q ins) ∧ P := by
  induction l generalizing c with
  | nil => cases hc
  | cons blk l ih =>
    cases c with
    | zero =>
      rw [List.modify_zero_cons, List.forall_mem_cons, List.forall_mem_cons, hf]
      tauto
    | succ c =>
      rw [List.modify_succ_cons, List.forall_mem_cons, List.forall_mem_cons, and_assoc,
        ih (Nat.lt_of_succ_lt_succ hc)]

lemma allInsts_emit (code : List Inst) (vi : VRegsInfo) (hbb : AtBlock t) :
    AtBlock (t.emit code vi) ∧
      (AllInsts Q (t.emit code vi) ↔ AllInsts Q t ∧ ∀ ins ∈ code, Q ins) := by
  refine ⟨?_, forall_modify (fun blk => by simp [or_imp, forall_and]) hbb⟩
  simpa [AtBlock, Translator.emit] using hbb

lemma allInsts_create (ins : Inst) (hbb : AtBlock t) (hins : Q (applyFolder ins)) :
    AtBlock (t.create ins) ∧ (AllInsts Q (t.create ins) ↔ AllInsts Q t) := by
  obtain ⟨hbb', hall⟩ := allInsts_emit (Q := Q) [applyFolder ins] t.region.vregsInfo hbb
  exact ⟨hbb', hall.trans (and_iff_left (by simpa using hins))⟩

lemma allInsts_addSucc {b : ℕ} (hbb : AtBlock t) :
    AtBlock (t.addSucc b) ∧ (AllInsts Q (t.addSucc b) ↔ AllInsts Q t) := by
  refine ⟨?_, (forall_modify (f := fun blk => { blk with succs := blk.succs ++ [b] })
    (P := True) (fun blk => (and_iff_left trivial).symm) hbb).trans (and_iff_left trivial)⟩
  simpa [AtBlock, Translator.addSucc, Region.addSucc, Region.modifyBlock] using hbb

lemma allInsts_makeGBr (hQ : Detects Q) (ip : BitVec 32) (hbb : AtBlock t) :
    AtBlock (t.makeGBr ip) ∧ (AllInsts Q (t.makeGBr ip) ↔ AllInsts Q t) := by
  rw [Translator.makeGBr]
  split
  · obtain ⟨h₁, hall₁⟩ := allInsts_create .mkBr hbb hQ.br
    obtain ⟨h₂, hall₂⟩ := allInsts_addSucc (Q := Q) h₁
    exact ⟨h₂, hall₂.trans hall₁⟩
  · exact allInsts_create (.mkGBr ip) hbb (hQ.gbr ip)

lemma allInsts_makeTarget (hQ : Detects Q) (ip : BitVec 32) :
    t.region.blist.length ≤ (t.makeTarget ip).2.region.blist.length ∧
      (AllInsts Q (t.makeTarget ip).2 ↔ AllInsts Q t) := by
  rw [Translator.makeTarget]
  split
  · exact ⟨Nat.le_refl _, Iff.rfl⟩
  · set u : Translator := { t with
      region := { t.region with blist := t.region.blist ++ [{}] }, bb := t.region.blist.length }
    have hu : AtBlock u := by simp [AtBlock, u]
    obtain ⟨-, hall⟩ := allInsts_create (.mkGBr ip) hu (hQ.gbr ip)
    refine ⟨?_, hall.trans ?_⟩
    · have : t.region.blist.length ≤ (u.create (.mkGBr ip)).region.blist.length := by
        simp [Translator.create, Region.create, Region.modifyBlock, u]
      exact this
    · simp [AllInsts, u, or_imp, forall_and]

lemma allInsts_translateBrcc (hQ : Detects Q) (raw : BitVec 32) (cc : CondCode) (hbb : AtBlock t) :
    AtBlock (t.translateBrcc raw cc) ∧ (AllInsts Q (t.translateBrcc raw cc) ↔ AllInsts Q t) := by
  obtain ⟨hlen, hall⟩ := allInsts_makeTarget (t := t) hQ (t.insn_ip + 4)
  set t₁ := (t.makeTarget (t.insn_ip + 4)).2
  obtain ⟨hlen', hall'⟩ := allInsts_makeTarget (t := t₁) hQ (t₁.insn_ip + immB raw)
  set t₂ := (t₁.makeTarget (t₁.insn_ip + immB raw)).2
  have h₂ : AtBlock { t₂ with bb := t.bb } := Nat.lt_of_lt_of_le hbb (hlen.trans hlen')
  obtain ⟨h₃, hall₃⟩ := allInsts_create (.mkBrcc cc (gprop (rs1 raw)) (gprop (rs2 raw))) h₂
    (hQ.brcc cc _ _)
  obtain ⟨h₄, hall₄⟩ := allInsts_addSucc (Q := Q) h₃
  obtain ⟨h₅, hall₅⟩ := allInsts_addSucc (Q := Q) h₄
  exact ⟨h₅, hall₅.trans (hall₄.trans (hall₃.trans (hall'.trans hall)))⟩

lemma allInsts_exitFamily (hQ : Detects Q) (f : Family) (raw : BitVec 32) (tmp : ℕ)
    (hbb : AtBlock t) : AtBlock (Translator.exitFamily f raw tmp t) ∧
      (AllInsts Q (Translator.exitFamily f raw tmp t) ↔ AllInsts Q t) := by
  cases f with
  | jal => exact allInsts_makeGBr hQ _ hbb
  | jalr => exact allInsts_create (.mkGBrind (.vgpr .I32 tmp)) hbb (hQ.gbrind tmp)
  | brcc cc => exact allInsts_translateBrcc hQ raw cc hbb
  | _ => exact ⟨hbb, Iff.rfl⟩

/-- One instruction. -/
lemma allInsts_translateInsn (hQ : Detects Q) (hbb : AtBlock t)
    (ht : t.translateInsn prog = some t') : AtBlock t' ∧ (AllInsts Q t' ↔ AllInsts Q t ∧
      loadsToConst (family (decode (prog t.insn_ip))) (prog t.insn_ip) = false) := by
  rw [Translator.translateInsn, Translator.handler_eq (family_of_translateInsn ht),
    Option.some.injEq] at ht
  subst ht
  obtain ⟨h₁, hall₁⟩ := allInsts_emit (Q := Q)
    (insnCode (family (decode (prog t.insn_ip))) (prog t.insn_ip) t.insn_ip t.nextTemp)
    (insnVRegs (family (decode (prog t.insn_ip))) (prog t.insn_ip) t.region.vregsInfo) hbb
  obtain ⟨h₂, hall₂⟩ := allInsts_exitFamily hQ (family (decode (prog t.insn_ip)))
    (prog t.insn_ip) t.nextTemp h₁
  exact ⟨h₂, hall₂.trans (hall₁.trans (and_congr_right' (hQ.code _ _ _ _)))⟩

/-- The words of a range. -/
lemma allInsts_loop (hQ : Detects Q) {n : ℕ} {boundary : BitVec 32} (hbb : AtBlock t)
    (hctl : t.control = .NEXT) (ht : Translator.loop prog boundary n t = some t') :
    AllInsts Q t' ↔ AllInsts Q t ∧ ∀ a ∈ rangeInsns prog boundary n t.insn_ip,
      loadsToConst (family (decode (prog a))) (prog a) = false := by
  induction n generalizing t with
  | zero =>
    cases ht
    simp [rangeInsns]
  | succ n ih =>
    rw [Translator.loop] at ht
    obtain ⟨t₁, ht₁, ht⟩ := Option.bind_eq_some_iff.mp ht
    obtain ⟨-, hip, hc⟩ := numAll_translateInsn ht₁
    obtain ⟨hbb₁, hall⟩ := allInsts_translateInsn hQ hbb ht₁
    rw [rangeInsns, List.forall_mem_cons, ← and_assoc, ← hall]
    cases hend : (family (decode (prog t.insn_ip))).ends with
    | true =>
      rw [hend, if_pos rfl] at hc
      rw [hc, if_pos (by decide), Option.some.injEq] at ht
      simp [ht]
    | false =>
      rw [hend, if_neg Bool.false_ne_true, hctl] at hc
      rw [hc, if_neg (by decide), hip] at ht
      split at ht
      · rename_i hcut
        rw [Option.some.injEq] at ht
        obtain ⟨-, hcutall⟩ := allInsts_makeGBr (t :=
          { t₁ with control := .TB_OVF, insn_ip := t.insn_ip + 4 }) hQ (t.insn_ip + 4) hbb₁
        rw [if_pos (Or.inr hcut), ← ht, hcutall]
        simp [AllInsts]
      · rename_i hcut
        rw [if_neg (by simpa using hcut), ← hip]
        exact ih hbb₁ hc ht

/-- The instructions of a translated job have the property exactly if no word is such a load. -/
lemma allInsts_translate (hQ : Detects Q) {ranges : List (BitVec 32 × BitVec 32)}
    (hnodup : (ranges.map Prod.fst).Nodup) (ht : Translator.translate prog ranges = some t) :
    AllInsts Q t ↔ hasConstLoad prog ranges = false := by
  have hranges : ∀ (rs : List (BitVec 32 × BitVec 32)) (u : Translator),
      (rs.map Prod.fst).Nodup → Progress prog ranges rs u →
      rs.foldlM (fun t range => Translator.translateIPRange prog range.1 range.2 t) u = some t →
      (AllInsts Q t ↔ AllInsts Q u ∧ hasConstLoad prog rs = false) := by
    intro rs
    induction rs with
    | nil =>
      intro u hn hp hu
      cases hu
      simp [hasConstLoad]
    | cons range rs ih =>
      intro u hn hp hu
      obtain ⟨u₁, h₁, h₂⟩ := FoldM.foldlM_cons_eq_some.mp hu
      rw [List.map_cons, List.nodup_cons] at hn
      rw [ih u₁ hn.2 (hp.translateIPRange hn.1 h₁).1 h₂]
      rw [Translator.translateIPRange] at h₁
      split at h₁
      · cases h₁
      split at h₁
      · rename_i b hb
        have hloop := allInsts_loop (Q := Q) hQ
          (t := { u with insn_ip := range.1, bb := b, control := .NEXT }) (hp.bound _ _ hb) rfl h₁
        rw [hloop, hasConstLoad, hasConstLoad, List.any_cons, Bool.or_eq_false_iff, and_assoc]
        refine and_congr Iff.rfl (and_congr ?_ Iff.rfl)
        simp
      · cases h₁
  rw [hranges ranges _ hnodup (progress_start prog hnodup rfl).1 ht]
  refine and_iff_right fun blk hblk ins hins => ?_
  -- the blocks are empty at first
  have hins' := inserted_foldl ranges inserted_init (by simpa using hnodup)
  obtain ⟨b, hb, rfl⟩ := List.getElem_of_mem hblk
  have hempty := hins'.empty b hb
  rw [List.getElem?_eq_getElem hb, Option.some.injEq] at hempty
  rw [hempty] at hins
  cases hins

lemma detects_plain : Detects Plain := by
  have hexit : ∀ {ins : Inst}, ins.op ≠ .mov → Access ins.op → ins.o = [] →
      (∀ (k : ℕ) (x : VOperand), ins.i[k]? = some x → Value (inType ins.op k) x) → Plain ins :=
    fun hne hacc ho hi => .op hne hacc hi fun x hx => by
      rw [ho] at hx
      cases hx
  have hnil : ∀ {ins : Inst}, ins.i = [] → ∀ (k : ℕ) (x : VOperand), ins.i[k]? = some x →
      Value (inType ins.op k) x := by
    intro ins hi k x hx
    rw [hi] at hx
    cases hx
  refine ⟨hexit Qir.Op.noConfusion trivial rfl (hnil rfl),
    fun a => hexit Qir.Op.noConfusion trivial rfl (hnil rfl),
    fun tmp => hexit Qir.Op.noConfusion trivial rfl fun k x hx => ?_,
    fun cc i j => hexit Qir.Op.noConfusion trivial rfl fun k x hx => ?_,
    fun op raw ip tmp => ⟨fun h => ?_, plain_insnCode⟩⟩
  · match k with
    | 0 =>
      cases hx
      exact rfl
    | k + 1 => cases hx
  · match k with
    | 0 | 1 =>
      cases hx
      exact value_gprop _ _
    | k + 2 => cases hx
  · by_contra hc
    obtain ⟨ins, hins, hload⟩ := constLoad_insnCode ip tmp
      (Bool.eq_true_of_not_eq_false hc)
    exact (h ins hins).not_constLoad hload

end Rv32jit.Translate
