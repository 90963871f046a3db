/-
# Translated regions are well-formed

Every instruction of a job writes its temporary before it reads it, and only the last one of a
range leaves the block, with the edges that go with its terminator.  Nothing of this depends on
the number of registers: where it exceeds the 16 bits of a register number, the temporaries are
numbered anew, but each is still written by the instruction that reads it.
-/
import Rv32jit.Codegen.WellFormed
import Rv32jit.Guest.Region

namespace Rv32jit.Translate

open Qir Insn CPUState Qcg

variable {prog : BitVec 32 → BitVec 32} {t t' : Translator} {vi : VRegsInfo} {ins : Inst}
  {raw ip a : BitVec 32} {c tmp : ℕ} {code pre : List Inst} {succs : List ℕ} {W : ℕ → Prop}

/-! ### Temporaries are written before they are read -/

/-- The operand is no local register. -/
def NoLocal (vi : VRegsInfo) (o : VOperand) : Prop := ∀ ty v, o = .vgpr ty v → vi.isGlobal v = true

lemma noLocal_gprop (hvi : vi.globInfo = stateInfo) {i : ℕ} (hi : i < 32) (type : VType) :
    NoLocal vi (gprop i type) := by
  intro ty v h
  rw [gprop] at h
  split at h
  · cases h
  · cases h
    simp only [VRegsInfo.isGlobal, hvi, length_stateInfo, decide_eq_true_eq]
    omega

lemma noLocal_src (hvi : vi.globInfo = stateInfo) (src : Src) (raw : BitVec 32) :
    NoLocal vi (src.opr raw) := by
  cases src with
  | imm | shamt => exact fun ty v h => by cases h
  | reg => exact noLocal_gprop hvi (rs2_lt raw) _

lemma noLocal_const (type : VType) (c : BitVec 32) : NoLocal vi (.const type c) :=
  fun _ _ h => by cases h

/-- An instruction without local registers among its inputs. -/
lemma localsWritten_single (h : ∀ o ∈ ins.i, NoLocal vi o) : LocalsWritten vi W [ins] := by
  refine localsWritten_singleton.mpr fun ty v ho hg => ?_
  rw [h _ ho ty v rfl] at hg
  cases hg

lemma foldAdd_operands (d x y : VOperand) :
    (foldAdd d x y).o = [d] ∧ ∀ o ∈ (foldAdd d x y).i, o = x ∨ o = y ∨ ∃ c, o = .const .I32 c := by
  unfold foldAdd
  split <;> (try split) <;> simp_all [Inst.mkMov, Inst.mkAdd]

lemma localsWritten_foldAdd {d x y : VOperand} (hx : NoLocal vi x) (hy : NoLocal vi y) :
    LocalsWritten vi W [foldAdd d x y] := by
  refine localsWritten_single fun o ho => ?_
  rcases (foldAdd_operands d x y).2 o ho with rfl | rfl | ⟨c, rfl⟩
  · exact hx
  · exact hy
  · exact noLocal_const _ _

/-- The register that an instruction has just written. -/
lemma writtenAfter_foldAdd {ty : VType} {d : ℕ} {x y : VOperand} :
    WrittenAfter W [foldAdd (.vgpr ty d) x y] d := by
  refine Or.inr ⟨_, List.mem_singleton_self _, ty, ?_⟩
  rw [(foldAdd_operands _ _ _).1]
  exact List.mem_singleton_self _

/-- The address of an access, and the access. -/
lemma localsWritten_address (hvi : vi.globInfo = stateInfo) (raw imm : BitVec 32)
    (hin : ∀ o ∈ ins.i, o = addressOpr raw imm tmp ∨ NoLocal vi o) :
    LocalsWritten vi W (addressCode raw imm tmp ++ [ins]) := by
  have hbase := noLocal_gprop hvi (rs1_lt raw) .I32
  rw [addressCode]
  split
  · rename_i h0
    rw [addressOpr, if_pos h0] at hin
    refine localsWritten_append.mpr ⟨localsWritten_foldAdd hbase (noLocal_const _ _),
      localsWritten_singleton.mpr fun ty v ho hg => ?_⟩
    rcases hin _ ho with heq | hno
    · cases heq
      exact writtenAfter_foldAdd
    · rw [hno ty v rfl] at hg
      cases hg
  · rename_i h0
    rw [addressOpr, if_neg h0] at hin
    refine localsWritten_single fun o ho => ?_
    rcases hin o ho with rfl | hno
    · exact hbase
    · exact hno

lemma localsWritten_link (raw ip : BitVec 32) : LocalsWritten vi W (linkCode raw ip) := by
  rw [linkCode, toRd]
  split
  · refine localsWritten_single fun o ho => ?_
    rw [List.mem_singleton.mp ho]
    exact noLocal_const _ _
  · trivial

/-- The code of an instruction writes its temporary first. -/
lemma localsWritten_insnCode (hvi : vi.globInfo = stateInfo) (f : Family) (raw ip : BitVec 32)
    (tmp : ℕ) : LocalsWritten vi W (insnCode f raw ip tmp) := by
  have hbase := noLocal_gprop hvi (rs1_lt raw) .I32
  have hto : ∀ {W} (mk : VOperand → Inst), (∀ d, ∀ o ∈ (mk d).i, NoLocal vi o) →
      LocalsWritten vi W (toRd raw mk) := by
    intro W mk hmk
    rw [toRd]
    split
    · exact localsWritten_single (hmk _)
    · trivial
  have hmov : ∀ {W} c, LocalsWritten vi W (toRd raw fun d => .mkMov d (vconst c)) := by
    refine fun c => hto _ fun d o ho => ?_
    rw [List.mem_singleton.mp ho]
    exact noLocal_const _ _
  refine localsWritten_append.mpr ⟨?_, ?_⟩
  · rw [saveCode]
    split
    · exact localsWritten_single fun o ho => by
        rw [List.mem_singleton.mp ho]
        exact noLocal_const _ _
    · trivial
  · cases f with
    | illegal | brcc => trivial
    | lui | auipc => exact hmov _
    | jal => exact localsWritten_link _ _
    | arith q src =>
      refine hto (fun d => applyFolder (q.inst d (gprop (rs1 raw)) (src.opr raw))) fun d o ho => ?_
      by_cases hop : q.op = .add
      · obtain ⟨op, hout, hin⟩ := q
        obtain rfl : op = .add := hop
        rcases (foldAdd_operands d _ _).2 o ho with rfl | rfl | ⟨c, rfl⟩
        · exact hbase
        · exact noLocal_src hvi src raw
        · exact noLocal_const _ _
      · rw [applyFolder_of_ne hop] at ho
        rcases List.mem_pair.mp ho with rfl | rfl
        · exact hbase
        · exact noLocal_src hvi src raw
    | jalr =>
      refine localsWritten_append.mpr ⟨localsWritten_append (l := [_]) |>.mpr
        ⟨localsWritten_foldAdd hbase (noLocal_const _ _),
          localsWritten_singleton.mpr fun ty v ho _ => ?_⟩, localsWritten_link _ _⟩
      rcases List.mem_pair.mp ho with heq | heq
      · cases heq
        exact writtenAfter_foldAdd
      · cases heq
    | load sz sgn =>
      exact localsWritten_address hvi raw _ fun o ho => Or.inl (List.mem_singleton.mp ho)
    | store sz =>
      refine localsWritten_address hvi raw _ fun o ho => ?_
      rcases List.mem_pair.mp ho with heq | rfl
      · exact Or.inl heq
      · exact Or.inr (noLocal_gprop hvi (rs2_lt raw) _)
    | fence | call =>
      refine localsWritten_single fun o ho => ?_
      rw [List.mem_singleton.mp ho]
      exact noLocal_const _ _

/-! ### Straight code -/

/-- The call of a helper that raises a trap is made for the instruction that asks for it. -/
structure TrapCall (ins : Inst) : Prop where
  ecall : ins.op = .hcall .rv32_ecall → ∃ raw, ins.i = [vconst raw] ∧ decode raw = .ecall
  ebreak : ins.op = .hcall .rv32_ebreak → ∃ raw, ins.i = [vconst raw] ∧ decode raw = .ebreak

lemma TrapCall.of_hasCalls (h : ins.op.hasCalls = false) : TrapCall ins := by
  refine ⟨fun hop => ?_, fun hop => ?_⟩ <;>
    · rw [hop] at h
      cases h

lemma hasCalls_of_nOut {op : Qir.Op} (h : op.nOut = 1) : op.hasCalls = false := by
  cases op <;> first | rfl | cases h

lemma hasCalls_of_isTerminator {op : Qir.Op} (h : op.isTerminator = true) :
    op.hasCalls = false := by
  cases op <;> first | rfl | cases h

lemma leaves_of_isTerminator {op : Qir.Op} (h : op.isTerminator = true) :
    op.leaves = true := by
  cases op <;> first | rfl | cases h

/-- An instruction of translated code: it asks for no output that the selection of operands
would reject. -/
structure Emitted (ins : Inst) : Prop where
  tied : QSel.TiedOut ins
  trap : TrapCall ins

/-- An instruction that stays in its block. -/
structure Straight (ins : Inst) : Prop extends Emitted ins where
  stays : ins.op.leaves = false

lemma Straight.of_out {ty : VType} {d : ℕ} (h : ins.o = [.vgpr ty d]) : Straight ins := by
  have hn : ins.op.nOut = 1 := by rw [← ins.ho, h]; rfl
  refine ⟨⟨fun c _ _ o ho => ?_, .of_hasCalls (hasCalls_of_nOut hn)⟩, Op.leaves_of_nOut hn⟩
  rw [h] at ho
  exact ⟨ty, d, List.mem_singleton.mp ho⟩

lemma straight_foldAdd {ty : VType} {d : ℕ} {x y : VOperand} :
    Straight (foldAdd (.vgpr ty d) x y) := .of_out (foldAdd_operands _ _ _).1

lemma straight_toRd (raw : BitVec 32) (mk : VOperand → Inst) (hmk : ∀ d, (mk d).o = [d]) :
    ∀ ins ∈ toRd raw mk, Straight ins := by
  intro ins hins
  rw [toRd] at hins
  split at hins
  · rw [List.mem_singleton.mp hins]
    exact .of_out (hmk _)
  · cases hins

lemma straight_address (raw imm : BitVec 32) :
    ∀ ins ∈ addressCode raw imm tmp, Straight ins := by
  intro ins hins
  rw [addressCode] at hins
  split at hins
  · rw [List.mem_singleton.mp hins]
    exact straight_foldAdd
  · cases hins

/-- Loads and stores are not tied, whatever their operands are. -/
lemma straight_access {sz : VType} {sgn : VSign} {x y : VOperand} :
    Straight (.mkVMLoad sz sgn x y) ∧ Straight (.mkVMStore sz sgn x y) := by
  refine ⟨⟨⟨fun c hc ha => ?_, .of_hasCalls rfl⟩, rfl⟩,
    ⟨⟨fun c hc ha o ho => ?_, .of_hasCalls rfl⟩, rfl⟩⟩
  · cases hc
    exact absurd ha (by decide)
  · cases ho

/-- The call of a helper. -/
lemma emitted_call {op : Insn.Op} {stub : RuntimeStubId} (hop : decode raw = op)
    (hf : family op = .fence stub ∨ ∃ trap, family op = .call stub trap) :
    Emitted (.mkHcall stub (vconst raw)) := by
  refine ⟨fun c hc => (by cases hc), ⟨fun h => ?_, fun h => ?_⟩⟩ <;> cases h
  · refine ⟨raw, rfl, ?_⟩
    cases op <;> first | exact hop | (rcases hf with hf | ⟨_, hf⟩ <;> cases hf)
  · refine ⟨raw, rfl, ?_⟩
    cases op <;> first | exact hop | (rcases hf with hf | ⟨_, hf⟩ <;> cases hf)

lemma leaves_fence {op : Insn.Op} {stub : RuntimeStubId} (hf : family op = .fence stub) :
    (Qir.Op.hcall stub).leaves = false := by
  cases op <;> first | cases hf; rfl | cases hf

lemma leaves_call {op : Insn.Op} {stub : RuntimeStubId} {trap : TrapCode}
    (hf : family op = .call stub trap) : (Qir.Op.hcall stub).leaves = true := by
  cases op <;> first | cases hf; rfl | cases hf

/-- The instruction pointer is saved by a move, which is not tied. -/
lemma straight_save (f : Family) (ip : BitVec 32) : ∀ ins ∈ saveCode f ip, Straight ins := by
  intro ins hins
  rw [saveCode] at hins
  split at hins
  · rw [List.mem_singleton.mp hins]
    refine ⟨⟨fun c hc ha => ?_, .of_hasCalls rfl⟩, rfl⟩
    cases hc
    exact absurd ha (by decide)
  · cases hins

/-- The code of an instruction that is no call of a trapping helper stays in its block. -/
lemma straight_insnCode (raw ip : BitVec 32) (tmp : ℕ)
    (hcall : ∀ stub trap, family (decode raw) ≠ .call stub trap) :
    ∀ ins ∈ insnCode (family (decode raw)) raw ip tmp, Straight ins := by
  intro ins hins
  rcases List.mem_append.mp hins with hins | hins
  · exact straight_save _ _ ins hins
  obtain ⟨f, hf⟩ : ∃ f, family (decode raw) = f := ⟨_, rfl⟩
  rw [hf] at hins hcall
  have hlink : ∀ ins ∈ linkCode raw ip, Straight ins := straight_toRd raw _ fun _ => rfl
  cases f with
  | illegal | brcc => cases hins
  | lui => exact straight_toRd raw (fun d => .mkMov d (vconst (immU raw))) (fun _ => rfl) ins hins
  | auipc =>
    exact straight_toRd raw (fun d => .mkMov d (vconst (immU raw + ip))) (fun _ => rfl) ins hins
  | jal => exact hlink ins hins
  | arith q src =>
    refine straight_toRd raw (fun d => applyFolder (q.inst d (gprop (rs1 raw)) (src.opr raw)))
      (fun d => ?_) ins hins
    by_cases hop : q.op = .add
    · obtain ⟨op, hout, hin⟩ := q
      obtain rfl : op = .add := hop
      exact (foldAdd_operands d _ _).1
    · rw [applyFolder_of_ne hop]
      rfl
  | jalr =>
    rcases List.mem_append.mp hins with hins | hins
    · rcases List.mem_pair.mp hins with rfl | rfl
      · exact straight_foldAdd
      · exact .of_out rfl
    · exact hlink ins hins
  | load sz sgn =>
    rcases List.mem_append.mp hins with hins | hins
    · exact straight_address _ _ ins hins
    · rw [List.mem_singleton.mp hins]
      exact straight_access.1
  | store sz =>
    rcases List.mem_append.mp hins with hins | hins
    · exact straight_address _ _ ins hins
    · rw [List.mem_singleton.mp hins]
      exact straight_access.2
  | fence stub =>
    rw [List.mem_singleton.mp hins]
    exact ⟨emitted_call rfl (Or.inl hf), leaves_fence hf⟩
  | call stub trap => exact absurd rfl (hcall stub trap)

/-! ### Finished blocks -/

/-- Block `blk` of the translator's region is finished. -/
structure Formed (t : Translator) (blk : Block) : Prop where
  terminated : ∃ body last, Terminated blk body last
  succs : ∀ b ∈ blk.succs, b < t.region.blist.length
  written : LocalsWritten t.region.vregsInfo (fun _ => False) blk.ilist
  emitted : ∀ ins ∈ blk.ilist, Emitted ins

lemma Formed.mono {blk : Block} (hk : Keeps c t t') (h : Formed t blk) : Formed t' blk :=
  ⟨h.terminated, fun b hb => Nat.lt_of_lt_of_le (h.succs b hb) hk.length,
    h.written.congr hk.vregs.1, h.emitted⟩

lemma emitted_of_isTerminator (h : ins.op.isTerminator = true) : Emitted ins := by
  refine ⟨fun c _ _ o ho => ?_, .of_hasCalls (hasCalls_of_isTerminator h)⟩
  rw [List.eq_nil_of_length_eq_zero (ins.ho.trans (Op.nOut_terminator h))] at ho
  cases ho

/-- A block of straight code and a terminator. -/
lemma Formed.of_straight {last : Inst} (hpre : ∀ ins ∈ pre, Straight ins)
    (hlast : last.op.isTerminator = true) (hlen : succs.length = last.op.nSuccs)
    (hsuccs : ∀ b ∈ succs, b < t.region.blist.length)
    (hw : LocalsWritten t.region.vregsInfo (fun _ => False) (pre ++ [last])) :
    Formed t { ilist := pre ++ [last], succs := succs } := by
  refine ⟨⟨pre, last, rfl, fun ins hins => (hpre ins hins).stays, leaves_of_isTerminator hlast,
    hlen⟩, hsuccs, hw, fun ins hins => ?_⟩
  rcases List.mem_append.mp hins with hins | hins
  · exact (hpre ins hins).toEmitted
  · rw [List.mem_singleton.mp hins]
    exact emitted_of_isTerminator hlast

/-- The block leaves the region. -/
lemma formed_gbr (t : Translator) (a : BitVec 32) : Formed t { ilist := [.mkGBr a] } :=
  have hw : LocalsWritten t.region.vregsInfo (fun _ => False) ([] ++ [.mkGBr a]) :=
    localsWritten_single fun o ho => by cases ho
  .of_straight (by simp) rfl rfl (by simp) hw

/-- What the current block holds so far. -/
structure Begun (t : Translator) (pre : List Inst) : Prop where
  straight : ∀ ins ∈ pre, Straight ins
  written : LocalsWritten t.region.vregsInfo (fun _ => False) pre

/-- A jump at the end of a block. -/
lemma Begun.jump (h : Begun t pre) (hbound : ∀ a b, t.find a = some b →
    b < t.region.blist.length) (hj : Jump t a code succs) :
    Formed t { ilist := pre ++ code, succs := succs } := by
  cases hj with
  | br hb =>
    refine .of_straight h.straight rfl rfl (fun b' hb' => ?_) (localsWritten_append.mpr
      ⟨h.written, localsWritten_single fun o ho => by cases ho⟩)
    rw [List.mem_singleton.mp hb']
    exact hbound _ _ hb
  | gbr =>
    exact .of_straight h.straight rfl rfl (by simp) (localsWritten_append.mpr
      ⟨h.written, localsWritten_single fun o ho => by cases ho⟩)

lemma EntryAt.lt {b : ℕ} (h : EntryAt t b a) (hbound : ∀ a b, t.find a = some b →
    b < t.region.blist.length) : b < t.region.blist.length := by
  rcases h with h | ⟨-, h⟩
  · exact hbound a b h
  · exact (List.getElem?_eq_some_iff.mp h).1

/-- Straight code behind what the block holds. -/
lemma Begun.append {u : Translator} (h : Begun t pre) (hk : Keeps c t u)
    (hvi : u.region.vregsInfo.globInfo = stateInfo) {f : Family} {ip : BitVec 32}
    (hs : ∀ ins ∈ insnCode f raw ip tmp, Straight ins) :
    Begun u (pre ++ insnCode f raw ip tmp) := by
  refine ⟨fun ins hins => ?_, localsWritten_append.mpr ⟨h.written.congr hk.vregs.1,
    localsWritten_insnCode hvi _ _ _ _⟩⟩
  rcases List.mem_append.mp hins with hins | hins
  · exact h.straight ins hins
  · exact hs ins hins

/-- A block that its last instruction finishes. -/
lemma Begun.exit (h : Begun t pre) (hk : Keeps c t t')
    (hvi : t'.region.vregsInfo.globInfo = stateInfo)
    (hbound : ∀ a b, t'.find a = some b → b < t'.region.blist.length)
    (he : Exit prog t' t.insn_ip t.nextTemp code succs) :
    Formed t' { ilist := pre ++ nextCode prog t ++ code, succs := succs } := by
  obtain ⟨raw, hraw⟩ : ∃ raw, prog t.insn_ip = raw := ⟨_, rfl⟩
  rw [nextCode, hraw]
  have happ := fun hcall =>
    h.append hk hvi (straight_insnCode raw t.insn_ip t.nextTemp hcall)
  cases he with
  | @call stub trap hf =>
    rw [hraw] at hf
    have hem := emitted_call rfl (Or.inr ⟨_, hf⟩)
    have hw := localsWritten_insnCode (W := WrittenAfter (fun _ => False) pre) hvi
      (family (decode raw)) raw t.insn_ip t.nextTemp
    rw [List.append_nil]
    rw [hf] at hw ⊢
    refine ⟨⟨pre ++ saveCode (.call stub trap) t.insn_ip, .mkHcall stub (vconst raw), ?_,
      fun ins hins => ?_, leaves_call hf, rfl⟩, by simp,
      localsWritten_append.mpr ⟨h.written.congr hk.vregs.1, hw⟩, fun ins hins => ?_⟩
    · rw [insnCode, List.append_assoc]
      rfl
    · rcases List.mem_append.mp hins with hins | hins
      · exact (h.straight ins hins).stays
      · exact (straight_save _ _ ins hins).stays
    · rcases List.mem_append.mp hins with hins | hins
      · exact (h.straight ins hins).toEmitted
      · rcases List.mem_append.mp hins with hins | hins
        · exact (straight_save _ _ ins hins).toEmitted
        · rw [List.mem_singleton.mp hins]
          exact hem
  | jal hf hj =>
    rw [hraw] at hf
    exact (happ fun stub trap he => by rw [hf] at he; cases he).jump hbound hj
  | jalr hf =>
    rw [hraw] at hf
    have hb := happ fun stub trap he => by rw [hf] at he; cases he
    refine .of_straight hb.straight rfl rfl (by simp) (localsWritten_append.mpr ⟨hb.written,
      localsWritten_singleton.mpr fun ty v ho _ => ?_⟩)
    -- the target has been masked in the temporary
    cases List.mem_singleton.mp ho
    refine Or.inr ⟨.mkAnd (.vgpr .I32 t.nextTemp) (.vgpr .I32 t.nextTemp) (vconst (~~~1#32)), ?_,
      .I32, List.mem_singleton_self _⟩
    rw [hf]
    simp [insnCode, bodyCode, targetCode]
  | brcc hf htrue hfalse =>
    rw [hraw] at hf ⊢
    have hb := happ fun stub trap he => by rw [hf] at he; cases he
    refine .of_straight hb.straight rfl rfl (fun b hb => ?_) (localsWritten_append.mpr ⟨hb.written,
      localsWritten_single fun o ho => ?_⟩)
    · rcases List.mem_pair.mp hb with rfl | rfl
      · exact htrue.lt hbound
      · exact hfalse.lt hbound
    · rcases List.mem_pair.mp ho with rfl | rfl
      · exact noLocal_gprop hvi (rs1_lt _) _
      · exact noLocal_gprop hvi (rs2_lt _) _

lemma Keeps.bound (hk : Keeps c t t') (h : ∀ a b, t.find a = some b →
    b < t.region.blist.length) : ∀ a b, t'.find a = some b → b < t'.region.blist.length := by
  intro a b hb
  rw [hk.find] at hb
  exact Nat.lt_of_lt_of_le (h a b hb) hk.length

/-- The instructions of a range finish its block. -/
lemma Begun.loop {n : ℕ} {boundary : BitVec 32} (hn : n ≠ 0) (h : Begun t pre) (ho : Open t c pre)
    (hctl : t.control = .NEXT) (hvi : t.region.vregsInfo.globInfo = stateInfo)
    (ht : Translator.loop prog boundary n t = some t') :
    ∃ blk, t'.region.blist[c]? = some blk ∧ Formed t' blk := by
  induction n generalizing t pre with
  | zero => exact absurd rfl hn
  | succ n ih =>
    rw [Translator.loop] at ht
    obtain ⟨t1, ht1, ht⟩ := Option.bind_eq_some_iff.mp ht
    cases hend : (family (decode (prog t.insn_ip))).ends with
    | true =>
      obtain ⟨hb, hk, -, code, succs, hblk, hexit⟩ := ho.exit hend ht1
      rw [hb, if_pos (by decide), Option.some.injEq] at ht
      subst ht
      exact ⟨_, hblk, h.exit hk (hk.vregs.1.trans hvi) (hk.bound ho.bound) hexit⟩
    | false =>
      obtain ⟨ho1, hk, hc, -, -⟩ := ho.next hend ht1
      have hvi1 := hk.vregs.1.trans hvi
      have h1 : Begun t1 (pre ++ nextCode prog t) := h.append hk hvi1 <|
        straight_insnCode _ _ _ fun stub trap he => by
          rw [he] at hend
          cases hend
      rw [hc, hctl, if_neg (by decide)] at ht
      split at ht
      · -- the range is cut
        rw [Option.some.injEq] at ht
        obtain ⟨code, succs, hblk, hjump, hk'⟩ :=
          Open.makeGBr (t := { t1 with control := .TB_OVF }) ⟨⟨ho1.blk, ho1.range, ho1.bound⟩,
            ho1.bb⟩ t1.insn_ip
        rw [ht] at hblk hjump hk'
        have hk2 : Keeps c t1 t' :=
          ⟨hk'.ip2bb, hk'.vregs, hk'.locals, hk'.length, hk'.old, hk'.fresh⟩
        have h2 : Begun t' (pre ++ nextCode prog t) :=
          ⟨h1.straight, h1.written.congr hk2.vregs.1⟩
        exact ⟨_, hblk, h2.jump (hk2.bound ho1.bound) hjump⟩
      · rename_i hcut
        exact ih (fun h0 => hcut (Or.inl h0)) h1 ho1 (hc.trans hctl) hvi1 ht

/-! ### Jobs -/

/-- The translator before the ranges `rs` are translated: the other blocks are finished. -/
def FormedBut (rs : List (BitVec 32 × BitVec 32)) (t : Translator) : Prop :=
  ∀ b blk, t.region.blist[b]? = some blk →
    (∃ a ∈ rs.map Prod.fst, t.find a = some b) ∨ Formed t blk

lemma FormedBut.translateIPRange {ranges rs : List (BitVec 32 × BitVec 32)}
    {ip boundary : BitVec 32} (h : FormedBut ((ip, boundary) :: rs) t)
    (hp : Progress prog ranges ((ip, boundary) :: rs) t)
    (ht : Translator.translateIPRange prog ip boundary t = some t') : FormedBut rs t' := by
  obtain ⟨-, c, hc, hempty⟩ := hp.pending (ip, boundary) (by simp)
  rw [Translator.translateIPRange] at ht
  split at ht
  · cases ht
  rw [hc] at ht
  simp only at ht
  have ho : Open { t with insn_ip := ip, bb := c, control := .NEXT } c [] :=
    ⟨⟨hempty, ⟨ip, hc⟩, hp.bound⟩, rfl⟩
  have hb : Begun { t with insn_ip := ip, bb := c, control := .NEXT } [] := ⟨by simp, trivial⟩
  obtain ⟨blk', hblk', hformed⟩ := hb.loop (by decide) ho rfl hp.globInfo ht
  obtain ⟨hk', -⟩ := ho.loop rfl hp.globInfo ht
  have hk : Keeps c t t' := ⟨hk'.ip2bb, hk'.vregs, hk'.locals, hk'.length, hk'.old, hk'.fresh⟩
  intro b blk hblk
  obtain ⟨hlt, -⟩ := List.getElem?_eq_some_iff.mp hblk
  by_cases hbc : b = c
  · rw [hbc, hblk', Option.some.injEq] at hblk
    exact Or.inr (hblk ▸ hformed)
  by_cases hold : b < t.region.blist.length
  · rw [hk.old b hbc hold] at hblk
    refine (h b blk hblk).imp ?_ (·.mono hk)
    rintro ⟨a, ha, hf⟩
    refine ⟨a, (List.mem_cons.mp ha).resolve_left fun hne => hbc ?_, by rw [hk.find, hf]⟩
    rw [hne, hc, Option.some.injEq] at hf
    exact hf.symm
  · obtain ⟨a, ha⟩ := hk.fresh b (by omega) hlt
    rw [ha, Option.some.injEq] at hblk
    exact Or.inr (hblk ▸ formed_gbr t' a)

lemma formedBut_foldlM {ranges rs : List (BitVec 32 × BitVec 32)} (h : FormedBut rs t)
    (hp : Progress prog ranges rs t) (hnodup : (rs.map Prod.fst).Nodup)
    (ht : rs.foldlM (fun t range => Translator.translateIPRange prog range.1 range.2 t) t =
      some t') : FormedBut [] t' := by
  induction rs generalizing t with
  | nil =>
    cases ht
    exact h
  | cons range rs ih =>
    obtain ⟨t1, h1, h2⟩ := FoldM.foldlM_cons_eq_some.mp ht
    rw [List.map_cons, List.nodup_cons] at hnodup
    exact ih (h.translateIPRange hp h1) (hp.translateIPRange hnodup.1 h1).1 hnodup.2 h2

/-- All blocks of a translated job are finished. -/
lemma formed_translate {ranges : List (BitVec 32 × BitVec 32)}
    (hnodup : (ranges.map Prod.fst).Nodup) (ht : Translator.translate prog ranges = some t) :
    ∀ blk ∈ t.region.blist, Formed t blk := by
  obtain ⟨t0, h0⟩ : ∃ t0, ranges.foldl (fun t range => Translator.insertRange t range.1)
    Translator.init = t0 := ⟨_, rfl⟩
  have hins := inserted_foldl ranges inserted_init (by simpa using hnodup)
  rw [List.nil_append, h0] at hins
  have hstart : FormedBut ranges t0 := by
    intro b blk hblk
    obtain ⟨a, ha⟩ := hins.blocks b (List.getElem?_eq_some_iff.mp hblk).1
    exact Or.inl ⟨a, (hins.found a b ha).2, ha⟩
  have hall := formedBut_foldlM hstart (progress_start prog hnodup h0).1 hnodup (by
    rw [← h0]
    exact ht)
  intro blk hblk
  obtain ⟨b, hb, rfl⟩ := List.getElem_of_mem hblk
  exact (hall b _ (List.getElem?_eq_getElem hb)).resolve_left (by simp)

/-- A translated region is well-formed. -/
theorem wellFormed_translate {ranges : List (BitVec 32 × BitVec 32)}
    (hnodup : (ranges.map Prod.fst).Nodup) (ht : Translator.translate prog ranges = some t) :
    WellFormed t.region := by
  have h := formed_translate hnodup ht
  exact ⟨fun blk hb => (h blk hb).terminated, fun blk hb => (h blk hb).succs,
    fun blk hb => (h blk hb).written⟩

/-- The selection of operands completes on a translated region. -/
lemma run_qsel_isSome {ranges : List (BitVec 32 × BitVec 32)}
    (hnodup : (ranges.map Prod.fst).Nodup) (ht : Translator.translate prog ranges = some t) :
    ∃ r info, QSel.run t.region = some (r, info) := by
  have h := formed_translate hnodup ht
  obtain ⟨⟨vi, blist⟩, hrun⟩ := QSel.runBlocks_isSome (fun blk hb ins hins =>
    ((h blk hb).emitted ins hins).tied) t.region.vregsInfo
  simp only [QSel.run, hrun, Option.bind_eq_bind, Option.bind_some]
  exact ⟨_, _, rfl⟩

/-- The calls of trapping helpers in a region belong to `ecall` and `ebreak`. -/
def TrapCalls (r : Region) : Prop := ∀ blk ∈ r.blist, ∀ ins ∈ blk.ilist, TrapCall ins

lemma trapCalls_run {r r' : Region} {info : MachineRegionInfo} (h : TrapCalls r)
    (hrun : QSel.run r = some (r', info)) : TrapCalls r' := by
  simp only [QSel.run] at hrun
  obtain ⟨⟨vi₁, bs⟩, hblocks, hrun⟩ := Option.bind_eq_some_iff.mp hrun
  cases hrun
  intro blk' hb ins hins
  obtain ⟨blk, hblk, u, u', l', hl, rfl⟩ :=
    QSel.forall₂_mem_right (QSel.forall₂_runBlocks hblocks) hb
  cases hc : ins.op.hasCalls with
  | true => exact h blk hblk ins (QSel.mem_of_hasCalls hl hins hc)
  | false => exact .of_hasCalls hc

/-- Translation produces well-formed regions, and so does the selection of operands after it.
For any job with distinct range starts, and memory without illegal words, both complete.  Each
block ends in one terminator, or in the trapping call of an `ecall` or an `ebreak`, with nothing
behind it and with the successors that it asks for, which are blocks of the region; and local
registers are written in their block before they are read. -/
theorem translate_wellFormed (prog : BitVec 32 → BitVec 32)
    (ranges : List (BitVec 32 × BitVec 32)) (hnodup : (ranges.map Prod.fst).Nodup) :
    ((∀ ip, decode (prog ip) ≠ .illegal) → (∀ range ∈ ranges, range.2 ≠ 0) →
      ∃ t r info, Translator.translate prog ranges = some t ∧
        QSel.run t.region = some (r, info)) ∧
    ∀ t, Translator.translate prog ranges = some t →
      WellFormed t.region ∧ TrapCalls t.region ∧
      ∀ r info, QSel.run t.region = some (r, info) → WellFormed r ∧ TrapCalls r := by
  refine ⟨fun hlegal hbound => ?_, fun t ht => ?_⟩
  · obtain ⟨t, ht⟩ := translate_isSome hlegal hnodup hbound
    obtain ⟨r, info, hrun⟩ := run_qsel_isSome hnodup ht
    exact ⟨t, r, info, ht, hrun⟩
  · have hwf := wellFormed_translate hnodup ht
    have htrap : TrapCalls t.region := fun blk hb ins hins =>
      ((formed_translate hnodup ht blk hb).emitted ins hins).trap
    exact ⟨hwf, htrap, fun r info hrun => ⟨QSel.wellFormed_run hwf hrun, trapCalls_run htrap hrun⟩⟩

/-- A branch to the second word after it, and calls of the environment. -/
def branchProg (ip : BitVec 32) : BitVec 32 := if ip = 0 then 0x00208463 else 0x00000073

theorem translate_wellFormed_branch :
    ∃ t r info, Translator.translate branchProg [(0, 8), (8, 12)] = some t ∧
      QSel.run t.region = some (r, info) ∧ WellFormed t.region ∧ TrapCalls t.region ∧
      WellFormed r ∧ TrapCalls r := by
  obtain ⟨hex, hall⟩ := translate_wellFormed branchProg [(0, 8), (8, 12)] (by decide)
  have hlegal : ∀ ip, decode (branchProg ip) ≠ .illegal := by
    intro ip
    rw [branchProg]
    split <;> decide
  obtain ⟨t, r, info, ht, hrun⟩ := hex hlegal (by simp)
  obtain ⟨h1, h2, h3⟩ := hall t ht
  obtain ⟨h4, h5⟩ := h3 r info hrun
  exact ⟨t, r, info, ht, hrun, h1, h2, h4, h5⟩

end Rv32jit.Translate
