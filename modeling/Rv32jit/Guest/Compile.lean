/-
# From guest code to host code

The passes of a job in sequence: the translator, the selection of operands and the register
allocator.  Translated code names `x1` to `x31` and its temporaries, writes each temporary before
it reads it, and stores the instruction pointer in its slot only.  So the two other passes handle
it, and the host code of a job runs as the translated code does.
-/
import Rv32jit.Guest.WellFormed

namespace Rv32jit.Translate

open Qir Insn CPUState Qcg

/-- `CompilerGenRegionIR` and the passes that `GenerateCode` runs before the emission: the
translator at its end and the region on physical registers. -/
def compile (prog : BitVec 32 → BitVec 32) (ipranges : List (BitVec 32 × BitVec 32)) :
    Option (Translator × Region) := do
  let t ← Translator.translate prog ipranges
  let (r, _) ← QSel.run t.region
  let r ← QRegAlloc.run r
  some (t, r)

lemma translate_of_compile {prog : BitVec 32 → BitVec 32}
    {ipranges : List (BitVec 32 × BitVec 32)} {t : Translator} {r : Region}
    (h : compile prog ipranges = some (t, r)) : Translator.translate prog ipranges = some t := by
  obtain ⟨t', ht, h⟩ := Option.bind_eq_some_iff.mp h
  obtain ⟨⟨r₁, info⟩, -, h⟩ := Option.bind_eq_some_iff.mp h
  obtain ⟨r₂, -, h⟩ := Option.bind_eq_some_iff.mp h
  exact ht.trans (congrArg (Option.map Prod.fst) h)

/-! ### Translated code -/

/-- An operand of translated code that is no slot. -/
def GuestOpr (vi : VRegsInfo) : VOperand → Prop
  | .const _ _ => True
  | .vgpr _ v => v ≠ IP ∧ vi.vregType v = some .I32
  | _ => False

/-- An instruction of translated code. -/
structure GuestInst (vi : VRegsInfo) (ins : Inst) : Prop where
  input : ∀ o ∈ ins.i, GuestOpr vi o
  output : ∀ o ∈ ins.o, o.getType = .I32 ∧
    (GuestOpr vi o ∨ ins.op = .mov ∧ o = .slot true .I32 ipOffs)
  /-- Only a stored value may be narrow. -/
  wide : (∀ sz sgn, ins.op ≠ .vmstore sz sgn) → ∀ o ∈ ins.i, o.getType = .I32
  call : ins.op.hasCalls = true → ∀ o ∈ ins.i, o.isConst = true

variable {prog : BitVec 32 → BitVec 32} {t : Translator} {vi vi' : VRegsInfo} {ins : Inst}
  {raw ip a : BitVec 32} {k tmp : ℕ} {code : List Inst} {succs : List ℕ} {W W' : ℕ → Prop}

lemma vregType_gpr (hvi : vi.globInfo = stateInfo) {i : ℕ} (h0 : i ≠ 0) (hi : i < 32) :
    vi.vregType (i - 1) = some .I32 := by
  rw [VRegsInfo.vregType, getGlobalInfo_gpr hvi h0 hi]

lemma guestOpr_gprop (hvi : vi.globInfo = stateInfo) {i : ℕ} (hi : i < 32) (type : VType) :
    GuestOpr vi (gprop i type) := by
  rw [gprop]
  split
  · trivial
  · rename_i h0
    exact ⟨by rw [IP]; omega, vregType_gpr hvi h0 hi⟩

lemma getType_gprop (i : ℕ) (type : VType) : (gprop i type).getType = type := by
  rw [gprop]
  split <;> rfl

lemma guestOpr_vconst (vi : VRegsInfo) (c : BitVec 32) :
    GuestOpr vi (vconst c) ∧ (vconst c).getType = .I32 := ⟨trivial, rfl⟩

lemma guestOpr_src (hvi : vi.globInfo = stateInfo) (src : Src) (raw : BitVec 32) :
    GuestOpr vi (src.opr raw) ∧ (src.opr raw).getType = .I32 := by
  cases src with
  | imm | shamt => exact guestOpr_vconst vi _
  | reg => exact ⟨guestOpr_gprop hvi (rs2_lt raw) _, getType_gprop _ _⟩

/-- Code that assigns to the destination of a word. -/
lemma guest_toRd (hvi : vi.globInfo = stateInfo) {mk : VOperand → Inst}
    (hmk : ∀ d, GuestOpr vi d → d.getType = .I32 → GuestInst vi (mk d)) :
    ∀ ins ∈ toRd raw mk, GuestInst vi ins := by
  intro ins hins
  rw [toRd] at hins
  split at hins
  · rename_i h0
    rw [List.mem_singleton.mp hins]
    refine hmk _ ⟨?_, vregType_gpr hvi h0 (rd_lt raw)⟩ rfl
    have := rd_lt raw
    rw [IP]
    omega
  · cases hins

/-- An instruction that is no store and no call. -/
lemma GuestInst.of_wide {d : VOperand} (ho : ins.o = [d]) (hd : GuestOpr vi d)
    (hdt : d.getType = .I32) (hin : ∀ o ∈ ins.i, GuestOpr vi o ∧ o.getType = .I32)
    (hcall : ins.op.hasCalls = false) : GuestInst vi ins := by
  refine ⟨fun o ho => (hin o ho).1, fun o h => ?_, fun _ o ho => (hin o ho).2, fun hc => ?_⟩
  · rw [ho, List.mem_singleton] at h
    rw [h]
    exact ⟨hdt, Or.inl hd⟩
  · rw [hcall] at hc
    cases hc

lemma guest_mkMov {d o : VOperand} (hd : GuestOpr vi d) (hdt : d.getType = .I32)
    (ho : GuestOpr vi o ∧ o.getType = .I32) : GuestInst vi (.mkMov d o) := by
  refine .of_wide rfl hd hdt (fun x hx => ?_) rfl
  rw [List.mem_singleton.mp hx]
  exact ho

lemma guest_binop {q : Binop} {d x y : VOperand} (hd : GuestOpr vi d) (hdt : d.getType = .I32)
    (hx : GuestOpr vi x ∧ x.getType = .I32) (hy : GuestOpr vi y ∧ y.getType = .I32) :
    GuestInst vi (q.inst d x y) := by
  refine .of_wide rfl hd hdt (fun o ho => ?_) ?_
  · rcases List.mem_pair.mp ho with rfl | rfl
    · exact hx
    · exact hy
  · obtain ⟨op, hout, -⟩ := q
    cases op <;> first | rfl | cases hout

lemma guest_foldAdd {d x y : VOperand} (hd : GuestOpr vi d) (hdt : d.getType = .I32)
    (hx : GuestOpr vi x ∧ x.getType = .I32) (hy : GuestOpr vi y ∧ y.getType = .I32) :
    GuestInst vi (foldAdd d x y) := by
  have hadd : ∀ u v : VOperand, GuestOpr vi u ∧ u.getType = .I32 →
      GuestOpr vi v ∧ v.getType = .I32 →
      GuestInst vi (.mkAdd d u v) := fun u v => guest_binop (q := ⟨.add, rfl, rfl⟩) hd hdt
  unfold foldAdd
  split
  · exact guest_mkMov hd hdt (guestOpr_vconst vi _)
  · split
    · exact guest_mkMov hd hdt hy
    · exact hadd _ _ hy hx
  · split
    · exact guest_mkMov hd hdt hx
    · exact hadd _ _ hx hy
  · exact hadd _ _ hx hy

lemma guest_applyFolder {q : Binop} {d x y : VOperand} (hd : GuestOpr vi d)
    (hdt : d.getType = .I32) (hx : GuestOpr vi x ∧ x.getType = .I32)
    (hy : GuestOpr vi y ∧ y.getType = .I32) : GuestInst vi (applyFolder (q.inst d x y)) := by
  obtain ⟨op, ho, hi⟩ := q
  by_cases hop : op = .add
  · subst hop
    exact guest_foldAdd hd hdt hx hy
  · rw [applyFolder_of_ne hop]
    exact guest_binop hd hdt hx hy

/-- The address of an access. -/
lemma guest_address (hvi : vi.globInfo = stateInfo) (raw imm : BitVec 32)
    (htmp : imm ≠ 0 → tmp ≠ IP ∧ vi.vregType tmp = some .I32) :
    (GuestOpr vi (addressOpr raw imm tmp) ∧ (addressOpr raw imm tmp).getType = .I32) ∧
      ∀ ins ∈ addressCode raw imm tmp, GuestInst vi ins := by
  have hbase := guestOpr_gprop hvi (rs1_lt raw) .I32
  rw [addressOpr, addressCode]
  split
  · rename_i h0
    refine ⟨⟨htmp h0, rfl⟩, fun ins hins => ?_⟩
    rw [List.mem_singleton.mp hins]
    have hd : GuestOpr vi (.vgpr .I32 tmp) := htmp h0
    exact guest_foldAdd hd rfl ⟨hbase, getType_gprop _ _⟩ (guestOpr_vconst vi imm)
  · exact ⟨⟨hbase, getType_gprop _ _⟩, fun ins hins => by cases hins⟩

/-- The code of an instruction. -/
lemma guest_insnCode (hvi : vi.globInfo = stateInfo) (f : Family) (raw ip : BitVec 32)
    (htmp : usesTemp f raw = true → tmp ≠ IP ∧ vi.vregType tmp = some .I32) :
    ∀ ins ∈ insnCode f raw ip tmp, GuestInst vi ins := by
  have hlink : ∀ ins ∈ linkCode raw ip, GuestInst vi ins :=
    guest_toRd hvi fun d hd hdt => guest_mkMov hd hdt (guestOpr_vconst vi _)
  have hbase := guestOpr_gprop hvi (rs1_lt raw) .I32
  intro ins hins
  rw [insnCode] at hins
  rcases List.mem_append.mp hins with hins | hins
  · rw [saveCode] at hins
    split at hins
    · rw [List.mem_singleton.mp hins]
      refine ⟨fun o ho => ?_, fun o ho => ?_, fun _ o ho => ?_, fun h => by cases h⟩ <;>
        rw [List.mem_singleton.mp ho]
      · trivial
      · exact ⟨rfl, Or.inr ⟨rfl, rfl⟩⟩
      · rfl
    · cases hins
  · cases f with
    | illegal | brcc => cases hins
    | lui | auipc =>
      exact guest_toRd hvi (fun d hd hdt => guest_mkMov hd hdt (guestOpr_vconst vi _)) ins hins
    | jal => exact hlink ins hins
    | arith q src =>
      exact guest_toRd hvi (fun d hd hdt => guest_applyFolder hd hdt ⟨hbase, getType_gprop _ _⟩
        (guestOpr_src hvi src raw)) ins hins
    | jalr =>
      have hd : GuestOpr vi (.vgpr .I32 tmp) := htmp rfl
      rcases List.mem_append.mp hins with hins | hins
      · rcases List.mem_pair.mp hins with rfl | rfl
        · exact guest_foldAdd hd rfl ⟨hbase, getType_gprop _ _⟩
            (guestOpr_vconst vi _)
        · exact guest_binop (q := ⟨.and, rfl, rfl⟩) hd rfl ⟨hd, rfl⟩
            (guestOpr_vconst vi _)
      · exact hlink ins hins
    | load sz sgn =>
      obtain ⟨haddr, hcode⟩ := guest_address hvi raw (immI raw)
        fun h => htmp (by simpa [usesTemp] using h)
      rcases List.mem_append.mp hins with hins | hins
      · exact hcode ins hins
      · rw [List.mem_singleton.mp hins]
        have hd : ∀ d, (d = if rd raw ≠ 0 then vgpr (rd raw) else addressOpr raw (immI raw) tmp) →
            GuestOpr vi d ∧ d.getType = .I32 := by
          rintro _ rfl
          split
          · rename_i h0
            have := rd_lt raw
            exact ⟨⟨by rw [IP]; omega, vregType_gpr hvi h0 this⟩, rfl⟩
          · exact haddr
        refine .of_wide rfl (hd _ rfl).1 (hd _ rfl).2 (fun o ho => ?_) rfl
        rw [List.mem_singleton.mp ho]
        exact haddr
    | store sz =>
      obtain ⟨haddr, hcode⟩ := guest_address hvi raw (immS raw)
        fun h => htmp (by simpa [usesTemp] using h)
      rcases List.mem_append.mp hins with hins | hins
      · exact hcode ins hins
      · rw [List.mem_singleton.mp hins]
        refine ⟨fun o ho => ?_, fun o ho => by (cases ho), fun hw => absurd rfl (hw sz .U),
          fun h => by cases h⟩
        rcases List.mem_pair.mp ho with rfl | rfl
        · exact haddr.1
        · exact guestOpr_gprop hvi (rs2_lt raw) _
    | fence | call =>
      rw [List.mem_singleton.mp hins]
      refine ⟨fun o ho => ?_, fun o ho => by (cases ho), fun _ o ho => ?_, fun _ o ho => ?_⟩ <;>
        rw [List.mem_singleton.mp ho]
      · trivial
      all_goals rfl

/-- The temporary of an instruction is a local register. -/
lemma GoodTemp.opr (hvi : t.region.vregsInfo.globInfo = stateInfo)
    (hloc : ∀ ty ∈ t.region.vregsInfo.locInfo, ty = .I32) (h : GoodTemp t raw tmp)
    (hu : usesTemp (family (decode raw)) raw = true) :
    tmp ≠ IP ∧ t.region.vregsInfo.vregType tmp = some .I32 := by
  have hge := h.ge
  have hlt := h.lt hu
  refine ⟨by rw [IP]; omega, ?_⟩
  rw [VRegsInfo.numAll, hvi, length_stateInfo] at hlt
  rw [VRegsInfo.vregType, getGlobalInfo_temp hvi hge, VRegsInfo.getLocalType, VRegsInfo.isGlobal,
    hvi, length_stateInfo, if_neg (by simpa using hge), List.getElem?_eq_getElem (by omega)]
  exact congrArg some (hloc _ (List.getElem_mem _))

/-- Covered code is translated code. -/
lemma Covers.guest (hvi : t.region.vregsInfo.globInfo = stateInfo)
    (hloc : ∀ ty ∈ t.region.vregsInfo.locInfo, ty = .I32) (h : Covers prog t k a code succs) :
    ∀ ins ∈ code, GuestInst t.region.vregsInfo ins := by
  have hjump : ∀ {a code succs}, Jump t a code succs →
      ∀ ins ∈ code, GuestInst t.region.vregsInfo ins := by
    intro a code succs hj ins hins
    cases hj <;> rw [List.mem_singleton.mp hins] <;>
      exact ⟨fun o ho => by (cases ho), fun o ho => by (cases ho), fun _ o ho => by (cases ho),
        fun hc => by cases hc⟩
  induction h with
  | step hend htmp hrest ih =>
    intro ins hins
    rcases List.mem_append.mp hins with hins | hins
    · exact guest_insnCode hvi _ _ _ (htmp.opr hvi hloc) ins hins
    · exact ih ins hins
  | call hf => exact guest_insnCode hvi _ _ _ fun hu => by rw [hf] at hu; cases hu
  | jal hf hj =>
    intro ins hins
    rcases List.mem_append.mp hins with hins | hins
    · exact guest_insnCode hvi _ _ _ (fun hu => by rw [hf] at hu; cases hu) ins hins
    · exact hjump hj ins hins
  | jalr hf htmp =>
    have hopr := htmp.opr hvi hloc (by rw [hf]; rfl)
    intro ins hins
    rcases List.mem_append.mp hins with hins | hins
    · exact guest_insnCode hvi _ _ _ (fun _ => hopr) ins hins
    · rw [List.mem_singleton.mp hins]
      refine ⟨fun o ho => ?_, fun o ho => by (cases ho), fun _ o ho => ?_,
        fun hc => by cases hc⟩ <;>
        rw [List.mem_singleton.mp ho]
      · exact hopr
      · rfl
  | brcc hf ht hf' =>
    intro ins hins
    rw [List.mem_singleton.mp hins]
    refine ⟨fun o ho => ?_, fun o ho => by (cases ho), fun _ o ho => ?_, fun hc => by cases hc⟩ <;>
      rcases List.mem_pair.mp ho with rfl | rfl
    · exact guestOpr_gprop hvi (rs1_lt _) _
    · exact guestOpr_gprop hvi (rs2_lt _) _
    all_goals exact getType_gprop _ _
  | cut hj => exact hjump hj

/-- All blocks of a translated job are translated code. -/
lemma Translated.guest {ranges : List (BitVec 32 × BitVec 32)} (h : Translated prog ranges t)
    (hfit : t.region.vregsInfo.numAll ≤ 2 ^ 16) :
    ∀ blk ∈ t.region.blist, ∀ ins ∈ blk.ilist, GuestInst t.region.vregsInfo ins := by
  intro blk hblk
  obtain ⟨b, hb, rfl⟩ := List.getElem_of_mem hblk
  obtain ⟨a, hfind | ⟨-, heq⟩⟩ := h.blocks b hb
  · obtain ⟨-, code, succs, heq, hc⟩ := h.covered hfit a b hfind
    rw [List.getElem?_eq_getElem hb, Option.some.injEq] at heq
    rw [heq]
    exact hc.guest h.globInfo h.locals
  · have hc : Covers prog t 0 a [.mkGBr a] [] := .cut .gbr
    rw [List.getElem?_eq_getElem hb, Option.some.injEq] at heq
    rw [heq]
    exact hc.guest h.globInfo h.locals

/-! ### After the selection of operands -/

lemma GuestInst.selectable (h : GuestInst vi ins) : QSel.Selectable vi ins := by
  refine ⟨fun o ho => ?_, fun c ty d x y hc htied hout hin _ => ?_⟩
  · have hopr : ∀ {o}, GuestOpr vi o → o.Sized vi := by
      rintro (_ | ⟨ty, v⟩ | _ | _ | _) hg <;> first | trivial | skip
      exact ⟨.I32, hg.2, by cases ty <;> decide⟩
    rcases List.mem_append.mp ho with ho | ho
    · obtain ⟨-, hg | ⟨-, rfl⟩⟩ := h.output o ho
      · exact hopr hg
      · trivial
    · exact hopr (h.input o ho)
  · have hwide := h.wide fun sz sgn hop => by
      rw [hop] at hc
      cases hc
      revert htied
      decide
    rw [hin] at hwide
    have hty : (VOperand.vgpr ty d).getType = .I32 :=
      (h.output _ (by rw [hout]; exact List.mem_singleton_self _)).1
    obtain rfl : ty = .I32 := hty
    refine ⟨by rw [hwide x (by simp)], fun ty' hy => ?_, fun ty' o g hy => ?_⟩
    · have := hwide y (by simp)
      rw [hy] at this
      exact this
    · have := h.input y (by rw [hin]; simp)
      rw [hy] at this
      exact this.elim

/-- An instruction on virtual registers that the allocator handles. -/
structure HostInst (vi : VRegsInfo) (ins : Inst) : Prop where
  input : ∀ o ∈ ins.i, (∃ ty c, o = .const ty c) ∨ ∃ ty v t₀, o = .vgpr ty v ∧ v ≠ IP ∧
    vi.vregType v = some t₀ ∧ ty.toSize ≤ t₀.toSize
  output : ∀ o ∈ ins.o, (∃ ty c, o = .const ty c) ∨
    (∃ ty v, o = .vgpr ty v ∧ v ≠ IP ∧ vi.vregType v = some ty) ∨ o = .slot true .I32 ipOffs

lemma vregType_mono {v : ℕ} {ty : VType} (hext : vi.Extends vi') (h : vi.vregType v = some ty) :
    vi'.vregType v = some ty := by
  rw [hext.vregType (VRegsInfo.lt_numAll h), h]

/-- The operands of translated code, among further registers. -/
lemma GuestInst.host (h : GuestInst vi ins) (hext : vi.Extends vi') :
    (∀ o ∈ ins.i, (∃ ty c, o = .const ty c) ∨ ∃ ty v t₀, o = .vgpr ty v ∧ v ≠ IP ∧
      vi'.vregType v = some t₀ ∧ ty.toSize ≤ t₀.toSize) ∧
    ∀ o ∈ ins.o, (∃ ty c, o = .const ty c) ∨
      (∃ ty v, o = .vgpr ty v ∧ v ≠ IP ∧ vi'.vregType v = some ty) ∨
        o = .slot true .I32 ipOffs := by
  refine ⟨fun o ho => ?_, fun o ho => ?_⟩
  · have hg := h.input o ho
    cases o with
    | const ty c => exact Or.inl ⟨ty, c, rfl⟩
    | vgpr ty v =>
      exact Or.inr ⟨ty, v, .I32, rfl, hg.1, vregType_mono hext hg.2, by cases ty <;> decide⟩
    | _ => exact hg.elim
  · obtain ⟨hty, hg | ⟨-, rfl⟩⟩ := h.output o ho
    · cases o with
      | const ty c => exact Or.inl ⟨ty, c, rfl⟩
      | vgpr ty v =>
        obtain rfl : ty = .I32 := hty
        exact Or.inr (Or.inl ⟨.I32, v, rfl, hg.1, vregType_mono hext hg.2⟩)
      | _ => exact hg.elim
    · exact Or.inr (Or.inr rfl)

variable {st : QSel.SelState} {vi₁ : VRegsInfo} {blk blk' : Block}

/-- The code in place of an instruction of translated code. -/
lemma HostInst.of_visit (hvi : vi.globInfo = stateInfo) (h : GuestInst vi ins)
    (hv : QSel.VisitSpec vi vi₁ ins st) (hext : st.vi.Extends vi') :
    ∀ i ∈ st.code ++ [st.ins], HostInst vi' i := by
  obtain ⟨hin, hout⟩ := h.host (hv.inv.ext.trans hext)
  have h32 : 32 ≤ vi.numAll := by
    rw [VRegsInfo.numAll, hvi, length_stateInfo]
    omega
  -- what a move writes
  have hmove : ∀ ty v o, Inst.mkMov (.vgpr ty v) o ∈ st.code →
      o ∈ ins.i ∧ v ≠ IP ∧ vi'.vregType v = some ty := by
    intro ty v o hm
    obtain ⟨ty', v', o', heq, ho, hd⟩ := hv.inv.moves _ hm
    cases heq
    refine ⟨ho, ?_⟩
    rcases hd with hd | ⟨hge, -, hty⟩
    · rcases hout _ hd with ⟨_, _, he⟩ | ⟨_, _, he, h1, h2⟩ | he
      · cases he
      · cases he
        exact ⟨h1, h2⟩
      · cases he
    · exact ⟨by rw [IP]; omega, vregType_mono hext hty⟩
  intro i hi
  rcases List.mem_append.mp hi with hi | hi
  · obtain ⟨ty, v, o, rfl, -, -⟩ := hv.inv.moves i hi
    obtain ⟨ho, h1, h2⟩ := hmove ty v o hi
    refine ⟨fun x hx => ?_, fun x hx => ?_⟩ <;> rw [List.mem_singleton.mp hx]
    · exact hin o ho
    · exact Or.inr (Or.inl ⟨ty, v, rfl, h1, h2⟩)
  · rw [List.mem_singleton.mp hi]
    refine ⟨fun o ho => ?_, fun o ho => hout o (by rwa [← hv.inv.o])⟩
    rcases hv.inv.inputs o ho with ho | ⟨ty, v, src, rfl, hm⟩
    · exact hin o ho
    · obtain ⟨-, h1, h2⟩ := hmove ty v src hm
      exact Or.inr ⟨ty, v, ty, rfl, h1, h2, le_rfl⟩

/-- What the allocator needs to know of the instructions of a block. -/
structure HostBlock (vi : VRegsInfo) (blk : Block) : Prop where
  insts : ∀ ins ∈ blk.ilist, HostInst vi ins
  call : ∀ ins ∈ blk.ilist, ins.op.hasCalls = true → ∀ o ∈ ins.i, o.isConst = true

lemma HostBlock.of_runInsts {vi₀ : VRegsInfo} {l' : List Inst} (hvi : vi.globInfo = stateInfo)
    (h : ∀ ins ∈ blk.ilist, GuestInst vi ins) (hext : vi.Extends vi₀)
    (hrun : QSel.runInsts vi₀ blk.ilist = some (vi₁, l')) (hext' : vi₁.Extends vi')
    (hfit : vi'.numAll ≤ 2 ^ 16) : HostBlock vi' { blk with ilist := l' } := by
  have hsel : ∀ ins ∈ blk.ilist, QSel.Selectable vi ins := fun i hi => (h i hi).selectable
  have hfit₁ := hext'.numAll_le.trans hfit
  have hp := (QSel.runInsts_spec hsel hext hrun hfit₁).mono hext'
  refine ⟨fun i hi => ?_, fun i hi hc => ?_⟩
  · obtain ⟨pieces, rfl, hall⟩ := hp
    obtain ⟨δ, hδ, hi⟩ := List.mem_flatten.mp hi
    obtain ⟨ins, hins, vi₂, st, hv, he, rfl⟩ := QSel.forall₂_mem_right hall hδ
    exact HostInst.of_visit hvi (h ins hins) hv he i hi
  · exact (h i (QSel.mem_of_hasCalls hrun hi hc)).call hc

lemma HostBlock.of_runBlocks {vi₀ : VRegsInfo} {l l' : List Block} (hvi : vi.globInfo = stateInfo)
    (h : ∀ blk ∈ l, ∀ ins ∈ blk.ilist, GuestInst vi ins) (hext : vi.Extends vi₀)
    (hrun : QSel.runBlocks vi₀ l = some (vi₁, l')) (hext' : vi₁.Extends vi')
    (hfit : vi'.numAll ≤ 2 ^ 16) : ∀ blk ∈ l', HostBlock vi' blk := by
  induction l generalizing vi₀ l' with
  | nil =>
    cases hrun
    simp
  | cons blk l ih =>
    simp only [QSel.runBlocks] at hrun
    obtain ⟨⟨vi₂, code⟩, h1, hrun⟩ := Option.bind_eq_some_iff.mp hrun
    obtain ⟨⟨vi₃, blist⟩, h2, hrun⟩ := Option.bind_eq_some_iff.mp hrun
    cases hrun
    intro b hb
    rcases List.mem_cons.mp hb with rfl | hb
    · exact .of_runInsts hvi (h blk (by simp)) hext h1 ((QSel.ext_runBlocks h2).trans hext') hfit
    · exact ih (fun b hb => h b (List.mem_cons_of_mem _ hb)) (hext.trans (QSel.ext_runInsts h1))
        h2 b hb

/-- The registers that a region of such blocks names. -/
lemma named_ne_ip {r : Region} (h : ∀ blk ∈ r.blist, HostBlock r.vregsInfo blk) {v : ℕ}
    (hn : Named r v) : v ≠ IP := by
  obtain ⟨blk, hb, ins, hins, ty, ho⟩ := hn
  rcases List.mem_append.mp ho with ho | ho
  · rcases ((h blk hb).insts ins hins).output _ ho with ⟨_, _, he⟩ | ⟨_, _, he, hv, -⟩ | he
    · cases he
    · cases he
      exact hv
    · cases he
  · rcases ((h blk hb).insts ins hins).input _ ho with ⟨_, _, he⟩ | ⟨_, _, _, he, hv, -⟩
    · cases he
    · cases he
      exact hv

/-- The slot of the instruction pointer is no home of another register. -/
lemma ip_apart (hvi : vi.globInfo = stateInfo) {v : ℕ} (hne : v ≠ IP) {g : StateReg}
    (hg : vi.getGlobalInfo v = some g) : g.Apart ⟨ipOffs, .I32⟩ := by
  have hip : vi.getGlobalInfo IP = some ⟨ipOffs, .I32⟩ := by
    rw [VRegsInfo.getGlobalInfo, hvi]
    rfl
  exact VRegsInfo.homes_apart hg hip hne

lemma virtual_of_host {r : Region} (hvi : r.vregsInfo.globInfo = stateInfo)
    (h : ∀ blk ∈ r.blist, HostBlock r.vregsInfo blk) : Virtual r := by
  refine ⟨fun blk hb ins hins o ho => ?_, fun blk hb ins hins o ho => ?_, fun blk hb =>
    (h blk hb).call⟩
  · rcases ((h blk hb).insts ins hins).input o ho with ⟨ty, c, rfl⟩ | ⟨ty, v, t₀, rfl, -, hv, hle⟩
    · trivial
    · exact ⟨t₀, hv, hle⟩
  · rcases ((h blk hb).insts ins hins).output o ho with ⟨ty, c, rfl⟩ | ⟨ty, v, rfl, -, hv⟩ | rfl
    · trivial
    · exact hv
    · exact ⟨rfl, fun v g hn hg => ip_apart hvi (named_ne_ip h hn) hg⟩

/-- The allocator has room for `MAX_VREGS` virtual registers. -/
lemma numAll_le_of_init {ra : QRegAlloc} (h : QRegAlloc.init vi = some ra) :
    vi.numAll ≤ MAX_VREGS := by
  rw [← (QRegAlloc.init_spec h).1]
  simp only [QRegAlloc.init] at h
  obtain ⟨ra1, h1, h2⟩ := Option.bind_eq_some_iff.mp h
  have hadd : ∀ (x : RTrack) (u u' : QRegAlloc), QRegAlloc.addTrack x u = some u' →
      u.nVregs ≤ MAX_VREGS → u'.nVregs ≤ MAX_VREGS := by
    intro x u u' hu hle
    rw [QRegAlloc.addTrack] at hu
    split at hu
    · cases hu
    · cases hu
      exact Nat.succ_le_of_lt (Nat.lt_of_le_of_ne hle ‹_›)
  have hle := FoldM.relates (R := fun u u' : QRegAlloc => u.nVregs ≤ MAX_VREGS →
    u'.nVregs ≤ MAX_VREGS) (fun _ => id) (fun _ _ _ f g => g ∘ f) h1
    fun _ _ u u' hu => hadd _ u u' hu
  have hle' := FoldM.relates (R := fun u u' : QRegAlloc => u.nVregs ≤ MAX_VREGS →
    u'.nVregs ≤ MAX_VREGS) (fun _ => id) (fun _ _ _ f g => g ∘ f) h2
    fun _ _ u u' hu => hadd _ u u' hu
  exact hle' (hle (Nat.zero_le _))

/-- The region that the allocator gets, as long as the numbers of its registers fit. -/
lemma allocatable_of_run {ranges : List (BitVec 32 × BitVec 32)} {r : Region}
    {info : MachineRegionInfo} (hnodup : (ranges.map Prod.fst).Nodup)
    (ht : Translator.translate prog ranges = some t) (hrun : QSel.run t.region = some (r, info))
    (hfit : r.vregsInfo.numAll ≤ 2 ^ 16) :
    Allocatable r ∧ Virtual r ∧ t.region.vregsInfo.Extends r.vregsInfo ∧
      List.Forall₂ (QSel.BlockSpec t.region.vregsInfo r.vregsInfo) t.region.blist r.blist := by
  have htr := translated_of_translate hnodup ht
  have hwf := QSel.wellFormed_run (wellFormed_translate hnodup ht) hrun
  simp only [QSel.run] at hrun
  obtain ⟨⟨vi₁, blist⟩, hblocks, hrun⟩ := Option.bind_eq_some_iff.mp hrun
  cases hrun
  have hext := QSel.ext_runBlocks hblocks
  have hguest := htr.guest (hext.numAll_le.trans hfit)
  have hhost := HostBlock.of_runBlocks htr.globInfo hguest (.refl _) hblocks (.refl _) hfit
  have hspec := QSel.runBlocks_spec (fun blk hb ins hins => (hguest blk hb ins hins).selectable)
    (.refl _) hblocks hfit
  refine ⟨⟨fun blk hb => ?_, hwf.written, fun blk hb => ?_⟩,
    virtual_of_host (hext.1.trans htr.globInfo) hhost, hext, hspec⟩
  · obtain ⟨blk₀, -, -, hp⟩ := QSel.forall₂_mem_right hspec hb
    exact hp.selected
  · obtain ⟨body, last, hterm⟩ := hwf.terminated blk hb
    exact hterm.endsInExit

/-! ### The job -/

/-- A compiled job, pass by pass. -/
structure Compiled (prog : BitVec 32 → BitVec 32) (ranges : List (BitVec 32 × BitVec 32))
    (t : Translator) (r : Region) : Prop extends Translated prog ranges t where
  fits : t.region.vregsInfo.numAll ≤ 2 ^ 16
  same : ∀ (env : HelperEnv) (b : ℕ) (s s' : QState), SameState s s' →
    SameRun SameState .stuck (execBlock env t.region b s) (execBlock env r b s')

/-- The host code of a job runs as the translated code does, block by block: with equal CPU
states and memories at the start, whatever the registers and the frame hold, the traces are the
same, with the CPU state at every event, and so is the exit. -/
theorem compiled_of_compile {ranges : List (BitVec 32 × BitVec 32)} {r : Region}
    (hnodup : (ranges.map Prod.fst).Nodup) (h : compile prog ranges = some (t, r)) :
    Compiled prog ranges t r := by
  rw [compile] at h
  obtain ⟨t', ht, h⟩ := Option.bind_eq_some_iff.mp h
  obtain ⟨⟨r₁, info⟩, hsel, h⟩ := Option.bind_eq_some_iff.mp h
  obtain ⟨r₂, hra, h⟩ := Option.bind_eq_some_iff.mp h
  cases h
  -- the numbers of the registers fit
  have hfit₁ : r₁.vregsInfo.numAll ≤ 2 ^ 16 := by
    obtain ⟨ra, hinit, -⟩ := Option.bind_eq_some_iff.mp hra
    exact (numAll_le_of_init hinit).trans (by decide)
  obtain ⟨hal, hvirt, hext, hspec⟩ := allocatable_of_run hnodup ht hsel hfit₁
  refine ⟨translated_of_translate hnodup ht, hext.numAll_le.trans hfit₁, fun env b s s' hs => ?_⟩
  have h₁ : SameRun (Agree t.region.vregsInfo.numAll) .stuck (execBlock env t.region b s)
      (execBlock env r₁ b s) := QSel.execBlock_qsel hext hspec env b (.refl _ s)
  exact h₁.trans (execBlock_regAlloc hal hvirt hra env b hs) fun _ _ _ h h' =>
    ⟨h'.cpu.trans h.cpu, h'.mem.trans h.mem⟩

end Rv32jit.Translate
