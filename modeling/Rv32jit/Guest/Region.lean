/-
# The blocks of a translated region

A region has one block for each range of the job and one for each target of a branch that lies
outside the ranges.  The block of a range covers the instructions from the start of the range
on, up to the first that leaves it or to a cut; a block of the other kind only leaves the
region.  Translating a range changes no block but its own and those that it adds.
-/
import Rv32jit.Lib.FoldM
import Rv32jit.Guest.InsnCorrect

namespace Rv32jit.Translate

open Qir Insn CPUState

/-- Control comes to block `b` to go on at address `a`: the block is that of a range, or it
leaves the region for `a`. -/
def EntryAt (t : Translator) (b : ℕ) (a : BitVec 32) : Prop :=
  t.find a = some b ∨
    (∀ a', t.find a' ≠ some b) ∧ t.region.blist[b]? = some { ilist := [.mkGBr a] }

/-- The end of a block that goes on at a fixed address. -/
inductive Jump (t : Translator) (a : BitVec 32) : List Inst → List ℕ → Prop
  | br {b : ℕ} : t.find a = some b → Jump t a [.mkBr] [b]
  | gbr : Jump t a [.mkGBr a] []

/-- The temporary of an instruction. -/
structure GoodTemp (t : Translator) (raw : BitVec 32) (tmp : ℕ) : Prop where
  ge : 32 ≤ tmp
  lt : usesTemp (family (decode raw)) raw = true → tmp < t.region.vregsInfo.numAll

/-- The code, with the successors of its block, covers `k` instructions from address `a` on. -/
inductive Covers (prog : BitVec 32 → BitVec 32) (t : Translator) :
    ℕ → BitVec 32 → List Inst → List ℕ → Prop
  | step {k : ℕ} {a : BitVec 32} {tmp : ℕ} {code : List Inst} {succs : List ℕ}
      (hend : (family (decode (prog a))).ends = false) (htmp : GoodTemp t (prog a) tmp)
      (hrest : Covers prog t k (a + 4) code succs) :
      Covers prog t (k + 1) a (insnCode (family (decode (prog a))) (prog a) a tmp ++ code) succs
  | call {a : BitVec 32} {tmp : ℕ} {stub : RuntimeStubId} {trap : TrapCode}
      (hf : family (decode (prog a)) = .call stub trap) :
      Covers prog t 1 a (insnCode (family (decode (prog a))) (prog a) a tmp) []
  | jal {a : BitVec 32} {tmp : ℕ} {code : List Inst} {succs : List ℕ}
      (hf : family (decode (prog a)) = .jal) (hjump : Jump t (a + immJ (prog a)) code succs) :
      Covers prog t 1 a (insnCode (family (decode (prog a))) (prog a) a tmp ++ code) succs
  | jalr {a : BitVec 32} {tmp : ℕ} (hf : family (decode (prog a)) = .jalr)
      (htmp : GoodTemp t (prog a) tmp) :
      Covers prog t 1 a (insnCode (family (decode (prog a))) (prog a) a tmp ++
        [.mkGBrind (.vgpr .I32 tmp)]) []
  | brcc {a : BitVec 32} {cc : CondCode} {bt bf : ℕ} (hf : family (decode (prog a)) = .brcc cc)
      (ht : EntryAt t bt (a + immB (prog a))) (hf' : EntryAt t bf (a + 4)) :
      Covers prog t 1 a
        [.mkBrcc cc (gprop (rs1 (prog a))) (gprop (rs2 (prog a)))] [bt, bf]
  | cut {a : BitVec 32} {code : List Inst} {succs : List ℕ} (hjump : Jump t a code succs) :
      Covers prog t 0 a code succs

/-- From `t` to `t'` the translator has changed no block but `c`, has added blocks that leave the
region, and has added 32-bit temporaries. -/
structure Keeps (c : ℕ) (t t' : Translator) : Prop where
  ip2bb : t'.ip2bb = t.ip2bb
  vregs : t.region.vregsInfo.Extends t'.region.vregsInfo
  locals : (∀ ty ∈ t.region.vregsInfo.locInfo, ty = .I32) →
    ∀ ty ∈ t'.region.vregsInfo.locInfo, ty = .I32
  length : t.region.blist.length ≤ t'.region.blist.length
  old : ∀ b, b ≠ c → b < t.region.blist.length → t'.region.blist[b]? = t.region.blist[b]?
  fresh : ∀ b, t.region.blist.length ≤ b → b < t'.region.blist.length →
    ∃ a, t'.region.blist[b]? = some { ilist := [.mkGBr a] }

variable {prog : BitVec 32 → BitVec 32} {t t' t'' : Translator} {c k b : ℕ} {a : BitVec 32}
  {code : List Inst} {succs : List ℕ} {pre : List Inst}

namespace Keeps

lemma refl (c : ℕ) (t : Translator) : Keeps c t t :=
  ⟨rfl, .refl _, id, le_rfl, fun _ _ _ => rfl, fun b h h' => by omega⟩

lemma trans (h : Keeps c t t') (h' : Keeps c t' t'') (hc : c < t.region.blist.length) :
    Keeps c t t'' := by
  refine ⟨h'.ip2bb.trans h.ip2bb, h.vregs.trans h'.vregs, fun hl => h'.locals (h.locals hl),
    h.length.trans h'.length, fun b hb hlt => ?_, fun b hge hlt => ?_⟩
  · rw [h'.old b hb (Nat.lt_of_lt_of_le hlt h.length), h.old b hb hlt]
  · by_cases hb : b < t'.region.blist.length
    · rw [h'.old b (by omega) hb]
      exact h.fresh b hge hb
    · exact h'.fresh b (by omega) hlt

lemma of_modify {f : Block → Block} (hip : t'.ip2bb = t.ip2bb)
    (hext : t.region.vregsInfo.Extends t'.region.vregsInfo)
    (hloc : (∀ ty ∈ t.region.vregsInfo.locInfo, ty = .I32) →
      ∀ ty ∈ t'.region.vregsInfo.locInfo, ty = .I32)
    (hmod : t'.region.blist = t.region.blist.modify c f) : Keeps c t t' := by
  have hlen : t'.region.blist.length = t.region.blist.length := by simp [hmod]
  exact ⟨hip, hext, hloc, hlen.ge, fun b hb _ => by simp [hmod, Ne.symm hb],
    fun b hge hlt => by omega⟩

lemma find (h : Keeps c t t') (a : BitVec 32) : t'.find a = t.find a := by
  rw [Translator.find, h.ip2bb, Translator.find]

end Keeps

lemma EntryAt.mono (hk : Keeps c t t') (hc : ∃ a, t.find a = some c) (h : EntryAt t b a) :
    EntryAt t' b a := by
  rcases h with h | ⟨hfind, hblk⟩
  · exact Or.inl (by rw [hk.find, h])
  · obtain ⟨a', ha'⟩ := hc
    have hne : b ≠ c := by
      rintro rfl
      exact hfind a' ha'
    obtain ⟨hlt, -⟩ := List.getElem?_eq_some_iff.mp hblk
    exact Or.inr ⟨fun a'' => by rw [hk.find]; exact hfind a'', by rw [hk.old b hne hlt, hblk]⟩

lemma Jump.mono (hk : Keeps c t t') (h : Jump t a code succs) : Jump t' a code succs := by
  cases h with
  | br h => exact .br (by rw [hk.find, h])
  | gbr => exact .gbr

lemma GoodTemp.mono {raw : BitVec 32} {tmp : ℕ} (hk : Keeps c t t') (h : GoodTemp t raw tmp) :
    GoodTemp t' raw tmp :=
  ⟨h.ge, fun hu => Nat.lt_of_lt_of_le (h.lt hu) hk.vregs.numAll_le⟩

lemma Covers.mono (hk : Keeps c t t') (hc : ∃ a, t.find a = some c)
    (h : Covers prog t k a code succs) : Covers prog t' k a code succs := by
  induction h with
  | step hend htmp _ ih => exact .step hend (htmp.mono hk) ih
  | call hf => exact .call hf
  | jal hf hjump => exact .jal hf (hjump.mono hk)
  | jalr hf htmp => exact .jalr hf (htmp.mono hk)
  | brcc hf ht hf' => exact .brcc hf (ht.mono hk hc) (hf'.mono hk hc)
  | cut hjump => exact .cut (hjump.mono hk)

/-! ### The end of a block -/

/-- Block `c` is that of a range, and it has the code `pre` and no successor yet. -/
structure Ready (t : Translator) (c : ℕ) (pre : List Inst) : Prop where
  blk : t.region.blist[c]? = some { ilist := pre }
  range : ∃ a, t.find a = some c
  bound : ∀ a b, t.find a = some b → b < t.region.blist.length

/-- The builder stands at the end of block `c`. -/
structure Open (t : Translator) (c : ℕ) (pre : List Inst) : Prop extends Ready t c pre where
  bb : t.bb = c

lemma modify_concat {α : Type} (l : List α) (x : α) (f : α → α) :
    (l ++ [x]).modify l.length f = l ++ [f x] := by
  induction l with
  | nil => rfl
  | cons y l ih => simp [ih]

lemma Ready.lt (h : Ready t c pre) : c < t.region.blist.length :=
  (List.getElem?_eq_some_iff.mp h.blk).1

/-- Code at the end of the current block. -/
lemma Open.emit (h : Open t c pre) (code : List Inst) {vi : VRegsInfo}
    (hext : t.region.vregsInfo.Extends vi)
    (hloc : (∀ ty ∈ t.region.vregsInfo.locInfo, ty = .I32) → ∀ ty ∈ vi.locInfo, ty = .I32) :
    Open (t.emit code vi) c (pre ++ code) ∧ Keeps c t (t.emit code vi) := by
  refine ⟨⟨⟨by simp [Translator.emit, h.bb, h.blk], h.range, fun a b hb => ?_⟩, h.bb⟩,
    .of_modify rfl hext hloc (by rw [← h.bb]; rfl)⟩
  simpa [Translator.emit] using h.bound a b hb

/-- A jump at the end of the current block. -/
lemma Open.makeGBr (h : Open t c pre) (a : BitVec 32) :
    ∃ code succs, (t.makeGBr a).region.blist[c]? = some { ilist := pre ++ code, succs := succs } ∧
      Jump (t.makeGBr a) a code succs ∧ Keeps c t (t.makeGBr a) := by
  rw [Translator.makeGBr]
  split
  · rename_i b hb
    refine ⟨[.mkBr], [b], ?_, .br hb, ?_⟩
    · simp [Translator.addSucc, Region.addSucc, Translator.create, Region.create,
        Region.modifyBlock, h.bb, h.blk, applyFolder, Inst.mkBr]
    · refine .of_modify rfl (.refl _) id (f := fun blk =>
        { ilist := blk.ilist ++ [.mkBr], succs := blk.succs ++ [b] }) ?_
      simp only [Translator.addSucc, Region.addSucc, Translator.create, Region.create,
        Region.modifyBlock, h.bb, List.modify_modify_eq]
      rfl
  · refine ⟨[.mkGBr a], [], ?_, .gbr, ?_⟩
    · simp [Translator.create, Region.create, Region.modifyBlock, h.bb, h.blk, applyFolder,
        Inst.mkGBr]
    · exact .of_modify rfl (.refl _) id (by rw [← h.bb]; rfl)

/-- The target of a branch. -/
lemma Ready.makeTarget (h : Ready t c pre) (a : BitVec 32) :
    EntryAt (t.makeTarget a).2 (t.makeTarget a).1 a ∧ Keeps c t (t.makeTarget a).2 ∧
      Ready (t.makeTarget a).2 c pre := by
  rw [Translator.makeTarget]
  split
  · rename_i b hb
    exact ⟨Or.inl hb, .refl c t, h⟩
  · -- the target is a new block that leaves the region
    have hblist : ({ t with region := t.region.createBlock.2, bb := t.region.createBlock.1 }.create
        (.mkGBr a)).region.blist = t.region.blist ++ [{ ilist := [.mkGBr a] }] := by
      simp [Translator.create, Region.create, Region.modifyBlock, Region.createBlock,
        modify_concat, applyFolder, Inst.mkGBr]
    have hnew : (t.region.blist ++ [{ ilist := [Inst.mkGBr a] }])[t.region.blist.length]? =
        some { ilist := [.mkGBr a] } := by simp
    refine ⟨Or.inr ⟨fun a' ha' => ?_, by rw [hblist]; exact hnew⟩, ?_, ?_⟩
    · exact absurd (h.bound a' _ ha') (Nat.lt_irrefl _)
    · refine ⟨rfl, .refl _, id, by simp [hblist], fun b _ hlt => ?_, fun b hge hlt => ⟨a, ?_⟩⟩
      · rw [hblist, List.getElem?_append_left hlt]
      · have hb : b = t.region.blist.length := by
          simp only [hblist, List.length_append, List.length_singleton] at hlt
          omega
        rw [hblist, hb, hnew]
    · refine ⟨by rw [hblist, List.getElem?_append_left h.lt, h.blk], h.range, fun a' b hb => ?_⟩
      rw [hblist, List.length_append]
      exact Nat.lt_of_lt_of_le (h.bound a' b hb) (Nat.le_add_right _ _)

/-- A branch at the end of the current block. -/
lemma Open.translateBrcc (h : Open t c pre) (raw : BitVec 32) (cc : CondCode) :
    ∃ bt bf, (t.translateBrcc raw cc).region.blist[c]? =
        some { ilist := pre ++ [.mkBrcc cc (gprop (rs1 raw)) (gprop (rs2 raw))]
               succs := [bt, bf] } ∧
      EntryAt (t.translateBrcc raw cc) bt (t.insn_ip + immB raw) ∧
      EntryAt (t.translateBrcc raw cc) bf (t.insn_ip + 4) ∧ Keeps c t (t.translateBrcc raw cc) := by
  obtain ⟨hf, hk1, hr1⟩ := h.makeTarget (t.insn_ip + 4)
  have hip := (Translator.makeTarget_fields t (t.insn_ip + 4)).1
  rw [Translator.translateBrcc]
  generalize t.makeTarget (t.insn_ip + 4) = x at hf hk1 hr1 hip ⊢
  obtain ⟨bf, t1⟩ := x
  simp only at hf hk1 hr1 hip ⊢
  rw [hip]
  obtain ⟨ht, hk2, hr2⟩ := hr1.makeTarget (t.insn_ip + immB raw)
  generalize t1.makeTarget (t.insn_ip + immB raw) = y at ht hk2 hr2 ⊢
  obtain ⟨bt, t2⟩ := y
  simp only at ht hk2 hr2 ⊢
  have hk : Keeps c t t2 := hk1.trans hk2 h.lt
  set t3 := (({ t2 with bb := t.bb }.create
    (.mkBrcc cc (gprop (rs1 raw)) (gprop (rs2 raw)))).addSucc bt).addSucc bf with ht3
  have hk3 : Keeps c t2 t3 := by
    refine .of_modify rfl (.refl _) id (f := fun blk =>
      { ilist := blk.ilist ++ [.mkBrcc cc (gprop (rs1 raw)) (gprop (rs2 raw))],
        succs := blk.succs ++ [bt] ++ [bf] }) ?_
    simp only [ht3, Translator.addSucc, Region.addSucc, Translator.create, Region.create,
      Region.modifyBlock, h.bb, List.modify_modify_eq]
    rfl
  refine ⟨bt, bf, ?_, ht.mono hk3 hr2.range, (hf.mono hk2 hr1.range).mono hk3 hr2.range,
    hk.trans hk3 h.lt⟩
  simp [ht3, Translator.addSucc, Region.addSucc, Translator.create, Region.create,
    Region.modifyBlock, h.bb, hr2.blk, applyFolder, Inst.mkBrcc]

/-! ### Ranges -/

lemma extends_insnVRegs (f : Family) (raw : BitVec 32) (vi : VRegsInfo) :
    vi.Extends (insnVRegs f raw vi) := by
  rw [insnVRegs]
  split
  · exact .addLocal vi .I32
  · exact .refl vi

lemma locals_insnVRegs (f : Family) (raw : BitVec 32) {vi : VRegsInfo}
    (h : ∀ ty ∈ vi.locInfo, ty = .I32) : ∀ ty ∈ (insnVRegs f raw vi).locInfo, ty = .I32 := by
  rw [insnVRegs]
  split
  · intro ty hty
    rcases List.mem_append.mp hty with hty | hty
    · exact h ty hty
    · exact List.mem_singleton.mp hty
  · exact h

/-- The code of an instruction without a temporary does not depend on the temporary's number. -/
lemma insnCode_congr {f : Family} {raw : BitVec 32} (h : usesTemp f raw = false)
    (ip : BitVec 32) (tmp tmp' : ℕ) : insnCode f raw ip tmp = insnCode f raw ip tmp' := by
  cases f with
  | jalr => cases h
  | load sz sgn =>
    have h0 : immI raw = 0 := by simpa [usesTemp] using h
    simp [insnCode, bodyCode, loadCode, addressCode, addressOpr, h0]
  | store sz =>
    have h0 : immS raw = 0 := by simpa [usesTemp] using h
    simp [insnCode, bodyCode, storeCode, addressCode, addressOpr, h0]
  | _ => rfl

/-- The temporary that the code of an instruction names. -/
lemma exists_goodTemp (t t' : Translator) (raw : BitVec 32)
    (hvi : t.region.vregsInfo.globInfo = stateInfo)
    (hext : (insnVRegs (family (decode raw)) raw t.region.vregsInfo).Extends t'.region.vregsInfo)
    (hfit : t'.region.vregsInfo.numAll ≤ 2 ^ 16) :
    ∃ tmp, GoodTemp t' raw tmp ∧
      (usesTemp (family (decode raw)) raw = true → tmp = t.nextTemp) ∧
      ∀ ip, insnCode (family (decode raw)) raw ip t.nextTemp =
        insnCode (family (decode raw)) raw ip tmp := by
  by_cases hu : usesTemp (family (decode raw)) raw = true
  · have hle := hext.numAll_le
    rw [insnVRegs, if_pos hu, VRegsInfo.numAll_addLocal] at hle
    have hnum : t.nextTemp = t.region.vregsInfo.numAll := VRegsInfo.addLocal_fst (by omega) _
    refine ⟨t.nextTemp, ⟨?_, fun _ => by omega⟩, fun _ => rfl, fun _ => rfl⟩
    rw [hnum, VRegsInfo.numAll, hvi, length_stateInfo]
    omega
  · exact ⟨32, ⟨le_rfl, fun h => absurd h hu⟩, fun h => absurd h hu,
      fun ip => insnCode_congr (by simpa using hu) ip _ _⟩

/-- The addresses of the instructions of a range from `ip` on, of which `n` are left at most: up to
the first that ends its block, or to the boundary. -/
def rangeIps (prog : BitVec 32 → BitVec 32) (boundary_ip : BitVec 32) :
    ℕ → BitVec 32 → List (BitVec 32)
  | 0, _ => []
  | n + 1, ip =>
      ip :: if (family (decode (prog ip))).ends ∨ boundary_ip ≤ ip + 4 then []
        else rangeIps prog boundary_ip n (ip + 4)

/-- The addresses of the instructions that the block for `a` covers: none if no range of the job
starts there. -/
def jobIps (prog : BitVec 32 → BitVec 32) (ranges : List (BitVec 32 × BitVec 32))
    (a : BitVec 32) : List (BitVec 32) :=
  (ranges.lookup a).elim [] fun boundary_ip => rangeIps prog boundary_ip TB_MAX_INSNS a

lemma length_rangeIps_le (prog : BitVec 32 → BitVec 32) (boundary : BitVec 32) (n : ℕ)
    (ip : BitVec 32) : (rangeIps prog boundary n ip).length ≤ n := by
  induction n generalizing ip with
  | zero => exact Nat.le_refl 0
  | succ n ih =>
    rw [rangeIps, List.length_cons]
    split
    · exact Nat.le_add_left 1 n
    · exact Nat.succ_le_succ (ih (ip + 4))

lemma length_jobIps_le (prog : BitVec 32 → BitVec 32) (ranges : List (BitVec 32 × BitVec 32))
    (a : BitVec 32) : (jobIps prog ranges a).length ≤ TB_MAX_INSNS := by
  rw [jobIps]
  cases ranges.lookup a with
  | none => exact Nat.zero_le _
  | some boundary => exact length_rangeIps_le prog boundary TB_MAX_INSNS a

/-- What the translator has made of the instructions from `t.insn_ip` on, in block `c`. -/
def Done (prog : BitVec 32 → BitVec 32) (boundary : BitVec 32) (t : Translator) (c : ℕ)
    (pre : List Inst) (n : ℕ) (t' : Translator) : Prop :=
  Keeps c t t' ∧ (t'.region.vregsInfo.numAll ≤ 2 ^ 16 → ∃ code succs,
    t'.region.blist[c]? = some { ilist := pre ++ code, succs := succs } ∧
    Covers prog t' (rangeIps prog boundary n t.insn_ip).length t.insn_ip code succs)

lemma Keeps.of_eq (hip : t'.ip2bb = t.ip2bb) (hr : t'.region = t.region) : Keeps c t t' := by
  refine ⟨hip, by rw [hr]; exact .refl _, by rw [hr]; exact id, by rw [hr], fun b _ _ => by rw [hr],
    fun b hge hlt => ?_⟩
  rw [hr] at hlt
  omega

lemma family_of_translateInsn (ht : t.translateInsn prog = some t') :
    family (decode (prog t.insn_ip)) ≠ .illegal := by
  intro hf
  simp only [Translator.translateInsn, Translator.handler, Translator.body_family, hf,
    Translator.bodyFamily] at ht
  cases ht

/-- The code of the next instruction. -/
def nextCode (prog : BitVec 32 → BitVec 32) (t : Translator) : List Inst :=
  insnCode (family (decode (prog t.insn_ip))) (prog t.insn_ip) t.insn_ip t.nextTemp

/-- How an instruction at address `a` that leaves its block ends it. -/
inductive Exit (prog : BitVec 32 → BitVec 32) (t : Translator) (a : BitVec 32) (tmp : ℕ) :
    List Inst → List ℕ → Prop
  | call {stub : RuntimeStubId} {trap : TrapCode}
      (hf : family (decode (prog a)) = .call stub trap) : Exit prog t a tmp [] []
  | jal {code : List Inst} {succs : List ℕ} (hf : family (decode (prog a)) = .jal)
      (hjump : Jump t (a + immJ (prog a)) code succs) : Exit prog t a tmp code succs
  | jalr (hf : family (decode (prog a)) = .jalr) :
      Exit prog t a tmp [.mkGBrind (.vgpr .I32 tmp)] []
  | brcc {cc : CondCode} {bt bf : ℕ} (hf : family (decode (prog a)) = .brcc cc)
      (ht : EntryAt t bt (a + immB (prog a))) (hf' : EntryAt t bf (a + 4)) :
      Exit prog t a tmp [.mkBrcc cc (gprop (rs1 (prog a))) (gprop (rs2 (prog a)))] [bt, bf]

/-- An instruction that leaves its block. -/
lemma Open.exit (h : Open t c pre) (hend : (family (decode (prog t.insn_ip))).ends = true)
    (ht : t.translateInsn prog = some t') :
    t'.control = .BRANCH ∧ Keeps c t t' ∧
      (insnVRegs (family (decode (prog t.insn_ip))) (prog t.insn_ip)
        t.region.vregsInfo).Extends t'.region.vregsInfo ∧
      ∃ code succs, t'.region.blist[c]? =
          some { ilist := pre ++ nextCode prog t ++ code, succs := succs } ∧
        Exit prog t' t.insn_ip t.nextTemp code succs := by
  have hill := family_of_translateInsn ht
  rw [Translator.translateInsn, Translator.handler_eq hill, Option.some.injEq] at ht
  rw [nextCode]
  set raw := prog t.insn_ip with hraw
  set f := family (decode raw) with hfam
  obtain ⟨ho, hk⟩ := h.emit (insnCode f raw t.insn_ip t.nextTemp)
    (extends_insnVRegs f raw t.region.vregsInfo) (locals_insnVRegs f raw)
  set u := t.emit (insnCode f raw t.insn_ip t.nextTemp) (insnVRegs f raw t.region.vregsInfo)
    with hu
  refine ⟨by rw [← ht, hend]; rfl, ?_⟩
  have hk' : Keeps c (Translator.exitFamily f raw t.nextTemp u) t' :=
    .of_eq (by rw [← ht]) (by rw [← ht])
  have hblist : t'.region.blist = (Translator.exitFamily f raw t.nextTemp u).region.blist := by
    rw [← ht]
  have hrange : ∀ v, Keeps c u v → ∃ a, v.find a = some c := fun v hv => by
    obtain ⟨a, ha⟩ := ho.range
    exact ⟨a, by rw [hv.find, ha]⟩
  obtain ⟨g, hf⟩ : ∃ g, f = g := ⟨f, rfl⟩
  rw [hf] at hk' hblist
  rw [hblist]
  cases g with
  | call stub trap =>
    refine ⟨hk.trans hk' h.lt, hk'.vregs, [], [], ?_, .call (hfam.symm.trans hf)⟩
    rw [List.append_nil]
    exact ho.blk
  | jal =>
    obtain ⟨code, succs, hblk, hjump, hkj⟩ := ho.makeGBr (t.insn_ip + immJ raw)
    exact ⟨(hk.trans hkj h.lt).trans hk' h.lt, (hkj.trans hk' ho.lt).vregs, code, succs, hblk,
      .jal (hfam.symm.trans hf) (hjump.mono hk')⟩
  | jalr =>
    obtain ⟨ho', hkj⟩ := ho.emit [.mkGBrind (.vgpr .I32 t.nextTemp)] (.refl _) id
    exact ⟨(hk.trans hkj h.lt).trans hk' h.lt, (hkj.trans hk' ho.lt).vregs, _, [], ho'.blk,
      .jalr (hfam.symm.trans hf)⟩
  | brcc cc =>
    obtain ⟨bt, bf, hblk, ht', hf', hkj⟩ := ho.translateBrcc raw cc
    exact ⟨(hk.trans hkj h.lt).trans hk' h.lt, (hkj.trans hk' ho.lt).vregs, _, [bt, bf], hblk,
      .brcc (hfam.symm.trans hf) (ht'.mono hk' (hrange _ hkj)) (hf'.mono hk' (hrange _ hkj))⟩
  | illegal => exact absurd hf hill
  | _ =>
    rw [hf] at hend
    cases hend

lemma Open.translateInsn_ends (h : Open t c pre) (hvi : t.region.vregsInfo.globInfo = stateInfo)
    (hend : (family (decode (prog t.insn_ip))).ends = true)
    (ht : t.translateInsn prog = some t') (boundary : BitVec 32) (n : ℕ) :
    Done prog boundary t c pre (n + 1) t' ∧ t'.control = .BRANCH := by
  obtain ⟨hctl, hk, hext, code, succs, hblk, hexit⟩ := h.exit hend ht
  refine ⟨⟨hk, fun hfit => ?_⟩, hctl⟩
  refine ⟨nextCode prog t ++ code, succs, by rw [hblk, List.append_assoc], ?_⟩
  rw [nextCode, rangeIps, if_pos (Or.inl hend), List.length_singleton]
  cases hexit with
  | call hf =>
    rw [List.append_nil]
    exact .call hf
  | jal hf hjump => exact .jal hf hjump
  | jalr hf =>
    obtain ⟨tmp, hgood, htmp, -⟩ := exists_goodTemp t t' _ hvi hext hfit
    obtain rfl := htmp (by rw [hf]; rfl)
    exact .jalr hf hgood
  | brcc hf htrue hfalse =>
    rw [hf]
    exact .brcc hf htrue hfalse

/-- An instruction that stays in its block. -/
lemma Open.next (h : Open t c pre) (hend : (family (decode (prog t.insn_ip))).ends = false)
    (ht : t.translateInsn prog = some t') :
    Open t' c (pre ++ nextCode prog t) ∧ Keeps c t t' ∧ t'.control = t.control ∧
      t'.insn_ip = t.insn_ip + 4 ∧ t'.region.vregsInfo =
        insnVRegs (family (decode (prog t.insn_ip))) (prog t.insn_ip) t.region.vregsInfo := by
  obtain ⟨t1, ht1, hemit, hip, hctl, hmap, hv⟩ :=
    Translator.handler_emits hend (prog t.insn_ip) t
  rw [Translator.translateInsn, ht1, Option.some.injEq] at ht
  subst ht
  have hext : t.region.vregsInfo.Extends t1.region.vregsInfo := by
    rw [hv]
    exact extends_insnVRegs _ _ _
  have hk : Keeps c t t1 := by
    have hb := hemit.blist
    rw [h.bb] at hb
    exact .of_modify hmap hext (by rw [hv]; exact locals_insnVRegs _ _) hb
  refine ⟨⟨⟨by simp [hemit.blist, h.bb, h.blk, nextCode], ?_, fun a b hb => ?_⟩,
    hemit.bb.trans h.bb⟩, hk, hctl, hip, hv⟩
  · obtain ⟨a, ha⟩ := h.range
    exact ⟨a, by rw [hk.find, ha]⟩
  · rw [hk.find] at hb
    exact Nat.lt_of_lt_of_le (h.bound a b hb) hk.length

/-- What follows an instruction that stays in its block. -/
lemma Open.done_step {n k : ℕ} {boundary : BitVec 32} (h : Open t c pre)
    (hvi : t.region.vregsInfo.globInfo = stateInfo)
    (hend : (family (decode (prog t.insn_ip))).ends = false) {t1 : Translator}
    (ht : t.translateInsn prog = some t1)
    (hlen : (rangeIps prog boundary (n + 1) t.insn_ip).length = k + 1)
    (hrest : Open t1 c (pre ++ nextCode prog t) → t1.control = t.control →
      t1.insn_ip = t.insn_ip + 4 → t1.region.vregsInfo.globInfo = stateInfo →
      Keeps c t1 t' ∧ (t'.region.vregsInfo.numAll ≤ 2 ^ 16 → ∃ code succs,
        t'.region.blist[c]? = some { ilist := pre ++ nextCode prog t ++ code, succs := succs } ∧
        Covers prog t' k (t.insn_ip + 4) code succs)) :
    Done prog boundary t c pre (n + 1) t' := by
  obtain ⟨ho, hk, hctl, hip, hv⟩ := h.next hend ht
  obtain ⟨hk', hcov⟩ := hrest ho hctl hip (by rw [hk.vregs.1, hvi])
  refine ⟨hk.trans hk' h.lt, fun hfit => ?_⟩
  obtain ⟨code, succs, hblk, hc⟩ := hcov hfit
  obtain ⟨tmp, hgood, -, heq⟩ := exists_goodTemp t t' (prog t.insn_ip) hvi
    (by rw [← hv]; exact hk'.vregs) hfit
  rw [hlen]
  refine ⟨_, succs, ?_, .step hend hgood hc⟩
  rw [hblk, nextCode, heq, List.append_assoc]

variable (prog) in
/-- The end of a range that is cut. -/
lemma Open.cut (h : Open t c pre) :
    Keeps c t ({ t with control := .TB_OVF }.makeGBr t.insn_ip) ∧ ∃ code succs,
      ({ t with control := .TB_OVF }.makeGBr t.insn_ip).region.blist[c]? =
        some { ilist := pre ++ code, succs := succs } ∧
      Covers prog ({ t with control := .TB_OVF }.makeGBr t.insn_ip) 0 t.insn_ip code succs := by
  have ho : Open { t with control := .TB_OVF } c pre := ⟨⟨h.blk, h.range, h.bound⟩, h.bb⟩
  obtain ⟨code, succs, hblk, hjump, hk⟩ := ho.makeGBr t.insn_ip
  exact ⟨⟨hk.ip2bb, hk.vregs, hk.locals, hk.length, hk.old, hk.fresh⟩, code, succs, hblk,
    .cut hjump⟩

/-- One round of the loop, given that the rounds after it are right. -/
lemma Open.loop_step {n : ℕ} {boundary : BitVec 32} (h : Open t c pre)
    (hctl : t.control = .NEXT) (hvi : t.region.vregsInfo.globInfo = stateInfo)
    (hnext : n ≠ 0 → ∀ t1 pre', Open t1 c pre' → t1.control = .NEXT →
      t1.region.vregsInfo.globInfo = stateInfo → Translator.loop prog boundary n t1 = some t' →
      Done prog boundary t1 c pre' n t')
    (ht : Translator.loop prog boundary (n + 1) t = some t') :
    Done prog boundary t c pre (n + 1) t' := by
  rw [Translator.loop] at ht
  obtain ⟨t1, ht1, ht⟩ := Option.bind_eq_some_iff.mp ht
  cases hend : (family (decode (prog t.insn_ip))).ends with
  | true =>
    obtain ⟨hdone, hb⟩ := h.translateInsn_ends hvi hend ht1 boundary n
    rw [hb, if_pos (by decide), Option.some.injEq] at ht
    subst ht
    exact hdone
  | false =>
    obtain ⟨-, -, hc, hip, -⟩ := h.next hend ht1
    rw [hc, hctl, if_neg (by decide), hip] at ht
    split at ht
    · -- the range is cut
      rename_i hcut
      have hlen : (rangeIps prog boundary (n + 1) t.insn_ip).length = 0 + 1 := by
        rw [rangeIps, List.length_cons]
        split
        · rfl
        · rename_i hgo
          obtain rfl : n = 0 := hcut.resolve_right fun hb => hgo (Or.inr hb)
          rfl
      refine h.done_step hvi hend ht1 hlen fun ho hc hip hv => ?_
      rw [Option.some.injEq, ← hip] at ht
      obtain ⟨hk, code, succs, hblk, hcov⟩ := ho.cut prog
      rw [ht] at hk hblk hcov
      rw [hip] at hcov
      exact ⟨hk, fun _ => ⟨code, succs, hblk, hcov⟩⟩
    · rename_i hcut
      obtain ⟨hn, hgo⟩ := not_or.mp hcut
      refine h.done_step hvi hend ht1 (k := (rangeIps prog boundary n (t.insn_ip + 4)).length) ?_
        fun ho hc hip hv => ?_
      · rw [rangeIps, if_neg (by rw [hend]; exact not_or.mpr ⟨Bool.false_ne_true, hgo⟩),
          List.length_cons]
      obtain ⟨hk, hdone⟩ := hnext hn t1 _ ho (hc.trans hctl) hv ht
      refine ⟨hk, fun hfit => ?_⟩
      rw [← hip]
      exact hdone hfit

/-- The loop over the instructions of a range. -/
lemma Open.loop {n : ℕ} {boundary : BitVec 32} (h : Open t c pre) (hctl : t.control = .NEXT)
    (hvi : t.region.vregsInfo.globInfo = stateInfo)
    (ht : Translator.loop prog boundary (n + 1) t = some t') :
    Done prog boundary t c pre (n + 1) t' := by
  induction n generalizing t pre with
  | zero => exact h.loop_step hctl hvi (fun hn => absurd rfl hn) ht
  | succ n ih => exact h.loop_step hctl hvi (fun _ t1 pre' ho hc hv h1 => ih ho hc hv h1) ht

/-! ### Regions -/

/-- The translator of the job `ranges` before the ranges `rs` are translated. -/
structure Progress (prog : BitVec 32 → BitVec 32) (ranges rs : List (BitVec 32 × BitVec 32))
    (t : Translator) : Prop where
  globInfo : t.region.vregsInfo.globInfo = stateInfo
  locals : ∀ ty ∈ t.region.vregsInfo.locInfo, ty = .I32
  bound : ∀ a b, t.find a = some b → b < t.region.blist.length
  inj : ∀ a a' b, t.find a = some b → t.find a' = some b → a = a'
  blocks : ∀ b < t.region.blist.length, (∃ a, t.find a = some b) ∨
    ∃ a, t.region.blist[b]? = some { ilist := [.mkGBr a] }
  pending : ∀ range ∈ rs, ranges.lookup range.1 = some range.2 ∧
    ∃ b, t.find range.1 = some b ∧ t.region.blist[b]? = some {}
  covered : t.region.vregsInfo.numAll ≤ 2 ^ 16 → ∀ a b, t.find a = some b →
    a ∉ rs.map Prod.fst → jobIps prog ranges a ≠ [] ∧ ∃ code succs,
      t.region.blist[b]? = some { ilist := code, succs := succs } ∧
      Covers prog t (jobIps prog ranges a).length a code succs

lemma Progress.translateIPRange {ranges rs : List (BitVec 32 × BitVec 32)}
    {ip boundary : BitVec 32} (h : Progress prog ranges ((ip, boundary) :: rs) t)
    (hnew : ip ∉ rs.map Prod.fst)
    (ht : Translator.translateIPRange prog ip boundary t = some t') :
    Progress prog ranges rs t' ∧ t'.ip2bb = t.ip2bb := by
  obtain ⟨hjob, c, hc, hblk⟩ := h.pending (ip, boundary) (by simp)
  rw [Translator.translateIPRange] at ht
  split at ht
  · cases ht
  rw [hc] at ht
  simp only at ht
  set u : Translator := { t with insn_ip := ip, bb := c, control := .NEXT } with hu
  have ho : Open u c [] := ⟨⟨hblk, ⟨ip, hc⟩, h.bound⟩, rfl⟩
  obtain ⟨hk, hdone⟩ := ho.loop rfl h.globInfo ht
  have hk' : Keeps c t t' := ⟨hk.ip2bb, hk.vregs, hk.locals, hk.length, hk.old, hk.fresh⟩
  refine ⟨⟨hk.vregs.1.trans h.globInfo, hk.locals h.locals, ?_, ?_, ?_, ?_, ?_⟩, hk.ip2bb⟩
  · intro a b hb
    rw [hk'.find] at hb
    exact Nat.lt_of_lt_of_le (h.bound a b hb) hk'.length
  · intro a a' b hb hb'
    rw [hk'.find] at hb hb'
    exact h.inj a a' b hb hb'
  · intro b hlt
    by_cases hb : b < t.region.blist.length
    · rcases h.blocks b hb with ⟨a, ha⟩ | ⟨a, ha⟩
      · exact Or.inl ⟨a, by rw [hk'.find, ha]⟩
      · by_cases hbc : b = c
        · exact Or.inl ⟨ip, by rw [hk'.find, hc, hbc]⟩
        · exact Or.inr ⟨a, by rw [hk'.old b hbc hb, ha]⟩
    · exact Or.inr (hk'.fresh b (by omega) hlt)
  · intro range hr
    obtain ⟨hrange, b, hb, hempty⟩ := h.pending range (List.mem_cons_of_mem _ hr)
    have hbc : b ≠ c := by
      rintro rfl
      have heq : ip = range.1 := h.inj _ _ _ hc hb
      rw [heq] at hnew
      exact hnew (List.mem_map_of_mem hr)
    exact ⟨hrange, b, by rw [hk'.find, hb], by rw [hk'.old b hbc (h.bound _ _ hb), hempty]⟩
  · intro hfit a b hb hnot
    rw [hk'.find] at hb
    by_cases ha : a = ip
    · subst ha
      rw [hc, Option.some.injEq] at hb
      subst hb
      rw [jobIps, hjob, Option.elim_some]
      exact ⟨List.cons_ne_nil _ _, hdone hfit⟩
    · obtain ⟨h1, code, succs, h3, h4⟩ := h.covered (hk'.vregs.numAll_le.trans hfit) a b hb
        (by simpa [ha] using hnot)
      have hbc : b ≠ c := by
        rintro rfl
        exact ha (h.inj _ _ _ hb hc)
      exact ⟨h1, code, succs, by rw [hk'.old b hbc (h.bound _ _ hb), h3], h4.mono hk' ⟨ip, hc⟩⟩

/-- The translator after the blocks of the ranges `done` have been created. -/
structure Inserted (done : List (BitVec 32 × BitVec 32)) (t : Translator) : Prop where
  vregsInfo : t.region.vregsInfo = ⟨stateInfo, []⟩
  empty : ∀ b < t.region.blist.length, t.region.blist[b]? = some {}
  found : ∀ a b, t.find a = some b → b < t.region.blist.length ∧ a ∈ done.map Prod.fst
  inj : ∀ a a' b, t.find a = some b → t.find a' = some b → a = a'
  blocks : ∀ b < t.region.blist.length, ∃ a, t.find a = some b
  ranges : ∀ range ∈ done, ∃ b, t.find range.1 = some b

lemma inserted_init : Inserted [] Translator.init := by
  refine ⟨rfl, fun b hb => ?_, fun a b h => ?_, fun a a' b h => ?_, fun b hb => ?_, by simp⟩
  · simp [Translator.init] at hb
  · simp [Translator.find, Translator.init] at h
  · simp [Translator.find, Translator.init] at h
  · simp [Translator.init] at hb

lemma Inserted.insertRange {done : List (BitVec 32 × BitVec 32)} (h : Inserted done t)
    (range : BitVec 32 × BitVec 32) (hnew : range.1 ∉ done.map Prod.fst) :
    Inserted (done ++ [range]) (t.insertRange range.1) := by
  have hnone : t.find range.1 = none := by
    cases hf : t.find range.1 with
    | none => rfl
    | some b => exact absurd (h.found _ b hf).2 hnew
  have hblist : (t.insertRange range.1).region.blist = t.region.blist ++ [({} : Block)] := rfl
  have hfind : ∀ a, (t.insertRange range.1).find a =
      if a = range.1 then some t.region.blist.length else t.find a := by
    intro a
    have hmap : (t.insertRange range.1).ip2bb =
        t.ip2bb ++ [(range.1, t.region.blist.length)] := by
      simp [Translator.insertRange, hnone, Region.createBlock]
    rw [Translator.find, hmap, List.lookup_append]
    split
    · rename_i ha
      rw [ha, show t.ip2bb.lookup range.1 = none from hnone]
      simp
    · rename_i ha
      have hne : (a == range.1) = false := by simpa using ha
      simp [List.lookup_cons, hne, Translator.find]
  have hlen : (t.insertRange range.1).region.blist.length = t.region.blist.length + 1 := by
    simp [hblist]
  refine ⟨h.vregsInfo, fun b hb => ?_, fun a b hab => ?_, fun a a' b hab hab' => ?_, fun b hb => ?_,
    fun r hr => ?_⟩
  · rw [hblist]
    rw [hlen] at hb
    by_cases hlt : b < t.region.blist.length
    · rw [List.getElem?_append_left hlt, h.empty b hlt]
    · obtain rfl : b = t.region.blist.length := by omega
      simp
  · rw [hfind] at hab
    rw [hlen, List.map_append]
    split at hab
    · rename_i ha
      cases hab
      exact ⟨by omega, by simp [ha]⟩
    · obtain ⟨h1, h2⟩ := h.found a b hab
      exact ⟨by omega, List.mem_append_left _ h2⟩
  · rw [hfind] at hab hab'
    split at hab <;> split at hab'
    · rename_i h1 h2
      rw [h1, h2]
    · cases hab
      exact absurd (h.found a' _ hab').1 (Nat.lt_irrefl _)
    · cases hab'
      exact absurd (h.found a _ hab).1 (Nat.lt_irrefl _)
    · exact h.inj a a' b hab hab'
  · rw [hlen] at hb
    by_cases hlt : b < t.region.blist.length
    · obtain ⟨a, ha⟩ := h.blocks b hlt
      refine ⟨a, ?_⟩
      rw [hfind, if_neg, ha]
      rintro rfl
      rw [hnone] at ha
      cases ha
    · obtain rfl : b = t.region.blist.length := by omega
      exact ⟨range.1, by rw [hfind, if_pos rfl]⟩
  · rw [hfind]
    split
    · exact ⟨_, rfl⟩
    · rename_i hne
      rcases List.mem_append.mp hr with hr | hr
      · exact h.ranges r hr
      · exact absurd (congrArg Prod.fst (List.mem_singleton.mp hr)) hne

lemma inserted_foldl (rs : List (BitVec 32 × BitVec 32)) {done : List (BitVec 32 × BitVec 32)}
    (h : Inserted done t)
    (hnodup : ((done ++ rs).map Prod.fst).Nodup) :
    Inserted (done ++ rs) (rs.foldl (fun t range => t.insertRange range.1) t) := by
  induction rs generalizing done t with
  | nil => simpa using h
  | cons range rs ih =>
    have hnew : range.1 ∉ done.map Prod.fst := by
      rw [List.map_append, List.map_cons] at hnodup
      exact fun hm => List.disjoint_of_nodup_append hnodup hm List.mem_cons_self
    rw [show done ++ range :: rs = done ++ [range] ++ rs by simp] at hnodup ⊢
    exact ih (h.insertRange range hnew) hnodup

/-- What is known of the translator of a job at its end. -/
structure Translated (prog : BitVec 32 → BitVec 32) (ranges : List (BitVec 32 × BitVec 32))
    (t : Translator) : Prop where
  entry : ∀ range ∈ ranges, ∃ b, t.find range.1 = some b
  globInfo : t.region.vregsInfo.globInfo = stateInfo
  locals : ∀ ty ∈ t.region.vregsInfo.locInfo, ty = .I32
  inj : ∀ a a' b, t.find a = some b → t.find a' = some b → a = a'
  blocks : ∀ b < t.region.blist.length, ∃ a, EntryAt t b a
  covered : t.region.vregsInfo.numAll ≤ 2 ^ 16 → ∀ a b, t.find a = some b →
    jobIps prog ranges a ≠ [] ∧ ∃ code succs,
      t.region.blist[b]? = some { ilist := code, succs := succs } ∧
      Covers prog t (jobIps prog ranges a).length a code succs

lemma progress_foldlM {ranges rs : List (BitVec 32 × BitVec 32)} (h : Progress prog ranges rs t)
    (hnodup : (rs.map Prod.fst).Nodup)
    (ht : rs.foldlM (fun t range => Translator.translateIPRange prog range.1 range.2 t) t =
      some t') : Progress prog ranges [] t' ∧ t'.ip2bb = t.ip2bb := by
  induction rs generalizing t with
  | nil =>
    cases ht
    exact ⟨h, rfl⟩
  | cons range rs ih =>
    obtain ⟨t1, h1, h2⟩ := FoldM.foldlM_cons_eq_some.mp ht
    rw [List.map_cons, List.nodup_cons] at hnodup
    obtain ⟨hp, hmap⟩ := h.translateIPRange hnodup.1 h1
    obtain ⟨hp', hmap'⟩ := ih hp hnodup.2 h2
    exact ⟨hp', hmap'.trans hmap⟩

/-- A job gives each of its ranges by its start. -/
lemma lookup_of_nodup {ranges : List (BitVec 32 × BitVec 32)}
    (hnodup : (ranges.map Prod.fst).Nodup) : ∀ range ∈ ranges,
      ranges.lookup range.1 = some range.2 := by
  induction ranges with
  | nil => exact fun _ hr => absurd hr List.not_mem_nil
  | cons r ranges ih =>
    intro range hr
    rw [List.map_cons, List.nodup_cons] at hnodup
    rw [List.lookup_cons]
    rcases List.mem_cons.mp hr with rfl | hr
    · simp
    · have hne : range.1 ≠ r.1 := fun h => hnodup.1 (h ▸ List.mem_map_of_mem hr)
      simp only [beq_eq_false_iff_ne.mpr hne]
      exact ih hnodup.2 range hr

variable (prog) in
/-- The translator of a job before its ranges are translated. -/
lemma progress_start {ranges : List (BitVec 32 × BitVec 32)}
    (hnodup : (ranges.map Prod.fst).Nodup) {t0 : Translator}
    (h0 : ranges.foldl (fun t range => Translator.insertRange t range.1) Translator.init = t0) :
    Progress prog ranges ranges t0 ∧ ∀ range ∈ ranges, ∃ b, t0.find range.1 = some b := by
  have hins := inserted_foldl ranges inserted_init (by simpa using hnodup)
  rw [List.nil_append, h0] at hins
  refine ⟨⟨by rw [hins.vregsInfo], by simp [hins.vregsInfo], fun a b h => (hins.found a b h).1,
    hins.inj, fun b hb => Or.inl (hins.blocks b hb), fun range hr => ?_, fun _ a b hb hnot => ?_⟩,
    hins.ranges⟩
  · obtain ⟨b, hb⟩ := hins.ranges range hr
    exact ⟨lookup_of_nodup hnodup range hr, b, hb, hins.empty b (hins.found _ b hb).1⟩
  · exact absurd (hins.found a b hb).2 hnot

/-- Every block of a translated job covers what it is entered for. -/
theorem translated_of_translate {ranges : List (BitVec 32 × BitVec 32)}
    (hnodup : (ranges.map Prod.fst).Nodup)
    (ht : Translator.translate prog ranges = some t) : Translated prog ranges t := by
  rw [Translator.translate] at ht
  obtain ⟨t0, h0⟩ : ∃ t0, ranges.foldl (fun t range => Translator.insertRange t range.1)
    Translator.init = t0 := ⟨_, rfl⟩
  rw [h0] at ht
  obtain ⟨hstart, hentry⟩ := progress_start prog hnodup h0
  obtain ⟨hp, hmap⟩ := progress_foldlM hstart hnodup ht
  have hfind : ∀ a, t.find a = t0.find a := fun a => by
    rw [Translator.find, hmap, Translator.find]
  refine ⟨fun range hr => ?_, hp.globInfo, hp.locals, hp.inj, fun b hb => ?_,
    fun hfit a b hb => hp.covered hfit a b hb (by simp)⟩
  · obtain ⟨b, hb⟩ := hentry range hr
    exact ⟨b, by rw [hfind, hb]⟩
  · by_cases hf : ∃ a, t.find a = some b
    · obtain ⟨a, ha⟩ := hf
      exact ⟨a, Or.inl ha⟩
    · obtain ⟨a, ha⟩ := (hp.blocks b hb).resolve_left hf
      exact ⟨a, Or.inr ⟨fun a' ha' => hf ⟨a', ha'⟩, ha⟩⟩

/-- A block is entered for one address only. -/
lemma Translated.entryAt_unique {ranges : List (BitVec 32 × BitVec 32)}
    (h : Translated prog ranges t) {a a' : BitVec 32} (h1 : EntryAt t b a)
    (h2 : EntryAt t b a') : a = a' := by
  rcases h1 with h1 | ⟨hn1, h1⟩ <;> rcases h2 with h2 | ⟨hn2, h2⟩
  · exact h.inj a a' b h1 h2
  · exact absurd h1 (hn2 a)
  · exact absurd h2 (hn1 a')
  · rw [h1] at h2
    injection h2 with h2
    injection h2 with h2
    injection h2 with h2 _
    injection h2 with hop
    injection hop

/-- The first block of a job with one range is entered for the start of the range. -/
lemma entryAt_translate_range {range : BitVec 32 × BitVec 32}
    (ht : Translator.translate prog [range] = some t) : EntryAt t 0 range.1 := by
  have hnodup : ([range].map Prod.fst).Nodup := List.nodup_singleton _
  obtain ⟨hstart, -⟩ := progress_start prog hnodup rfl
  obtain ⟨-, hmap⟩ := progress_foldlM hstart hnodup ht
  refine Or.inl ?_
  rw [Translator.find, hmap]
  simp [Translator.insertRange, Translator.init, Translator.find, Region.createBlock]

/-! ### Temporaries -/

/-- The number of temporaries of an instruction. -/
def insnTemps (raw : BitVec 32) : ℕ := if usesTemp (family (decode raw)) raw then 1 else 0

/-- The number of temporaries of a range, of which `n` instructions are left at most. -/
def rangeTemps (prog : BitVec 32 → BitVec 32) (boundary_ip : BitVec 32) : ℕ → BitVec 32 → ℕ
  | 0, _ => 0
  | n + 1, ip =>
      insnTemps (prog ip) +
        if (family (decode (prog ip))).ends ∨ n = 0 ∨ boundary_ip ≤ ip + 4 then 0
        else rangeTemps prog boundary_ip n (ip + 4)

/-- The number of virtual registers of a job. -/
def jobVRegs (prog : BitVec 32 → BitVec 32) (ranges : List (BitVec 32 × BitVec 32)) : ℕ :=
  32 + (ranges.map fun range => rangeTemps prog range.2 TB_MAX_INSNS range.1).sum

lemma makeGBr_vregsInfo (t : Translator) (ip : BitVec 32) :
    (t.makeGBr ip).region.vregsInfo = t.region.vregsInfo := by
  simp only [Translator.makeGBr]
  split <;> rfl

lemma exitFamily_vregsInfo (f : Family) (raw : BitVec 32) (tmp : ℕ) (t : Translator) :
    (Translator.exitFamily f raw tmp t).region.vregsInfo = t.region.vregsInfo := by
  have htarget : ∀ (u : Translator) (ip : BitVec 32),
      (u.makeTarget ip).2.region.vregsInfo = u.region.vregsInfo := by
    intro u ip
    simp only [Translator.makeTarget]
    split <;> rfl
  cases f with
  | jal => exact makeGBr_vregsInfo t _
  | brcc cc => exact (htarget _ _).trans (htarget _ _)
  | _ => rfl

lemma numAll_translateInsn (ht : t.translateInsn prog = some t') :
    t'.region.vregsInfo.numAll = t.region.vregsInfo.numAll + insnTemps (prog t.insn_ip) ∧
      t'.insn_ip = t.insn_ip + 4 ∧
      t'.control = if (family (decode (prog t.insn_ip))).ends then .BRANCH else t.control := by
  have hill := family_of_translateInsn ht
  rw [Translator.translateInsn, Translator.handler_eq hill, Option.some.injEq] at ht
  subst ht
  refine ⟨?_, rfl, rfl⟩
  simp only [exitFamily_vregsInfo, Translator.emit, insnVRegs, insnTemps]
  split
  · rw [VRegsInfo.numAll_addLocal]
  · rfl

lemma numAll_loop {n : ℕ} {boundary : BitVec 32} (hctl : t.control = .NEXT)
    (ht : Translator.loop prog boundary n t = some t') :
    t'.region.vregsInfo.numAll =
      t.region.vregsInfo.numAll + rangeTemps prog boundary n t.insn_ip := by
  induction n generalizing t with
  | zero =>
    cases ht
    rfl
  | succ n ih =>
    rw [Translator.loop] at ht
    obtain ⟨t1, ht1, ht⟩ := Option.bind_eq_some_iff.mp ht
    obtain ⟨hnum, hip, hc⟩ := numAll_translateInsn ht1
    rw [rangeTemps, ← Nat.add_assoc, ← hnum]
    cases hend : (family (decode (prog t.insn_ip))).ends with
    | true =>
      rw [hend, if_pos rfl] at hc
      rw [hc, if_pos (by decide), Option.some.injEq] at ht
      simp [ht]
    | false =>
      rw [hend, if_neg Bool.false_ne_true, hctl] at hc
      rw [hc, if_neg (by decide), hip] at ht
      split at ht
      · rename_i hcut
        rw [Option.some.injEq] at ht
        rw [if_pos (Or.inr hcut), ← ht, makeGBr_vregsInfo]
        rfl
      · rename_i hcut
        rw [if_neg (by simpa using hcut), ← hip]
        exact ih hc ht

/-- The number of virtual registers of a translated job. -/
lemma numAll_translate {ranges : List (BitVec 32 × BitVec 32)}
    (ht : Translator.translate prog ranges = some t) :
    t.region.vregsInfo.numAll = jobVRegs prog ranges := by
  have hinsert : ∀ (rs : List (BitVec 32 × BitVec 32)) (u : Translator),
      (rs.foldl (fun t range => t.insertRange range.1) u).region.vregsInfo =
        u.region.vregsInfo := by
    intro rs
    induction rs with
    | nil => exact fun _ => rfl
    | cons range rs ih => exact fun u => ih (u.insertRange range.1)
  have hranges : ∀ (rs : List (BitVec 32 × BitVec 32)) (u : Translator),
      rs.foldlM (fun t range => Translator.translateIPRange prog range.1 range.2 t) u = some t →
      t.region.vregsInfo.numAll = u.region.vregsInfo.numAll +
        (rs.map fun range => rangeTemps prog range.2 TB_MAX_INSNS range.1).sum := by
    intro rs
    induction rs with
    | nil =>
      intro u hu
      cases hu
      rfl
    | cons range rs ih =>
      intro u hu
      obtain ⟨u1, h1, h2⟩ := FoldM.foldlM_cons_eq_some.mp hu
      rw [Translator.translateIPRange] at h1
      split at h1
      · cases h1
      split at h1
      · rw [ih u1 h2, numAll_loop rfl h1, List.map_cons, List.sum_cons, Nat.add_assoc]
      · cases h1
  rw [hranges ranges _ ht, hinsert, jobVRegs]
  rfl

/-! ### Completion -/

/-- On legal words the loop completes. -/
lemma loop_isSome {boundary : BitVec 32} {n : ℕ} {t : Translator}
    (hlegal : ∀ ip ∈ rangeIps prog boundary n t.insn_ip, decode (prog ip) ≠ .illegal) :
    ∃ t', Translator.loop prog boundary n t = some t' := by
  induction n generalizing t with
  | zero => exact ⟨t, rfl⟩
  | succ n ih =>
    have hill : family (decode (prog t.insn_ip)) ≠ .illegal := by
      have hop := hlegal t.insn_ip List.mem_cons_self
      revert hop
      cases decode (prog t.insn_ip) <;> simp [family]
    obtain ⟨t1, h1⟩ : ∃ t1, t.translateInsn prog = some t1 :=
      ⟨_, Translator.handler_eq hill (prog t.insn_ip) t⟩
    obtain ⟨-, hip, hctl⟩ := numAll_translateInsn h1
    simp only [Translator.loop, h1, Option.bind_eq_bind, Option.bind_some]
    split
    · exact ⟨_, rfl⟩
    · rename_i hnext
      split
      · exact ⟨_, rfl⟩
      · rename_i hcut
        have hend : ¬ (family (decode (prog t.insn_ip))).ends = true := by
          intro he
          rw [if_pos he] at hctl
          exact hnext (by rw [hctl]; exact Control.noConfusion)
        have hgo : ¬ boundary ≤ t.insn_ip + 4 := by
          rw [← hip]
          exact fun hb => hcut (Or.inr hb)
        refine ih fun ip hmem => hlegal ip ?_
        rw [rangeIps, if_neg (not_or.mpr ⟨hend, hgo⟩), ← hip]
        exact List.mem_cons_of_mem _ hmem

/-- On legal words a job with proper ranges is translated. -/
theorem translate_isSome {ranges : List (BitVec 32 × BitVec 32)}
    (hlegal : ∀ ip, decode (prog ip) ≠ .illegal) (hnodup : (ranges.map Prod.fst).Nodup)
    (hbound : ∀ range ∈ ranges, range.2 ≠ 0) :
    ∃ t, Translator.translate prog ranges = some t := by
  have key : ∀ (rs : List (BitVec 32 × BitVec 32)) (t : Translator),
      Progress prog ranges rs t → (rs.map Prod.fst).Nodup → (∀ range ∈ rs, range.2 ≠ 0) →
      ∃ t', rs.foldlM (fun t range => Translator.translateIPRange prog range.1 range.2 t) t =
        some t' := by
    intro rs
    induction rs with
    | nil => exact fun t _ _ _ => ⟨t, rfl⟩
    | cons range rs ih =>
      intro t hp hn hb
      rw [List.map_cons, List.nodup_cons] at hn
      obtain ⟨-, c, hc, -⟩ := hp.pending range (by simp)
      obtain ⟨t1, h1⟩ : ∃ t1, Translator.translateIPRange prog range.1 range.2 t = some t1 := by
        simp only [Translator.translateIPRange, hb range (by simp), if_false, hc]
        exact loop_isSome fun ip _ => hlegal ip
      obtain ⟨t', h2⟩ := ih t1 (hp.translateIPRange hn.1 h1).1 hn.2
        fun r hr => hb r (List.mem_cons_of_mem _ hr)
      exact ⟨t', FoldM.foldlM_cons_eq_some.mpr ⟨t1, h1, h2⟩⟩
  exact key ranges _ (progress_start prog hnodup rfl).1 hnodup hbound

end Rv32jit.Translate
