/-
# The blocks of the host code

A call may leave anything in the registers that it destroys, and something else each time.  The
code that the allocator makes of a block does what the block does, whatever the calls leave there,
and it meets the constraints of the emitter.
-/
import Rv32jit.Codegen.Allocated
import Rv32jit.Codegen.EmitRun
import Rv32jit.Codegen.SelectRun

namespace Rv32jit.Qcg

open Qir ArchTraits

section
variable {helper : Helper} {vi vi' : VRegsInfo} {ins ins' : Inst} {ms l rest : List Inst}
  {s s' : QState} {r : Flow × QState}

/-! ### Calls with different effects -/

/-- What the calls leave in the registers that they destroy. -/
abbrev Clobber : Type := RuntimeStubId → (ℕ → BitVec 32) → ByteMem → ByteMem → ℕ → BitVec 32

variable (helper vi) in
/-- What a call destroys does not matter to the other operations. -/
lemma exec_clobber (hc : ins.op.hasCalls = false) (clobber clobber' : Clobber) (s : QState) :
    exec ⟨helper, clobber⟩ vi ins s = exec ⟨helper, clobber'⟩ vi ins s := by
  have hop : ∀ stub, ins.op ≠ .hcall stub := by
    intro stub h
    rw [h] at hc
    cases hc
  cases hl : ins.legal with
  | true => rw [exec_eq_eval hop hl, exec_eq_eval hop hl]
  | false => rw [exec_illegal hl, exec_illegal hl]

/-- Control runs through moves and the instruction behind them, or leaves the block there. -/
lemma Does.piece (hms : ∀ m ∈ ms, m.op.hasCalls = false)
    (h : Does helper vi (ms ++ ins' :: rest) s r) : ∃ clobber ev,
      (∃ s', Runs ⟨helper, clobber⟩ vi (ms ++ [ins']) s ev s' ∧ Does helper vi rest s' r) ∨
      ∀ rest', execList ⟨helper, clobber⟩ vi (ms ++ ins' :: rest') s = (ev, r) := by
  induction ms generalizing s with
  | nil =>
    obtain ⟨clobber, h⟩ := h
    refine ⟨clobber, (exec ⟨helper, clobber⟩ vi ins' s).1, ?_⟩
    split at h
    · rename_i hn
      refine .inl ⟨_, .single ?_, h⟩
      rw [← hn]
    · rename_i hn
      refine .inr fun rest' => ?_
      rw [List.nil_append, execList_cons_leave hn, h]
  | cons m ms ih =>
    obtain ⟨c, h⟩ := h
    split at h
    · rename_i hn
      obtain ⟨clobber, ev, hcases⟩ := ih (fun i hi => hms i (.tail _ hi)) h
      have hm := exec_clobber helper vi (hms m (.head _)) c clobber s
      rw [hm] at hn hcases
      refine ⟨clobber, (exec ⟨helper, clobber⟩ vi m s).1 ++ ev, ?_⟩
      rcases hcases with ⟨s', hrun, hrest⟩ | hleave
      · have hone : Runs ⟨helper, clobber⟩ vi [m] s (exec ⟨helper, clobber⟩ vi m s).1
            (exec ⟨helper, clobber⟩ vi m s).2.2 := .single (by rw [← hn])
        exact .inl ⟨s', hone.append hrun, hrest⟩
      · refine .inr fun rest' => ?_
        rw [List.cons_append, execList_cons_next hn, hleave]
    · rename_i hn
      refine ⟨c, (exec ⟨helper, c⟩ vi m s).1, .inr fun rest' => ?_⟩
      rw [List.cons_append, execList_cons_leave hn, h]

/-- Code that runs to its end does not leave its list. -/
lemma not_leaves_of_runs {env : HelperEnv} {x : List Event × Flow × QState} {ev : List Event}
    (h : Runs env vi l s ev s') : ¬ ∀ rest, execList env vi (l ++ rest) s = x := by
  intro hx
  have h1 := (h []).symm.trans (hx [])
  have h2 := (h [.mkBr]).symm.trans (hx [.mkBr])
  cases congrArg (fun x => x.2.1) (h1.trans h2.symm)

/-- An instruction whose code is moves and one instruction, in a run in which every call may have
another effect. -/
lemma Does.simulates {R R' E : QState → QState → Prop}
    (hsim : ∀ clobber, Simulates ⟨helper, clobber⟩ vi vi' R R' E ins (ms ++ [ins']))
    (hms : ∀ m ∈ ms, m.op.hasCalls = false) (hs : R s s')
    (h : Does helper vi' (ms ++ ins' :: rest) s' r) : ∃ clobber,
      ((exec ⟨helper, clobber⟩ vi ins s).2.1 = .next ∧
        ∃ s'', R' (exec ⟨helper, clobber⟩ vi ins s).2.2 s'' ∧ Does helper vi' rest s'' r) ∨
      ((exec ⟨helper, clobber⟩ vi ins s).2.1 ≠ .next ∧
        r.1 = (exec ⟨helper, clobber⟩ vi ins s).2.1 ∧
        (r.1 ≠ .stuck → E (exec ⟨helper, clobber⟩ vi ins s).2.2 r.2)) := by
  obtain ⟨clobber, ev, hcases⟩ := h.piece hms
  refine ⟨clobber, ?_⟩
  obtain ⟨hnext, hleave⟩ := hsim clobber s s' hs
  by_cases hn : (exec ⟨helper, clobber⟩ vi ins s).2.1 = .next
  · obtain ⟨s'', hs'', hrun⟩ := hnext hn
    have hruns : Runs ⟨helper, clobber⟩ vi' (ms ++ [ins']) s' _ s'' := hrun
    rcases hcases with ⟨t, ht, hrest⟩ | hout
    · rw [ht.unique hruns] at hrest
      exact .inl ⟨hn, s'', hs'', hrest⟩
    · have hout' : ∀ rest', execList ⟨helper, clobber⟩ vi' (ms ++ [ins'] ++ rest') s' =
          (ev, r) := by
        intro rest'
        rw [List.append_assoc]
        exact hout rest'
      exact absurd hout' (not_leaves_of_runs hruns)
  · obtain ⟨s'', hrun, hE⟩ := hleave hn
    rcases hcases with ⟨t, ht, -⟩ | hout
    · exact absurd hrun (not_leaves_of_runs ht)
    · have hr : execList ⟨helper, clobber⟩ vi' (ms ++ [ins'] ++ []) s' = (ev, r) := by
        rw [List.append_assoc]
        exact hout []
      rw [hrun] at hr
      obtain ⟨-, rfl⟩ := Prod.ext_iff.mp hr
      exact .inr ⟨hn, rfl, hE⟩

/-! ### Code on virtual registers -/

/-- The operand is no physical register. -/
def Unplaced : VOperand → Prop
  | .pgpr _ _ => False
  | _ => True

variable {o : VOperand} {g : ℕ → BitVec 32}

lemma readOpr_preg (ho : Unplaced o) : readOpr vi { s with preg := g } o = readOpr vi s o := by
  cases o with
  | pgpr t p => exact ho.elim
  | slot glob t k => cases glob <;> rfl
  | _ => rfl

lemma writeOpr_preg (ho : Unplaced o) (x : BitVec 32) :
    writeOpr vi { s with preg := g } o x = { writeOpr vi s o x with preg := g } := by
  cases o with
  | pgpr t p => exact ho.elim
  | vgpr t v => cases hg : vi.getGlobalInfo v <;> simp [writeOpr, hg]
  | slot glob t k => cases glob <;> rfl
  | _ => rfl

lemma writeOuts_preg {os : List VOperand} (ho : ∀ o ∈ os, Unplaced o) (xs : List (BitVec 32)) :
    writeOuts vi { s with preg := g } os xs = { writeOuts vi s os xs with preg := g } := by
  induction os generalizing s xs with
  | nil => cases xs <;> rfl
  | cons o os ih =>
    cases xs with
    | nil => rfl
    | cons x xs =>
      rw [writeOuts, writeOuts, writeOpr_preg (ho o (.head _))]
      exact ih (fun o ho' => ho o (.tail _ ho')) xs

variable (helper vi) in
/-- What is in the physical registers, and what a call leaves there, does not matter. -/
lemma exec_preg (hv : ∀ o ∈ ins.operands, Unplaced o)
    (clobber clobber' : Clobber) (s : QState) (g : ℕ → BitVec 32) : ∃ g',
      exec ⟨helper, clobber'⟩ vi ins { s with preg := g } =
        ((exec ⟨helper, clobber⟩ vi ins s).1, (exec ⟨helper, clobber⟩ vi ins s).2.1,
          { (exec ⟨helper, clobber⟩ vi ins s).2.2 with preg := g' }) := by
  have hread : ins.i.map (readOpr vi { s with preg := g }) = ins.i.map (readOpr vi s) :=
    List.map_congr_left fun o ho => readOpr_preg (hv o (List.mem_append_right _ ho))
  cases hl : ins.legal with
  | false =>
    rw [exec_illegal hl, exec_illegal hl]
    exact ⟨g, rfl⟩
  | true =>
    by_cases hcall : ∃ stub, ins.op = .hcall stub
    · obtain ⟨stub, hop⟩ := hcall
      simp only [exec, hl, if_true, hop, hread]
      exact ⟨_, rfl⟩
    · push Not at hcall
      rw [exec_eq_eval hcall hl, exec_eq_eval hcall hl, hread]
      have hout : ∀ (u : QState) (xs : List (BitVec 32)),
          writeOuts vi { u with preg := g } ins.o xs = { writeOuts vi u ins.o xs with preg := g } :=
        fun u => writeOuts_preg fun o ho => hv o (List.mem_append_left _ ho)
      refine ⟨g, Prod.ext rfl (Prod.ext rfl ?_)⟩
      exact hout { s with mem := (ins.op.eval (ins.i.map (readOpr vi s)) s.mem).mem } _

/-- However the calls differ in what they destroy, the list does what it does in one
environment. -/
lemma Does.execList (hv : ∀ ins ∈ l, ∀ o ∈ ins.operands, Unplaced o)
    (h : Does helper vi l { s with preg := g } r)
    (clobber : Clobber) :
    r.1 = (Qir.execList ⟨helper, clobber⟩ vi l s).2.1 ∧
      SameState (Qir.execList ⟨helper, clobber⟩ vi l s).2.2 r.2 := by
  induction l generalizing s g with
  | nil =>
    obtain rfl : r = (.stuck, { s with preg := g }) := h
    exact ⟨rfl, rfl, rfl⟩
  | cons ins l ih =>
    obtain ⟨c, h⟩ := h
    obtain ⟨g', hexec⟩ := exec_preg helper vi (hv ins (.head _)) clobber c s g
    rw [hexec] at h
    by_cases hn : (exec ⟨helper, clobber⟩ vi ins s).2.1 = .next
    · rw [if_pos hn] at h
      rw [execList_cons_next hn]
      exact ih (fun i hi => hv i (.tail _ hi)) h
    · rw [if_neg hn] at h
      rw [execList_cons_leave hn, h]
      exact ⟨rfl, rfl, rfl⟩

end

/-! ### The code of the allocator -/

namespace QRegAlloc

variable {vi : VRegsInfo} {N W : ℕ → Prop} {ra ra' : QRegAlloc} {is_leaf : Bool} {l : List Inst}

lemma hasCalls_of_shuffle {m : Inst} (h : Shuffle m) : m.op.hasCalls = false := by
  rw [h.op]
  rfl

/-- The code `δ` consists of the pieces that the allocator leaves in place of the instructions. -/
def EmitsAll (is_leaf : Bool) (l δ : List Inst) : Prop :=
  ∃ pieces : List (List Inst), δ = pieces.flatten ∧ List.Forall₂ (Emits is_leaf) l pieces

namespace EmitsAll

variable {δ : List Inst}

lemma constrained (h : EmitsAll is_leaf l δ) : ∀ i ∈ δ, Constrained is_leaf i := by
  obtain ⟨pieces, rfl, hall⟩ := h
  intro i hi
  obtain ⟨p, hp, hi⟩ := List.mem_flatten.mp hi
  obtain ⟨ins, -, ms, ins', rfl, hms, -, hcon⟩ := QSel.forall₂_mem_right hall hp
  rcases List.mem_append.mp hi with hi | hi
  · exact (hms i hi).constrained is_leaf
  · rw [List.mem_singleton.mp hi]
    exact hcon

/-- Where control does not leave the instructions, it does not leave the code. -/
lemma stays (h : EmitsAll is_leaf l δ) (hl : ∀ ins ∈ l, ins.op.leaves = false) :
    ∀ i ∈ δ, i.op.leaves = false := by
  obtain ⟨pieces, rfl, hall⟩ := h
  intro i hi
  obtain ⟨p, hp, hi⟩ := List.mem_flatten.mp hi
  obtain ⟨ins, hins, ms, ins', rfl, hms, hop, -⟩ := QSel.forall₂_mem_right hall hp
  rcases List.mem_append.mp hi with hi | hi
  · rw [(hms i hi).op]
    rfl
  · rw [List.mem_singleton.mp hi, hop]
    exact hl ins hins

/-- The code of a block is left at its end, as the block is. -/
lemma terminated {blk blk' : Block} {body : List Inst} {last : Inst}
    (h : EmitsAll is_leaf blk.ilist blk'.ilist) (hs : blk'.succs = blk.succs)
    (ht : Terminated blk body last) : ∃ body' last', Terminated blk' body' last' := by
  obtain ⟨pieces, hp, hall⟩ := h
  rw [ht.ilist] at hall
  obtain ⟨pb, pl, hb, hlast, rfl⟩ : ∃ pb pl, List.Forall₂ (Emits is_leaf) body pb ∧
      Emits is_leaf last pl ∧ pieces = pb ++ [pl] := by
    have htake := List.forall₂_take_append pieces body [last] hall.flip
    have hdrop := List.forall₂_drop_append pieces body [last] hall.flip
    rw [List.forall₂_cons_right_iff] at hdrop
    obtain ⟨pl, _, hl, hnil, heq⟩ := hdrop
    rw [List.forall₂_nil_right_iff.mp hnil] at heq
    exact ⟨pieces.take body.length, pl, htake.flip, hl,
      (List.take_append_drop _ _).symm.trans (congrArg _ heq)⟩
  obtain ⟨ms, ins', rfl, hms, hop, -⟩ := hlast
  have hbody : EmitsAll is_leaf body pb.flatten := ⟨pb, rfl, hb⟩
  refine ⟨pb.flatten ++ ms, ins', ?_, fun i hi => ?_, ?_, ?_⟩
  · rw [hp]
    simp
  · rcases List.mem_append.mp hi with hi | hi
    · exact hbody.stays ht.stays i hi
    · rw [(hms i hi).op]
      rfl
  · rw [hop]
    exact ht.leaves
  · rw [hs, hop]
    exact ht.succs

end EmitsAll

/-- The code in place of a list of instructions meets the constraints of the emitter, and does what
the list does, also where every call has another effect. -/
lemma runInsts_does (hs : Sized vi) (hi : Inv vi N ra) (hg : GoodList vi N W l)
    (hp : ∀ ins ∈ l, Plain ins) (hleaf : ∀ ins ∈ l, ins.op.hasCalls = true → is_leaf = false)
    (h : l.foldlM runInst ra = some ra') :
    ∃ δ, ra'.code = ra.code ++ δ ∧ EmitsAll is_leaf l δ ∧
      ∀ (helper : Helper) (s s' : QState) (r' : Flow × QState), Match vi W ra s s' →
        Does helper vi δ s' r' → ∃ r, Does helper vi l s r ∧ r'.1 = r.1 ∧
          (r.1 ≠ .stuck → SameState r.2 r'.2) := by
  induction l generalizing W ra with
  | nil =>
    rw [FoldM.foldlM_nil_eq_some] at h
    subst h
    refine ⟨[], by simp, ⟨[], rfl, .nil⟩, fun helper s s' r' _ hd => ⟨(.stuck, s), rfl, ?_, ?_⟩⟩
    · rw [show r' = (.stuck, s') from hd]
    · exact fun hne => absurd rfl hne
  | cons ins l ih =>
    obtain ⟨ra₁, h₁, h₂⟩ := FoldM.foldlM_cons_eq_some.mp h
    obtain ⟨δ, hδ, hemits⟩ :=
      runInst_emits hs hi hg.1 (hp ins (.head _)) (hleaf ins (.head _)) h₁
    obtain ⟨ms, ins', rfl, hms, -⟩ := id hemits
    have hi₁ := (runInst_spec idleEnv hi hg.1 h₁).1
    obtain ⟨ε, hε, ⟨pieces, rfl, hall⟩, hrest⟩ := ih hi₁ hg.2 (fun i hi => hp i (.tail _ hi))
      (fun i hi => hleaf i (.tail _ hi)) h₂
    refine ⟨ms ++ [ins'] ++ pieces.flatten, by rw [hε, hδ, List.append_assoc],
      ⟨(ms ++ [ins']) :: pieces, rfl, .cons hemits hall⟩, fun helper s s' r' hm hd => ?_⟩
    · -- for every effect of a call the code is the same
      have hsim : ∀ clobber, Replaces ⟨helper, clobber⟩ vi W ra ra₁ ins (ms ++ [ins']) := by
        intro clobber
        obtain ⟨-, -, δ', hδ', hrep⟩ := runInst_spec ⟨helper, clobber⟩ hi hg.1 h₁
        rw [hδ] at hδ'
        rwa [List.append_cancel_left hδ']
      rw [List.append_assoc, List.singleton_append] at hd
      obtain ⟨clobber, hcases⟩ := hd.simulates hsim (fun m hm => hasCalls_of_shuffle (hms m hm)) hm
      rcases hcases with ⟨hn, s'', hm', hd'⟩ | ⟨hn, hfl, hsame⟩
      · obtain ⟨r, hr, heq, hsame⟩ := hrest helper _ _ r' hm' hd'
        refine ⟨r, ⟨clobber, ?_⟩, heq, hsame⟩
        rw [if_pos hn]
        exact hr
      · refine ⟨(exec ⟨helper, clobber⟩ vi ins s).2, ⟨clobber, ?_⟩, hfl, fun hns => hsame ?_⟩
        · rw [if_neg hn]
        · rwa [hfl]

/-- What is shown of a block: its successors stay, its code consists of pieces that the emitter can
encode, and it does what the block does. -/
structure BlockDone (is_leaf : Bool) (vi : VRegsInfo) (blk blk' : Block) : Prop where
  succs : blk'.succs = blk.succs
  emits : EmitsAll is_leaf blk.ilist blk'.ilist
  does : ∀ (helper : Helper) (s s' : QState) (r' : Flow × QState), SameState s s' →
    Does helper vi blk'.ilist s' r' → ∃ r, Does helper vi blk.ilist s r ∧ r'.1 = r.1 ∧
      (r.1 ≠ .stuck → SameState r.2 r'.2)

lemma runBlocks_done {bs bs' : List Block} (hs : Sized vi) (hi : Inv vi N ra)
    (hhome : AllHome ra) (hg : ∀ blk ∈ bs, GoodList vi N (fun _ => False) blk.ilist)
    (he : ∀ blk ∈ bs, EndsInExit blk) (hp : ∀ blk ∈ bs, ∀ ins ∈ blk.ilist, Plain ins)
    (hleaf : ∀ blk ∈ bs, ∀ ins ∈ blk.ilist, ins.op.hasCalls = true → is_leaf = false)
    (h : runBlocks ra bs = some bs') : List.Forall₂ (BlockDone is_leaf vi) bs bs' := by
  induction bs generalizing ra bs' with
  | nil =>
    cases h
    exact .nil
  | cons blk bs ih =>
    obtain ⟨⟨ra₁, blk₁⟩, h₁, h⟩ := Option.bind_eq_some_iff.mp h
    obtain ⟨rest, h₂, h⟩ := Option.bind_eq_some_iff.mp h
    cases h
    obtain ⟨hi₁, hhome₁, -⟩ := runBlock_spec idleEnv hi hhome (hg blk (.head _))
      (he blk (.head _)) h₁
    refine .cons ?_ (ih hi₁ hhome₁ (fun b hb => hg b (.tail _ hb)) (fun b hb => he b (.tail _ hb))
      (fun b hb => hp b (.tail _ hb)) (fun b hb => hleaf b (.tail _ hb)) h₂)
    obtain ⟨ra₂, hrun, h₁⟩ := Option.bind_eq_some_iff.mp h₁
    cases h₁
    have hi₀ : Inv vi N { ra with code := [] } :=
      ⟨hi.nVregs, hi.isGlobal, hi.type, hi.home, hi.outside, hi.p2v, hi.pool, hi.alive, hi.named,
        hi.frameSlot, hi.frameApart, hi.frameEnd⟩
    obtain ⟨δ, hδ, hcon, hdoes⟩ := runInsts_does hs hi₀ (hg blk (.head _)) (hp blk (.head _))
      (hleaf blk (.head _)) hrun
    rw [List.nil_append] at hδ
    have hhome₀ : AllHome { ra with code := [] } := hhome
    refine ⟨rfl, ?_, fun helper s s' r' hss => ?_⟩
    · rw [hδ]
      exact hcon
    · rw [hδ]
      exact hdoes helper s s' r' (.of_same hhome₀ hss)

/-! ### Loads to constants -/

end QRegAlloc

/-- The allocated blocks meet the constraints of the emitter, and do what the original ones do. -/
theorem run_regAlloc_done {r r' : Region} {is_leaf : Bool} (hal : Allocatable r) (hv : Virtual r)
    (hs : Sized r.vregsInfo) (hp : ∀ blk ∈ r.blist, ∀ ins ∈ blk.ilist, Plain ins)
    (hleaf : ∀ blk ∈ r.blist, ∀ ins ∈ blk.ilist, ins.op.hasCalls = true → is_leaf = false)
    (h : QRegAlloc.run r = some r') : r'.vregsInfo = r.vregsInfo ∧
      List.Forall₂ (QRegAlloc.BlockDone is_leaf r.vregsInfo) r.blist r'.blist := by
  obtain ⟨ra, hra, h⟩ := Option.bind_eq_some_iff.mp h
  obtain ⟨bs, hbs, h⟩ := Option.bind_eq_some_iff.mp h
  cases h
  obtain ⟨hi, hhome⟩ := QRegAlloc.start_spec (N := Named r) hra
  exact ⟨rfl, QRegAlloc.runBlocks_done hs hi hhome
    (fun blk hb => goodList_of_region hal hv hb (fun _ h => h) (hal.written blk hb)) hal.ends hp
    hleaf hbs⟩

section
open X86.Asm hiding SP CX

variable (helper : Helper) (h : Host Obj RuntimeStubId) (ce : QEmit) (vi : VRegsInfo)

/-- The code of a region: the prologue, and then the blocks, each behind its label and in front of
the next one. -/
structure Laid (blocks : List (ℕ × Block)) (code : Code) : Prop where
  nodup : (labels code).Nodup
  mem : ∀ p ∈ blocks, p.1 ∈ labels code
  prologue : Placed code 0 (ce.frameSetup.map .insn)
  first : ∀ p, blocks.head? = some p → code[ce.frameSetup.length]? = some (.label p.1)
  block : ∀ pre b blk post, blocks = pre ++ (b, blk) :: post → ∃ pos items,
    Placed code pos (.label b :: items) ∧
    Behind code ⟨blk.succs, post.head?.map Prod.fst⟩ (pos + 1 + items.length) ∧
    Follows helper h ce vi ⟨blk.succs, post.head?.map Prod.fst⟩ items blk.ilist

variable {helper h ce} {blocks : List (ℕ × Block)} {code : Code}

lemma laid_run (hcalls : Calls helper h)
    (hids : (blocks.map Prod.fst).Perm (List.range blocks.length))
    (he : ∀ p ∈ blocks, Emittable ce.is_leaf p.2.succs p.2.ilist) :
    ∃ code, ce.run blocks = some code ∧ Laid helper h ce vi blocks code := by
  obtain ⟨code, n, hrun, hperm, hfirst, -, hall⟩ :=
    runBlocks_follows vi hcalls blocks blocks.length he
  have hsetup : ∀ i ∈ ce.frameSetup, i.encodes = true := by
    rw [QEmit.frameSetup]
    cases ce.is_leaf <;> decide
  have hlabels : labels (ce.frameSetup.map .insn ++ code) = labels code := by
    rw [labels_append, labels_insns, List.nil_append]
  -- the labels of the slow paths are behind those of the blocks
  have hn : (labels (ce.frameSetup.map .insn ++ code)).Nodup := by
    rw [hlabels]
    refine (hperm.trans ((hids.append_right _).trans ?_)).nodup_iff.mpr
      (List.nodup_range (n := blocks.length + n))
    rw [List.range_eq_range', List.range_eq_range', ← List.range'_append_1, Nat.zero_add]
  refine ⟨ce.frameSetup.map .insn ++ code, ?_, hn, fun p hp => ?_, ?_, fun p hp => ?_,
    fun pre b blk post hb => ?_⟩
  · simp only [QEmit.run, asm_eq hsetup, hrun, Option.bind_eq_bind, Option.bind_some,
      Option.pure_def]
  · rw [hlabels]
    exact hperm.mem_iff.mpr (List.mem_append_left _ (List.mem_map_of_mem hp))
  · rw [Placed, List.drop_zero]
    exact List.prefix_append _ _
  · rw [List.getElem?_append_right (by simp), List.length_map, Nat.sub_self]
    exact hfirst p hp
  · obtain ⟨c₁, items, c₂, rfl, hfollows, hnext, hlast⟩ := hall pre b blk post hb
    let c₀ : Code := ce.frameSetup.map .insn ++ c₁
    have hsplit : ce.frameSetup.map .insn ++ (c₁ ++ .label b :: items ++ c₂) =
        c₀ ++ (.label b :: items) ++ c₂ := by simp [c₀]
    rw [hsplit] at hn ⊢
    have hend : c₀.length + 1 + items.length = (c₀ ++ (.label b :: items)).length := by
      simp only [List.length_append, List.length_cons]
      omega
    refine ⟨c₀.length, items, .of_eq rfl, ?_, hfollows⟩
    rw [hend]
    cases post with
    | nil =>
      rw [hlast rfl, List.append_nil]
      rfl
    | cons p post =>
      refine labelPos_of_get hn ?_
      rw [List.getElem?_append_right le_rfl, Nat.sub_self]
      exact hnext p rfl

/-- The code of a block does what the block does. -/
lemma Laid.refines (hl : Laid helper h ce vi blocks code) {pre post : List (ℕ × Block)} {b : ℕ}
    {blk : Block} (hb : blocks = pre ++ (b, blk) :: post)
    (hsuccs : ∀ b ∈ blk.succs, b ∈ blocks.map Prod.fst) :
    BlockRefines helper h ce vi code b blk (post.head?.map Prod.fst) := by
  obtain ⟨pos, items, hp, hbehind, hfollows⟩ := hl.block pre b blk post hb
  refine ⟨pos, labelPos_of_get hl.nodup hp.head, fun F s x hx => ?_⟩
  have hmem : ∀ b ∈ blk.succs, b ∈ labels code := by
    intro b hb
    obtain ⟨p, hp, rfl⟩ := List.mem_map.mp (hsuccs b hb)
    exact hl.mem p hp
  obtain ⟨r, c, hdoes, hreach, hleaves⟩ := hfollows F code _ s x hl.nodup hp.tail hbehind hmem hx
  exact ⟨r, c, hdoes, (Reaches.label hp.head).trans hreach, hleaves⟩

end

end Rv32jit.Qcg
