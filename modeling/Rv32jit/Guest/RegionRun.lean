/-
# Translated regions follow the interpreter

A run of a translated region, block by block, stays in step with the interpreter: at every
block boundary the interpreter has executed the covered instructions and stands at the address
for which the next block is entered.  This holds as long as the covered instructions contain no
jump to an address that is not a multiple of four, which the translated code takes without a trap,
and no load to `x0` with offset zero.
-/
import Rv32jit.Guest.LoadStore
import Rv32jit.Guest.Region

namespace Rv32jit.Translate

open Qir Insn CPUState Interp

/-- A taken jump or branch for which the interpreter raises `UNALIGNED_IP`. -/
def misaligned (raw : BitVec 32) (h : Hart) : Bool :=
  match family (decode raw) with
  | .jal => (immJ raw).srem 4 != 0
  | .jalr => ((h.gpr (rs1 raw) + immI raw) &&& ~~~1#32).umod 4 != 0
  | .brcc cc => cc.holds (h.gpr (rs1 raw)) (h.gpr (rs2 raw)) && (immB raw).srem 4 != 0
  | _ => false

/-- The next `n` instructions of the interpreter, up to a trap, have no misaligned target and no
load to `x0` with offset zero. -/
def Clean (prog : BitVec 32 → BitVec 32) : ℕ → Hart → Prop
  | 0, _ => True
  | n + 1, h =>
      isX0Load (family (decode (prog h.gip))) (prog h.gip) = false ∧
        misaligned (prog h.gip) h = false ∧
        ((step (prog h.gip) h).trapped = false → Clean prog n (step (prog h.gip) h).hart)

/-- The block for `a` ends with an indirect jump, by which control leaves the region. -/
def EndsIndirect (prog : BitVec 32 → BitVec 32) (ranges : List (BitVec 32 × BitVec 32))
    (a : BitVec 32) : Prop :=
  ∃ ip ∈ (jobIps prog ranges a).getLast?, family (decode (prog ip)) = .jalr

/-- Where the translated code stands when the interpreter has done `r`: at the block of the
address that the interpreter has reached, outside the region with that address, or in the same
trap. -/
def Follows (t : Translator) (out : Outcome) (s : QState) (r : Res) : Prop :=
  match out with
  | .at b => r.trapped = false ∧ EntryAt t b r.hart.gip ∧ Rel r.hart s
  | .gbr a | .gbrind a => r.trapped = false ∧ a = r.hart.gip ∧ Rel r.hart s
  | .trap => r.trapped = true ∧ s.cpu = r.hart.cpu ∧ s.mem = r.hart.mem
  | .stuck => False

variable {prog : BitVec 32 → BitVec 32} {t : Translator} {k : ℕ} {a : BitVec 32}
  {code : List Inst} {succs : List ℕ} {h : Hart} {s : QState}
  {other : RuntimeStubId → BitVec 32 → ByteMem → ByteMem → HelperRes}
  {clobber : RuntimeStubId → (ℕ → BitVec 32) → ByteMem → ByteMem → ℕ → BitVec 32}
  {env : HelperEnv} {vi : VRegsInfo}

/-! ### The ends of blocks -/

lemma execList_single_leave {ins : Inst} {x : List Event × Flow × QState}
    (h : exec env vi ins s = x) (hx : x.2.1 ≠ .next) : execList env vi [ins] s = x := by
  rw [execList_cons_leave (by rw [h]; exact hx), h]

/-- A code does what the interpreter has done when it reports `r`. -/
def Does (env : HelperEnv) (t : Translator) (code : List Inst) (succs : List ℕ) (s : QState)
    (r : Res) : Prop :=
  let x := execList env t.region.vregsInfo code s
  Follows t (leave succs x.2.1) x.2.2 r ∧ memAccesses x.1 = r.acc

/-- Code that leads to a state from which the rest does what is left. -/
lemma Does.of_runs {c : List Inst} {ev : List Event} {s' : QState} {r : Res} {acc : List Access}
    (hrun : Runs env t.region.vregsInfo c s ev s') (hev : memAccesses ev = acc)
    (h : Does env t code succs s' r) :
    Does env t (c ++ code) succs s { r with acc := acc ++ r.acc } := by
  obtain ⟨h1, h2⟩ := h
  rw [Does, hrun code]
  refine ⟨h1, ?_⟩
  simp only [memAccesses, List.map_append, List.filter_append] at hev h2 ⊢
  rw [hev, h2]

lemma Does.jump (hj : Jump t a code succs) (hr : Rel h s) (hip : h.gip = a) :
    Does env t code succs s { hart := h } := by
  cases hj with
  | br hb =>
    rw [Does, execList_single_leave (x := ([], .br 0, s)) rfl (by simp)]
    exact ⟨⟨rfl, Or.inl (by rw [hip, hb]), hr⟩, rfl⟩
  | gbr =>
    rw [Does, execList_single_leave (x := ([], .gbr a, s)) rfl (by simp)]
    exact ⟨⟨rfl, hip.symm, hr⟩, rfl⟩

lemma Does.brcc {cc : CondCode} {bt bf : ℕ} {x y : VOperand} {h' : Hart}
    (hx : x.isReadable = true) (hy : y.isReadable = true) (hr : Rel h' s)
    (htaken : cc.holds (readOpr t.region.vregsInfo s x) (readOpr t.region.vregsInfo s y) = true →
      EntryAt t bt h'.gip)
    (hnot : cc.holds (readOpr t.region.vregsInfo s x) (readOpr t.region.vregsInfo s y) = false →
      EntryAt t bf h'.gip) :
    Does env t [.mkBrcc cc x y] [bt, bf] s { hart := h' } := by
  have hexec : exec env t.region.vregsInfo (.mkBrcc cc x y) s = ([], .br (if cc.holds
      (readOpr t.region.vregsInfo s x) (readOpr t.region.vregsInfo s y) then 0 else 1), s) := by
    simp [exec, Inst.legal, Inst.mkBrcc, hx, hy, Op.eval, writeOuts]
  rw [Does, execList_single_leave hexec (by simp)]
  refine ⟨?_, rfl⟩
  cases hc : cc.holds (readOpr t.region.vregsInfo s x) (readOpr t.region.vregsInfo s y) with
  | true => exact ⟨rfl, htaken hc, hr⟩
  | false => exact ⟨rfl, hnot hc, hr⟩

lemma Does.gbrind {x : VOperand} {h' : Hart} (hx : x.isReadable = true) (hr : Rel h' s)
    (hval : readOpr t.region.vregsInfo s x = h'.gip) :
    Does env t [.mkGBrind x] [] s { hart := h' } := by
  have hexec : exec env t.region.vregsInfo (.mkGBrind x) s =
      ([], .gbrind (readOpr t.region.vregsInfo s x), s) := by
    simp [exec, Inst.legal, Inst.mkGBrind, hx, Op.eval, writeOuts]
  rw [Does, execList_single_leave hexec (by simp)]
  exact ⟨⟨rfl, hval, hr⟩, rfl⟩

/-! ### Runs of the interpreter -/

section Runs

variable (fetch : Hart → BitVec 32)

lemma runBy_of_trapped {n : ℕ} (ht : (step (fetch h) h).trapped = true) :
    runBy fetch (n + 1) h = step (fetch h) h := by
  simp [runBy, ht]

lemma runBy_succ {n : ℕ} (ht : (step (fetch h) h).trapped = false) :
    runBy fetch (n + 1) h = { runBy fetch n (step (fetch h) h).hart with
      acc := (step (fetch h) h).acc ++ (runBy fetch n (step (fetch h) h).hart).acc } := by
  simp [runBy, ht]

lemma runBy_one (h : Hart) :
    runBy fetch 1 h = step (fetch h) h := by
  simp only [runBy]
  obtain ⟨acc, h', tr⟩ := step (fetch h) h
  cases tr <;> simp

lemma runBy_add (m n : ℕ) (ht : (runBy fetch m h).trapped = false) :
    runBy fetch (m + n) h = { runBy fetch n (runBy fetch m h).hart with
      acc := (runBy fetch m h).acc ++ (runBy fetch n (runBy fetch m h).hart).acc } := by
  induction m generalizing h with
  | zero => simp [runBy]
  | succ m ih =>
    rw [Nat.add_right_comm]
    cases hs : (step (fetch h) h).trapped with
    | true =>
      rw [runBy_of_trapped fetch hs, hs] at ht
      cases ht
    | false =>
      rw [runBy_succ fetch hs] at ht ⊢
      rw [runBy_succ fetch hs, ih ht]
      simp only [List.append_assoc]

end Runs

lemma run_one (prog : BitVec 32 → BitVec 32) (h : Hart) :
    Interp.run prog 1 h = step (prog h.gip) h := runBy_one (fun h => prog h.gip) h

lemma run_of_trapped {n : ℕ} (ht : (step (prog h.gip) h).trapped = true) :
    Interp.run prog (n + 1) h = step (prog h.gip) h := 
  runBy_of_trapped (fun h => prog h.gip) ht

lemma run_succ {n : ℕ} (ht : (step (prog h.gip) h).trapped = false) :
    Interp.run prog (n + 1) h = { Interp.run prog n (step (prog h.gip) h).hart with
      acc := (step (prog h.gip) h).acc ++
        (Interp.run prog n (step (prog h.gip) h).hart).acc } := 
  runBy_succ (fun h => prog h.gip) ht

lemma run_add (m n : ℕ) (ht : (Interp.run prog m h).trapped = false) :
    Interp.run prog (m + n) h = { Interp.run prog n (Interp.run prog m h).hart with
      acc := (Interp.run prog m h).acc ++ (Interp.run prog n (Interp.run prog m h).hart).acc } :=
  runBy_add (fun h => prog h.gip) m n ht

/-! ### The interpreter's jumps and branches -/

lemma step_jal {raw : BitVec 32} (hf : family (decode raw) = .jal)
    (hm : misaligned raw h = false) (hr : Rel h s) :
    ∃ h', step raw h = { hart := h' } ∧ h'.gip = h.gip + immJ raw ∧
      Rel h' (setRd s raw (h.gip + 4)) := by
  simp only [misaligned, hf, bne_eq_false_iff_eq] at hm
  have hrd := hr.setRd raw (h.gip + 4)
  refine ⟨{ (h.setGpr (rd raw) (h.gip + 4)).setGpr 0 0 with
    gip := h.gip + immJ raw
    cpu := setIp ((h.setGpr (rd raw) (h.gip + 4)).setGpr 0 0).cpu (h.gip + immJ raw) }, ?_, rfl,
    (hrd.gip (h.gip + immJ raw)).setIp_left (h.gip + immJ raw)⟩
  rw [step, handler_family, hf]
  simp only [handlerFamily, implFamily, implJal, hm, Family.saves, Family.hasRd, Family.branches,
    ne_eq, not_true_eq_false, if_false, Bool.false_eq_true, if_true]
  rfl

lemma step_jalr {raw : BitVec 32} (hf : family (decode raw) = .jalr)
    (hm : misaligned raw h = false) (hr : Rel h s) :
    ∃ h', step raw h = { hart := h' } ∧
      h'.gip = (h.gpr (rs1 raw) + immI raw) &&& ~~~1#32 ∧ Rel h' (setRd s raw (h.gip + 4)) := by
  simp only [misaligned, hf, bne_eq_false_iff_eq] at hm
  have hrd := hr.setRd raw (h.gip + 4)
  refine ⟨{ (h.setGpr (rd raw) (h.gip + 4)).setGpr 0 0 with
    gip := (h.gpr (rs1 raw) + immI raw) &&& ~~~1#32
    cpu := setIp ((h.setGpr (rd raw) (h.gip + 4)).setGpr 0 0).cpu
      ((h.gpr (rs1 raw) + immI raw) &&& ~~~1#32) }, ?_, rfl,
    (hrd.gip ((h.gpr (rs1 raw) + immI raw) &&& ~~~1#32)).setIp_left _⟩
  rw [step, handler_family, hf]
  simp only [handlerFamily, implFamily, implJalr, Family.saves, Family.hasRd, Family.branches,
    if_false, Bool.false_eq_true, if_true]
  rw [if_neg (not_not.mpr hm)]
  rfl

lemma step_brcc {raw : BitVec 32} {cc : CondCode} (hf : family (decode raw) = .brcc cc)
    (hm : misaligned raw h = false) (hr : Rel h s) :
    ∃ h', step raw h = { hart := h' } ∧ Rel h' s ∧
      h'.gip = if cc.holds (h.gpr (rs1 raw)) (h.gpr (rs2 raw)) then h.gip + immB raw
        else h.gip + 4 := by
  simp only [misaligned, hf] at hm
  refine ⟨_, ?_, (hr.gip _).setIp_left (if cc.holds (h.gpr (rs1 raw)) (h.gpr (rs2 raw)) then
    h.gip + immB raw else h.gip + 4), rfl⟩
  rw [step, handler_family, hf]
  cases hc : cc.holds (h.gpr (rs1 raw)) (h.gpr (rs2 raw)) with
  | true =>
    simp only [hc, Bool.true_and, bne_eq_false_iff_eq] at hm
    simp only [handlerFamily, implFamily, implBranch, hc, hm, Family.saves, Family.hasRd,
      Family.branches, ne_eq, not_true_eq_false, if_false, Bool.false_eq_true, if_true,
      Bool.not_true]
    rfl
  | false =>
    simp only [handlerFamily, implFamily, implBranch, hc, Family.saves, Family.hasRd,
      Family.branches, if_false, Bool.false_eq_true, if_true, Bool.not_false]
    rfl

/-! ### Blocks -/

/-- The link register of a jump. -/
lemma runs_linkCode (hvi : vi.globInfo = stateInfo) (raw ip : BitVec 32) (s : QState) :
    Runs env vi (linkCode raw ip) s [] (setRd s raw (ip + 4)) :=
  runs_toRd hvi fun d hd => by rw [exec_mkMov hd rfl, readOpr_vconst]

/-- Assigning a guest register leaves the temporaries alone. -/
lemma readOpr_setRd (hvi : vi.globInfo = stateInfo) {tmp : ℕ} (h32 : 32 ≤ tmp)
    (s : QState) (raw v : BitVec 32) :
    readOpr vi (setRd s raw v) (.vgpr .I32 tmp) = readOpr vi s (.vgpr .I32 tmp) := by
  rw [setRd]
  split
  · rfl
  · simp [readOpr, getGlobalInfo_temp hvi h32]

variable (env) in
/-- The target of an indirect jump. -/
lemma runs_targetCode (hvi : vi.globInfo = stateInfo) {tmp : ℕ} (h32 : 32 ≤ tmp) (raw : BitVec 32)
    (s : QState) :
    ∃ s', Runs env vi (targetCode raw tmp) s [] s' ∧ s'.cpu = s.cpu ∧ s'.mem = s.mem ∧
      readOpr vi s' (.vgpr .I32 tmp) =
        (readOpr vi s (gprop (rs1 raw)) + immI raw) &&& ~~~1#32 := by
  -- the sum
  obtain ⟨c1, m1, r1⟩ := writeOpr_temp hvi s h32 (readOpr vi s (gprop (rs1 raw)) + immI raw)
  have hadd : exec env vi (foldAdd (.vgpr .I32 tmp) (gprop (rs1 raw)) (vconst (immI raw))) s =
      ([], .next, writeOpr vi s (.vgpr .I32 tmp)
        (readOpr vi s (gprop (rs1 raw)) + immI raw)) := by
    rw [exec_foldAdd rfl (isReadable_gprop _ _) rfl (fun _ _ => gprop_const)
      (fun t c h => by cases h; rfl), readOpr_vconst]
  generalize writeOpr vi s (.vgpr .I32 tmp) (readOpr vi s (gprop (rs1 raw)) + immI raw) = s1
    at c1 m1 r1 hadd
  -- the target
  obtain ⟨c2, m2, r2⟩ := writeOpr_temp hvi s1 h32
    ((readOpr vi s (gprop (rs1 raw)) + immI raw) &&& ~~~1#32)
  have hand : exec env vi (.mkAnd (.vgpr .I32 tmp) (.vgpr .I32 tmp) (vconst (~~~1#32))) s1 =
      ([], .next, writeOpr vi s1 (.vgpr .I32 tmp)
        ((readOpr vi s (gprop (rs1 raw)) + immI raw) &&& ~~~1#32)) := by
    have hq : exec env vi (Binop.inst ⟨.and, rfl, rfl⟩ (.vgpr .I32 tmp) (.vgpr .I32 tmp)
      (vconst (~~~1#32))) s1 = _ := exec_binop rfl rfl rfl s1
    rw [r1, readOpr_vconst] at hq
    exact hq
  exact ⟨_, .cons hadd (.single hand), c2.trans c1, m2.trans m1, r2⟩

/-- The target of an indirect jump is computed before the link register is written. -/
lemma runs_jalr (env : HelperEnv) (raw a : BitVec 32) (hvi : vi.globInfo = stateInfo) {tmp : ℕ}
    (h32 : 32 ≤ tmp) (hr : Rel h s) :
    ∃ s', Runs env vi (insnCode .jalr raw a tmp) s [] (setRd s' raw (a + 4)) ∧ Rel h s' ∧
      readOpr vi s' (.vgpr .I32 tmp) = (h.gpr (rs1 raw) + immI raw) &&& ~~~1#32 := by
  obtain ⟨s', hrun, hcpu, hmem, hval⟩ := runs_targetCode env hvi h32 raw s
  rw [readOpr_gprop_I32 hvi hr (rs1_lt raw)] at hval
  exact ⟨s', hrun.append (runs_linkCode hvi raw a s'), hr.of_cpu hcpu hmem, hval⟩

/-- The code that covers `k` instructions does what the interpreter does in `k` steps. -/
lemma Covers.does (hc : Covers prog t k a code succs)
    (hvi : t.region.vregsInfo.globInfo = stateInfo) (hr : Rel h s) (hip : h.gip = a)
    (hclean : Clean prog k h) :
    Does (helperEnv other clobber) t code succs s (Interp.run prog k h) := by
  induction hc generalizing h s with
  | step hend htmp hrest ih =>
    subst hip
    obtain ⟨hx0, -, hrest'⟩ := hclean
    obtain ⟨ev, hag⟩ := insnCode_agrees other clobber (prog h.gip) hend hx0 hvi htmp.ge hr rfl
    obtain ⟨s', hrun, hr'⟩ := hag.runs
    rw [run_succ hag.trapped]
    exact .of_runs hrun hag.acc (ih hr' hag.gip (hrest' hag.trapped))
  | call hf =>
    subst hip
    rename_i tmp stub trap
    obtain ⟨htrap, hacc, ev, s', hexec, hev, hcpu, hmem⟩ := insnCode_traps other clobber
      (prog h.gip) t.region.vregsInfo tmp hf hr rfl []
    rw [List.append_nil] at hexec
    rw [run_one, Does, hexec]
    exact ⟨⟨htrap, hcpu, hmem⟩, by rw [hev]; exact hacc.symm⟩
  | jal hf hjump =>
    subst hip
    obtain ⟨h', hstep, hgip, hr'⟩ := step_jal hf hclean.2.1 hr
    rw [run_one, hstep]
    rw [hf]
    exact .of_runs (runs_linkCode hvi _ _ s) rfl (.jump hjump hr' hgip)
  | jalr hf htmp =>
    subst hip
    obtain ⟨s1, hrun, hr1, hval⟩ := runs_jalr (helperEnv other clobber) (prog h.gip) h.gip hvi
      htmp.ge hr
    obtain ⟨h', hstep, hgip, hr'⟩ := step_jalr hf hclean.2.1 hr1
    rw [run_one, hstep, hf]
    refine .of_runs hrun rfl (.gbrind rfl hr' ?_)
    rw [readOpr_setRd hvi htmp.ge, hval, hgip]
  | brcc hf ht hf' =>
    subst hip
    obtain ⟨h', hstep, hr', hgip⟩ := step_brcc hf hclean.2.1 hr
    rw [run_one, hstep]
    refine .brcc (isReadable_gprop _ _) (isReadable_gprop _ _) hr' (fun hc => ?_) fun hc => ?_
    · rw [readOpr_gprop_I32 hvi hr (rs1_lt _), readOpr_gprop_I32 hvi hr (rs2_lt _)] at hc
      rw [hgip.trans (if_pos hc)]
      exact ht
    · rw [readOpr_gprop_I32 hvi hr (rs1_lt _), readOpr_gprop_I32 hvi hr (rs2_lt _)] at hc
      rw [hgip.trans (if_neg (by rw [Hart.gpr, Hart.gpr, hc]; exact Bool.false_ne_true))]
      exact hf'
  | cut hjump => exact .jump hjump hr hip

/-- Code that ends with an indirect jump has no block to go on with. -/
lemma Covers.succs_of_jalr {boundary : BitVec 32} {n : ℕ}
    (hc : Covers prog t (rangeIps prog boundary n a).length a code succs) {ip : BitVec 32}
    (hlast : ip ∈ (rangeIps prog boundary n a).getLast?)
    (hjalr : family (decode (prog ip)) = .jalr) : succs = [] := by
  induction n generalizing a code with
  | zero => simp [rangeIps] at hlast
  | succ n ih =>
    rw [rangeIps, List.length_cons] at hc
    rw [rangeIps, List.getLast?_cons, Option.mem_some_iff] at hlast
    obtain ⟨l, hl⟩ : ∃ l, l = (if (family (decode (prog a))).ends = true ∨ boundary ≤ a + 4 then []
      else rangeIps prog boundary n (a + 4)) := ⟨_, rfl⟩
    rw [← hl] at hc hlast
    cases hlst : l.getLast? with
    | none =>
      -- the only instruction is the jump
      rw [hlst, Option.getD_none] at hlast
      subst hlast
      rw [List.getLast?_eq_none_iff.mp hlst] at hc
      cases hc with
      | step hend =>
        rw [hjalr] at hend
        cases hend
      | jalr => rfl
      | call hf | jal hf | brcc hf => cases hf.symm.trans hjalr
    | some ip' =>
      rw [hlst, Option.getD_some] at hlast
      subst hlast
      split at hl
      · rw [hl] at hlst
        cases hlst
      · obtain ⟨m, hm⟩ : ∃ m, l.length = m + 1 := by
          refine Nat.exists_eq_add_one.mpr (List.length_pos_of_ne_nil ?_)
          rintro rfl
          cases hlst
        rw [hm] at hc
        cases hc with
        | step _ _ hrest =>
          rw [← hm, hl] at hrest
          exact ih hrest (hl ▸ hlst)

/-! ### Visited addresses -/

/-- The addresses that the interpreter reaches by its next `n` instructions. -/
def visited (prog : BitVec 32 → BitVec 32) : ℕ → Hart → List (BitVec 32)
  | 0, _ => []
  | n + 1, h =>
      if (step (prog h.gip) h).trapped then []
      else (step (prog h.gip) h).hart.gip :: visited prog n (step (prog h.gip) h).hart

lemma visited_add (m n : ℕ) (ht : (Interp.run prog m h).trapped = false) :
    visited prog (m + n) h = visited prog m h ++ visited prog n (Interp.run prog m h).hart := by
  induction m generalizing h with
  | zero => simp [Interp.run, runBy, visited]
  | succ m ih =>
    rw [Nat.add_right_comm]
    cases hs : (step (prog h.gip) h).trapped with
    | true =>
      rw [run_of_trapped hs, hs] at ht
      cases ht
    | false =>
      rw [run_succ hs] at ht ⊢
      simp only [visited, hs, Bool.false_eq_true, if_false, List.cons_append]
      rw [ih ht]

lemma gip_mem_visited {m : ℕ} (hm : 1 ≤ m) (ht : (Interp.run prog m h).trapped = false) :
    (Interp.run prog m h).hart.gip ∈ visited prog m h := by
  obtain ⟨m, rfl⟩ : ∃ n, m = n + 1 := ⟨m - 1, by omega⟩
  induction m generalizing h with
  | zero =>
    rw [run_one] at ht ⊢
    simp [visited, ht]
  | succ m ih =>
    cases hs : (step (prog h.gip) h).trapped with
    | true =>
      rw [run_of_trapped hs, hs] at ht
      cases ht
    | false =>
      rw [run_succ hs] at ht ⊢
      rw [visited, hs]
      simp only [Bool.false_eq_true, if_false]
      exact List.mem_cons_of_mem _ (ih (by omega) ht)

/-! ### Runs of a region -/

/-- The blocks that a trace enters. -/
def branches (ev : List Event) : List ℕ :=
  ev.filterMap fun e => match e.access with
    | .branch b => some b
    | _ => none

lemma branches_append (ev ev' : List Event) : branches (ev ++ ev') = branches ev ++ branches ev' :=
  List.filterMap_append

lemma memAccesses_append (ev ev' : List Event) :
    memAccesses (ev ++ ev') = memAccesses ev ++ memAccesses ev' := by
  simp [memAccesses]

/-- No instruction enters a block by itself. -/
lemma branches_exec (ins : Inst) (s : QState) : branches (exec env vi ins s).1 = [] := by
  by_cases hl : ins.legal = true
  · by_cases hop : ∃ stub, ins.op = .hcall stub
    · obtain ⟨stub, hop⟩ := hop
      simp [exec, hl, hop, branches]
    · rw [exec_eq_eval (fun stub h => hop ⟨stub, h⟩) hl]
      generalize ins.i.map (readOpr vi s) = vals
      simp only [branches, List.filterMap_map, Function.comp_def]
      cases ins.op <;> rcases vals with _ | ⟨x, _ | ⟨y, _ | ⟨z, l⟩⟩⟩ <;> rfl
  · rw [exec_illegal (by simpa using hl)]
    rfl

lemma branches_execList (l : List Inst) (s : QState) : branches (execList env vi l s).1 = [] := by
  induction l generalizing s with
  | nil => rfl
  | cons ins l ih =>
    by_cases hn : (exec env vi ins s).2.1 = .next
    · rw [execList_cons_next hn, branches_append, branches_exec, ih, List.append_nil]
    · rw [execList_cons_leave hn, branches_exec]

/-- A block without successors passes control to no other. -/
lemma leave_nil_ne_at (fl : Flow) (b : ℕ) : leave [] fl ≠ .at b := by
  cases fl <;> simp [leave]

variable (other clobber) in
/-- A block of a translated region does what the interpreter does in the instructions that the
block covers; it covers all of them, and one at least, if control stays in the region. -/
lemma block_follows {ranges : List (BitVec 32 × BitVec 32)} {b : ℕ} (ht : Translated prog ranges t)
    (hfit : t.region.vregsInfo.numAll ≤ 2 ^ 16) (hentry : EntryAt t b h.gip) (hr : Rel h s)
    (hclean : Clean prog (jobIps prog ranges h.gip).length h) :
    ∃ k ≤ (jobIps prog ranges h.gip).length,
      Follows t (execBlock (helperEnv other clobber) t.region b s).2.1
        (execBlock (helperEnv other clobber) t.region b s).2.2 (Interp.run prog k h) ∧
      memAccesses (execBlock (helperEnv other clobber) t.region b s).1 =
        (Interp.run prog k h).acc ∧
      branches (execBlock (helperEnv other clobber) t.region b s).1 = [] ∧
      (t.find h.gip = some b → 1 ≤ k) ∧
      ∀ b', (execBlock (helperEnv other clobber) t.region b s).2.1 = .at b' →
        k = (jobIps prog ranges h.gip).length ∧ 1 ≤ k ∧ ¬ EndsIndirect prog ranges h.gip := by
  rcases hentry with hfind | ⟨hfind, hblk⟩
  · obtain ⟨hne, code, succs, hblk, hcov⟩ := ht.covered hfit _ _ hfind
    have h1 : 1 ≤ (jobIps prog ranges h.gip).length := List.length_pos_of_ne_nil hne
    obtain ⟨hf, hacc⟩ := hcov.does ht.globInfo hr rfl hclean
    simp only [execBlock, hblk]
    refine ⟨_, le_rfl, hf, hacc, branches_execList _ _, fun _ => h1, fun b' hb' => ⟨rfl, h1, ?_⟩⟩
    rintro ⟨ip, hlast, hjalr⟩
    obtain rfl : succs = [] := by
      rw [jobIps] at hcov hlast
      cases hlook : ranges.lookup h.gip with
      | none =>
        rw [jobIps, hlook] at hne
        exact absurd rfl hne
      | some boundary =>
        rw [hlook, Option.elim_some] at hcov hlast
        exact hcov.succs_of_jalr hlast hjalr
    exact leave_nil_ne_at _ _ hb'
  · have hdoes : Does (helperEnv other clobber) t [.mkGBr h.gip] [] s { hart := h } :=
      .jump .gbr hr rfl
    obtain ⟨hf, hacc⟩ := hdoes
    simp only [execBlock, hblk]
    exact ⟨0, Nat.zero_le _, hf, hacc, branches_execList _ _, fun h => absurd h (hfind _),
      fun b' hb' => by cases hb'⟩

/-- A run of the region, whose result is `x`, that stays in step with the interpreter: this is
where the interpreter is after some number of steps, the guest's memory accesses are the same, and
the blocks have been entered for addresses that the interpreter has visited in this order. -/
def InStep (prog : BitVec 32 → BitVec 32) (t : Translator) (n : ℕ) (h : Hart)
    (x : List Event × Outcome × QState) : Prop :=
  ∃ m ≤ n * TB_MAX_INSNS,
    Follows t x.2.1 x.2.2 (Interp.run prog m h) ∧
    memAccesses x.1 = (Interp.run prog m h).acc ∧
    (∃ addrs, List.Forall₂ (EntryAt t) (branches x.1) addrs ∧
      addrs.Sublist (visited prog m h)) ∧
    ∀ b, x.2.1 = .at b → n ≤ m

/-- One block and then a run that is in step from where the block has led. -/
lemma InStep.cons {n k b' : ℕ} {ev : List Event} {s' : QState} {cpu : ByteMem}
    {x : List Event × Outcome × QState} (hk : k ≤ TB_MAX_INSNS) (h1 : 1 ≤ k)
    (hf : Follows t (.at b') s' (Interp.run prog k h))
    (hacc : memAccesses ev = (Interp.run prog k h).acc) (hbr : branches ev = [])
    (hx : InStep prog t n (Interp.run prog k h).hart x) :
    InStep prog t (n + 1) h (ev ++ ⟨.branch b', cpu⟩ :: x.1, x.2) := by
  obtain ⟨htr, hentry, -⟩ := hf
  obtain ⟨m, hm, hfol, hacc', ⟨addrs, hforall, hsub⟩, hprog⟩ := hx
  refine ⟨k + m, by rw [Nat.add_mul]; omega, ?_, ?_, ?_, ?_⟩
  · rw [run_add k m htr]
    exact hfol
  · rw [run_add k m htr, memAccesses_append, hacc, ← hacc']
    rfl
  · refine ⟨(Interp.run prog k h).hart.gip :: addrs, ?_, ?_⟩
    · rw [branches_append, hbr]
      exact .cons hentry hforall
    · rw [visited_add k m htr]
      exact (List.singleton_sublist.mpr (gip_mem_visited h1 htr)).append hsub
  · intro b hb
    have := hprog b hb
    omega

end Rv32jit.Translate
