/-
# The CPU state inside translated code

A run of a translated region is a run of guest instructions, one after the other: each is executed
by its own code, and the next one is at the address that the instruction set says.  At every access
to the memory and at every call of a helper the CPU state holds the guest registers as they were
before the instruction, and for an instruction that may trap it holds the instruction's address.
The host code of the region has the same trace.
-/
import Rv32jit.Guest.Compile
import Rv32jit.Guest.RegionRun

namespace Rv32jit.Translate

open Qir Insn CPUState

/-! ### The order of the guest's instructions -/

/-- The value of a source register; `x0` is zero. -/
def xreg (cpu : ByteMem) (i : ℕ) : BitVec 32 := if i = 0 then 0 else gpr cpu i

/-- The address that the instruction at `a` goes on to, given the registers before it. -/
def nextIp (raw a : BitVec 32) (cpu : ByteMem) : BitVec 32 :=
  match family (decode raw) with
  | .jal => a + immJ raw
  | .jalr => (xreg cpu (rs1 raw) + immI raw) &&& ~~~1#32
  | .brcc cc => if cc.holds (xreg cpu (rs1 raw)) (xreg cpu (rs2 raw)) then a + immB raw else a + 4
  | _ => a + 4

/-- What an event of the instruction at `a` shows: the guest registers as in `cpu`, the CPU state
before the instruction, and the instruction's address, if the instruction may trap. -/
structure Precise (raw a : BitVec 32) (cpu : ByteMem) (e : Event) : Prop where
  gpr : ∀ i, 1 ≤ i → i < 32 → gpr e.cpu i = gpr cpu i
  ip : ((decode raw).flags.Trap || (decode raw).flags.MayTrap) = true → CPUState.ip e.cpu = a

/-- An instruction that is executed, and the CPU state and the memory before it. -/
structure Fetch where
  ip : BitVec 32
  raw : BitVec 32
  cpu : ByteMem
  mem : ByteMem

/-- The instruction at `a`, executed in the state `s`. -/
def fetch (prog : BitVec 32 → BitVec 32) (a : BitVec 32) (s : QState) : Fetch :=
  ⟨a, prog a, s.cpu, s.mem⟩

/-- A run of translated code by instructions, from the instruction at one address to that at
another, with its events and the instructions that it executes.  The last event before a block is
the branch to it. -/
inductive Insns (prog : BitVec 32 → BitVec 32) (env : HelperEnv) (vi : VRegsInfo) :
    BitVec 32 → QState → List Event → List Fetch → BitVec 32 → QState → Prop
  | refl (a : BitVec 32) (s : QState) : Insns prog env vi a s [] [] a s
  | branch {a a' : BitVec 32} {s s' : QState} {ev : List Event} {fs : List Fetch} (b : ℕ)
      (hrest : Insns prog env vi a s ev fs a' s') :
      Insns prog env vi a s (⟨.branch b, s.cpu⟩ :: ev) fs a' s'
  | insn {a a' : BitVec 32} {tmp : ℕ} {s s' s'' : QState} {ev ev' : List Event}
      {fs : List Fetch} (h32 : 32 ≤ tmp)
      (hrun : Runs env vi (insnCode (family (decode (prog a))) (prog a) a tmp) s ev s')
      (hev : ∀ e ∈ ev, Precise (prog a) a s.cpu e)
      (hrest : Insns prog env vi (nextIp (prog a) a s.cpu) s' ev' fs a' s'') :
      Insns prog env vi a s (ev ++ ev') (fetch prog a s :: fs) a' s''

/-- The instruction at `a` does not complete in the state `s`. -/
structure Breaks (prog : BitVec 32 → BitVec 32) (env : HelperEnv) (vi : VRegsInfo)
    (a : BitVec 32) (s : QState) (x : List Event × Outcome × QState) : Prop where
  precise : ∀ e ∈ x.1, Precise (prog a) a s.cpu e
  exec : ∃ tmp, 32 ≤ tmp ∧ ∃ fl, leave [] fl = x.2.1 ∧
    execList env vi (insnCode (family (decode (prog a))) (prog a) a tmp) s = (x.1, fl, x.2.2)

/-- The run `x` of a region, from the instruction at `a`, by instructions; `fs` are those that it
executes, with the one that does not complete, if there is one. -/
def ByInsns (prog : BitVec 32 → BitVec 32) (env : HelperEnv) (t : Translator) (a : BitVec 32)
    (s : QState) (fs : List Fetch) (x : List Event × Outcome × QState) : Prop :=
  ∃ ev ev' fs' a' s', Insns prog env t.region.vregsInfo a s ev fs' a' s' ∧ x.1 = ev ++ ev' ∧
    match x.2.1 with
    | .at b => ev' = [] ∧ fs = fs' ∧ EntryAt t b a' ∧ x.2.2 = s'
    | .gbr c | .gbrind c => ev' = [] ∧ fs = fs' ∧ c = a' ∧ x.2.2 = s'
    | .trap | .stuck =>
        fs = fs' ++ [fetch prog a' s'] ∧ Breaks prog env t.region.vregsInfo a' s' (ev', x.2)

variable {prog : BitVec 32 → BitVec 32} {env : HelperEnv} {vi : VRegsInfo} {t : Translator}
  {raw a a' a'' : BitVec 32} {k b tmp : ℕ} {code : List Inst} {succs : List ℕ} {ins : Inst}
  {s s' s'' : QState} {ev ev' : List Event} {f : Family} {x : List Event × Outcome × QState}
  {fs fs' : List Fetch}

lemma Insns.trans (h : Insns prog env vi a s ev fs a' s')
    (h' : Insns prog env vi a' s' ev' fs' a'' s'') :
    Insns prog env vi a s (ev ++ ev') (fs ++ fs') a'' s'' := by
  induction h with
  | refl => exact h'
  | branch b _ ih => exact .branch b (ih h')
  | insn h32 hrun hev _ ih =>
    rw [List.append_assoc]
    exact .insn h32 hrun hev (ih h')

/-! ### Code that stays in its block -/

variable (env vi) in
/-- An instruction that is no terminator goes on, traps or is stuck. -/
lemma exec_flow (h : ins.op.isTerminator = false) (s : QState) :
    (exec env vi ins s).2.1 = .next ∨ (exec env vi ins s).2.1 = .trap ∨
      (exec env vi ins s).2.1 = .stuck := by
  by_cases hl : ins.legal = true
  · by_cases hop : ∃ stub, ins.op = .hcall stub
    · obtain ⟨stub, hop⟩ := hop
      simp only [exec, hl, if_true, hop]
      split
      · exact Or.inr (Or.inl rfl)
      · exact Or.inl rfl
    · rw [exec_eq_eval (fun stub h => hop ⟨stub, h⟩) hl]
      exact (Op.eval_flow _ _ h).imp_right Or.inr
  · rw [exec_illegal (by simpa using hl)]
    exact Or.inr (Or.inr rfl)

/-- Such code runs to its end, or it leaves before. -/
lemma runs_or_leaves (env : HelperEnv) (vi : VRegsInfo)
    (h : ∀ ins ∈ code, ins.op.isTerminator = false) (s : QState) :
    (∃ s', Runs env vi code s (execList env vi code s).1 s') ∨
      ((execList env vi code s).2.1 = .trap ∨ (execList env vi code s).2.1 = .stuck) ∧
        ∀ rest, execList env vi (code ++ rest) s = execList env vi code s := by
  induction code generalizing s with
  | nil => exact Or.inl ⟨s, .nil s⟩
  | cons ins code ih =>
    by_cases hn : (exec env vi ins s).2.1 = .next
    · rw [execList_cons_next hn]
      rcases ih (fun i hi => h i (List.mem_cons_of_mem _ hi)) (exec env vi ins s).2.2 with
        ⟨s', hrun⟩ | ⟨hfl, hrest⟩
      · exact Or.inl ⟨s', Runs.append (Runs.single (Prod.ext rfl (Prod.ext hn rfl))) hrun⟩
      · refine Or.inr ⟨hfl, fun rest => ?_⟩
        rw [List.cons_append, execList_cons_next hn, hrest]
    · have hfl := (exec_flow env vi (h ins (by simp)) s).resolve_left hn
      rw [execList_cons_leave hn]
      exact Or.inr ⟨hfl, fun rest => by rw [List.cons_append, execList_cons_leave hn]⟩

lemma op_foldAdd (d u v : VOperand) : (foldAdd d u v).op = .mov ∨ (foldAdd d u v).op = .add := by
  unfold foldAdd
  split <;> (try split) <;> simp [Inst.mkMov, Inst.mkAdd]

lemma op_binop (q : Binop) : q.op.isTerminator = false ∧ q.op.sideeff = false := by
  obtain ⟨op, ho, hi⟩ := q
  cases op <;> first | exact ⟨rfl, rfl⟩ | (cases ho; done) | simp [Op.nIn] at hi

/-- The operations of the code of an instruction. -/
lemma op_insnCode (f : Family) (raw a : BitVec 32) (tmp : ℕ) :
    ∀ ins ∈ insnCode f raw a tmp, ins.op.isTerminator = false ∧
      ((∀ sz sgn, f ≠ .load sz sgn) → (∀ sz, f ≠ .store sz) → (∀ stub, f ≠ .fence stub) →
        (∀ stub trap, f ≠ .call stub trap) → ins.op.sideeff = false) := by
  have hfold : ∀ d u v : VOperand, (foldAdd d u v).op.isTerminator = false ∧
      (foldAdd d u v).op.sideeff = false := by
    intro d u v
    rcases op_foldAdd d u v with h | h <;> rw [h] <;> exact ⟨rfl, rfl⟩
  have hto : ∀ mk : VOperand → Inst, (∀ d, (mk d).op.isTerminator = false ∧
      (mk d).op.sideeff = false) → ∀ ins ∈ toRd raw mk, ins.op.isTerminator = false ∧
        ins.op.sideeff = false := by
    intro mk hmk ins hins
    rw [toRd] at hins
    split at hins
    · rw [List.mem_singleton.mp hins]
      exact hmk _
    · cases hins
  have hmov : ∀ c, ∀ ins ∈ toRd raw (fun d => .mkMov d (vconst c)),
      ins.op.isTerminator = false ∧ ins.op.sideeff = false :=
    fun c => hto _ fun d => ⟨rfl, rfl⟩
  have haddr : ∀ imm, ∀ ins ∈ addressCode raw imm tmp, ins.op.isTerminator = false := by
    intro imm ins hins
    rw [addressCode] at hins
    split at hins
    · rw [List.mem_singleton.mp hins]
      exact (hfold _ _ _).1
    · cases hins
  intro ins hins
  rw [insnCode] at hins
  rcases List.mem_append.mp hins with hins | hins
  · rw [saveCode] at hins
    split at hins
    · rw [List.mem_singleton.mp hins]
      exact ⟨rfl, fun _ _ _ _ => rfl⟩
    · cases hins
  · cases f with
    | illegal | brcc => cases hins
    | lui | auipc | jal =>
      obtain ⟨h1, h2⟩ := hmov _ ins hins
      exact ⟨h1, fun _ _ _ _ => h2⟩
    | arith q src =>
      obtain ⟨h1, h2⟩ := hto (fun d => applyFolder (q.inst d (gprop (rs1 raw)) (src.opr raw)))
        (fun d => by
          by_cases hop : q.op = .add
          · obtain ⟨op, hout, hin⟩ := q
            obtain rfl : op = .add := hop
            exact hfold _ _ _
          · rw [applyFolder_of_ne hop]
            exact op_binop q) ins hins
      exact ⟨h1, fun _ _ _ _ => h2⟩
    | jalr =>
      rcases List.mem_append.mp hins with hins | hins
      · rcases List.mem_pair.mp hins with rfl | rfl
        · exact ⟨(hfold _ _ _).1, fun _ _ _ _ => (hfold _ _ _).2⟩
        · exact ⟨rfl, fun _ _ _ _ => rfl⟩
      · obtain ⟨h1, h2⟩ := hmov _ ins hins
        exact ⟨h1, fun _ _ _ _ => h2⟩
    | load sz sgn =>
      refine ⟨?_, fun h => absurd rfl (h sz sgn)⟩
      rcases List.mem_append.mp hins with hins | hins
      · exact haddr _ ins hins
      · rw [List.mem_singleton.mp hins]
        rfl
    | store sz =>
      refine ⟨?_, fun _ h => absurd rfl (h sz)⟩
      rcases List.mem_append.mp hins with hins | hins
      · exact haddr _ ins hins
      · rw [List.mem_singleton.mp hins]
        rfl
    | fence stub =>
      rw [List.mem_singleton.mp hins]
      exact ⟨rfl, fun _ _ h => absurd rfl (h stub)⟩
    | call stub trap =>
      rw [List.mem_singleton.mp hins]
      exact ⟨rfl, fun _ _ _ h => absurd rfl (h stub trap)⟩

/-! ### Events -/

lemma cpu_of_mem_exec {e : Event} (h : e ∈ (exec env vi ins s).1) : e.cpu = s.cpu := by
  by_cases hl : ins.legal = true
  · by_cases hop : ∃ stub, ins.op = .hcall stub
    · obtain ⟨stub, hop⟩ := hop
      simp only [exec, hl, if_true, hop, List.mem_singleton] at h
      rw [h]
    · rw [exec_eq_eval (fun stub h => hop ⟨stub, h⟩) hl] at h
      obtain ⟨acc, -, rfl⟩ := List.mem_map.mp h
      rfl
  · rw [exec_illegal (by simpa using hl)] at h
    cases h

/-- Code without side effects has no events. -/
lemma events_of_quiet (h : ∀ ins ∈ code, ins.op.sideeff = false) (s : QState) :
    (execList env vi code s).1 = [] := by
  have hexec : ∀ ins ∈ code, ∀ s, (exec env vi ins s).1 = [] := by
    intro ins hins s
    by_cases hl : ins.legal = true
    · have hop : ∀ stub, ins.op ≠ .hcall stub := by
        intro stub hop
        have := h ins hins
        rw [hop] at this
        cases this
      rw [exec_eq_eval hop hl, Op.eval_acc (h ins hins)]
      rfl
    · rw [exec_illegal (by simpa using hl)]
  clear h
  induction code generalizing s with
  | nil => rfl
  | cons ins code ih =>
    have h1 := hexec ins (by simp) s
    by_cases hn : (exec env vi ins s).2.1 = .next
    · rw [execList_cons_next hn, h1, List.nil_append]
      exact ih _ fun i hi => hexec i (List.mem_cons_of_mem _ hi)
    · rw [execList_cons_leave hn, h1]

/-- The events of the last instruction of a list. -/
lemma cpu_of_mem_last {e : Event} (h : e ∈ (execList env vi [ins] s).1) : e.cpu = s.cpu := by
  by_cases hn : (exec env vi ins s).2.1 = .next
  · rw [execList_cons_next hn] at h
    exact cpu_of_mem_exec (by simpa [execList] using h)
  · rw [execList_cons_leave hn] at h
    exact cpu_of_mem_exec h

/-- At the events of an instruction the CPU state is the one before it, once the instruction
pointer is stored. -/
lemma cpu_of_mem_insnCode (hvi : vi.globInfo = stateInfo) (h32 : 32 ≤ tmp) {e : Event}
    (h : e ∈ (execList env vi (insnCode f raw a tmp) s).1) : e.cpu = (saved f a s).cpu := by
  have hquiet : (∀ ins ∈ insnCode f raw a tmp, ins.op.sideeff = false) →
      e.cpu = (saved f a s).cpu := fun hq => by
    rw [events_of_quiet hq] at h
    cases h
  cases hf : f with
  | illegal | lui | auipc | jal | jalr | brcc | arith =>
    rw [← hf]
    exact hquiet fun ins hins => (op_insnCode f raw a tmp ins hins).2 (by simp [hf]) (by simp [hf])
      (by simp [hf]) (by simp [hf])
  | load sz sgn =>
    rw [hf, insnCode, runs_saveCode] at h
    obtain ⟨s', hrun, hcpu, -, -⟩ := runs_addressCode env raw hvi h32 (immI raw)
      (saved (.load sz sgn) a s)
    rw [bodyCode, loadCode, hrun] at h
    rw [← hcpu]
    exact cpu_of_mem_last (by simpa using h)
  | store sz =>
    rw [hf, insnCode, runs_saveCode] at h
    obtain ⟨s', hrun, hcpu, -, -⟩ := runs_addressCode env raw hvi h32 (immS raw)
      (saved (.store sz) a s)
    rw [bodyCode, storeCode, hrun] at h
    rw [← hcpu]
    exact cpu_of_mem_last (by simpa using h)
  | fence | call =>
    rw [hf, insnCode, runs_saveCode, bodyCode] at h
    exact cpu_of_mem_last (by simpa using h)

lemma precise_insnCode (hvi : vi.globInfo = stateInfo) (h32 : 32 ≤ tmp) :
    ∀ e ∈ (execList env vi (insnCode (family (decode raw)) raw a tmp) s).1,
      Precise raw a s.cpu e := by
  intro e he
  have hcpu := cpu_of_mem_insnCode hvi h32 he
  rw [saved] at hcpu
  refine ⟨fun i _ hi => ?_, fun hsaves => ?_⟩
  · rw [hcpu]
    split
    · exact gpr_setIp _ hi _
    · rfl
  · rw [saves_family] at hsaves
    rw [hcpu, if_pos hsaves]
    exact ip_setIp _ _

/-- A run by instructions after another. -/
lemma ByInsns.append (h : ByInsns prog env t a' s' fs' x)
    (hins : Insns prog env t.region.vregsInfo a s ev fs a' s') :
    ByInsns prog env t a s (fs ++ fs') (ev ++ x.1, x.2) := by
  obtain ⟨ev₁, ev₂, fs₁, a'', s'', hins', hx, hout⟩ := h
  refine ⟨_, ev₂, _, a'', s'', hins.trans hins', ?_, ?_⟩
  · rw [hx, List.append_assoc]
  · obtain ⟨evs, out, s₁⟩ := x
    cases out with
    | trap | stuck => exact ⟨by rw [hout.1, List.append_assoc], hout.2⟩
    | _ => exact ⟨hout.1, by rw [hout.2.1], hout.2.2⟩

/-- An instruction after which a run by instructions goes on. -/
lemma ByInsns.insn (hvi : t.region.vregsInfo.globInfo = stateInfo) (h32 : 32 ≤ tmp)
    (hrun : Runs env t.region.vregsInfo
      (insnCode (family (decode (prog a))) (prog a) a tmp) s ev s')
    (h : ByInsns prog env t (nextIp (prog a) a s.cpu) s' fs
      (let y := execList env t.region.vregsInfo code s'; (y.1, leave succs y.2.1, y.2.2))) :
    ByInsns prog env t a s (fetch prog a s :: fs)
      (let y := execList env t.region.vregsInfo
        (insnCode (family (decode (prog a))) (prog a) a tmp ++ code) s
      (y.1, leave succs y.2.1, y.2.2)) := by
  have hprec : ∀ e ∈ (execList env t.region.vregsInfo
      (insnCode (family (decode (prog a))) (prog a) a tmp) s).1,
      Precise (prog a) a s.cpu e := precise_insnCode hvi h32
  have hexec := hrun []
  rw [List.append_nil] at hexec
  rw [hexec] at hprec
  have hev : ∀ e ∈ ev, Precise (prog a) a s.cpu e :=
    fun e he => hprec e (List.mem_append_left _ he)
  have hins := Insns.insn h32 hrun hev (.refl _ _)
  rw [List.append_nil] at hins
  rw [hrun code]
  exact h.append hins

/-- An instruction that leaves its block. -/
lemma ByInsns.breaks (hvi : t.region.vregsInfo.globInfo = stateInfo) (h32 : 32 ≤ tmp)
    (hfl : (execList env t.region.vregsInfo
        (insnCode (family (decode (prog a))) (prog a) a tmp) s).2.1 = .trap ∨
      (execList env t.region.vregsInfo
        (insnCode (family (decode (prog a))) (prog a) a tmp) s).2.1 = .stuck) :
    ByInsns prog env t a s [fetch prog a s]
      (let y := execList env t.region.vregsInfo
        (insnCode (family (decode (prog a))) (prog a) a tmp) s
      (y.1, leave succs y.2.1, y.2.2)) := by
  have hprec : ∀ e ∈ (execList env t.region.vregsInfo
      (insnCode (family (decode (prog a))) (prog a) a tmp) s).1,
      Precise (prog a) a s.cpu e := precise_insnCode hvi h32
  refine ⟨[], _, [], a, s, .refl a s, rfl, ?_⟩
  generalize hx : execList env t.region.vregsInfo
    (insnCode (family (decode (prog a))) (prog a) a tmp) s = x at hfl hprec
  obtain ⟨ev, fl, s'⟩ := x
  rcases hfl with rfl | rfl
  all_goals exact ⟨rfl, hprec, tmp, h32, _, rfl, hx⟩

variable (prog env t a s) in
lemma insn_runs_or_leaves (tmp : ℕ) :
    (∃ ev s', Runs env t.region.vregsInfo
      (insnCode (family (decode (prog a))) (prog a) a tmp) s ev s') ∨
    ((execList env t.region.vregsInfo
        (insnCode (family (decode (prog a))) (prog a) a tmp) s).2.1 = .trap ∨
      (execList env t.region.vregsInfo
        (insnCode (family (decode (prog a))) (prog a) a tmp) s).2.1 = .stuck) ∧
      ∀ rest, execList env t.region.vregsInfo
          (insnCode (family (decode (prog a))) (prog a) a tmp ++ rest) s =
        execList env t.region.vregsInfo (insnCode (family (decode (prog a))) (prog a) a tmp) s := by
  rcases runs_or_leaves env t.region.vregsInfo
    (fun ins hins => (op_insnCode (family (decode (prog a))) (prog a) a tmp ins hins).1) s with
    ⟨s', hrun⟩ | h
  · exact Or.inl ⟨_, s', hrun⟩
  · exact Or.inr h

/-! ### Blocks -/

lemma readOpr_gprop_xreg (hvi : vi.globInfo = stateInfo) (s : QState) {i : ℕ} (hi : i < 32) :
    readOpr vi s (gprop i) = xreg s.cpu i := by
  rw [gprop, xreg]
  split
  · exact readOpr_vconst s 0
  · rename_i h0
    simp only [vgpr, readOpr, getGlobalInfo_gpr hvi h0 hi]
    rfl

lemma Jump.byInsns (h : Jump t a code succs) (s : QState) :
    ByInsns prog env t a s []
      (let y := execList env t.region.vregsInfo code s; (y.1, leave succs y.2.1, y.2.2)) := by
  cases h with
  | br hb => exact ⟨[], [], [], a, s, .refl a s, rfl, rfl, rfl, Or.inl hb, rfl⟩
  | gbr => exact ⟨[], [], [], a, s, .refl a s, rfl, rfl, rfl, rfl, rfl⟩

lemma nextIp_of_not_ends (h : (family (decode raw)).ends = false) (a : BitVec 32) (cpu : ByteMem) :
    nextIp raw a cpu = a + 4 := by
  rw [nextIp]
  cases hf : family (decode raw) with
  | jal | jalr | brcc =>
    rw [hf] at h
    cases h
  | _ => rfl

/-- The instruction at the end of a block. -/
lemma Covers.byInsns_last (hc : Covers prog t k a code succs)
    (hend : (family (decode (prog a))).ends = true) (hk : k ≠ 0)
    (hvi : t.region.vregsInfo.globInfo = stateInfo) (s : QState) :
    ByInsns prog env t a s [fetch prog a s]
      (let y := execList env t.region.vregsInfo code s; (y.1, leave succs y.2.1, y.2.2)) := by
  cases hc with
  | step hend' =>
    rw [hend'] at hend
    cases hend
  | call hf =>
    rename_i tmp stub trap
    -- the code names no temporary
    have htmp : insnCode (family (decode (prog a))) (prog a) a tmp =
        insnCode (family (decode (prog a))) (prog a) a 32 :=
      insnCode_congr (by rw [hf]; rfl) a tmp 32
    rw [htmp]
    refine .breaks hvi le_rfl ?_
    rcases insn_runs_or_leaves prog env t a s 32 with ⟨ev, s', hrun⟩ | ⟨hfl, -⟩
    · have hexec := hrun []
      rw [List.append_nil] at hexec
      rw [hexec]
      exact Or.inr rfl
    · exact hfl
  | jal hf hjump =>
    rename_i tmp code
    have htmp : insnCode (family (decode (prog a))) (prog a) a tmp =
        insnCode (family (decode (prog a))) (prog a) a 32 :=
      insnCode_congr (by rw [hf]; rfl) a tmp 32
    rw [htmp]
    rcases insn_runs_or_leaves prog env t a s 32 with ⟨ev, s', hrun⟩ | ⟨hfl, hleave⟩
    · refine .insn hvi le_rfl hrun ?_
      rw [nextIp, hf]
      exact hjump.byInsns s'
    · rw [hleave]
      exact .breaks hvi le_rfl hfl
  | jalr hf htmp =>
    rename_i tmp
    obtain ⟨s1, hrun1, -, -, hval⟩ := runs_targetCode env hvi htmp.ge (prog a) s
    have hrun : Runs env t.region.vregsInfo (insnCode (family (decode (prog a))) (prog a) a tmp) s
        [] (setRd s1 (prog a) (a + 4)) := by
      rw [hf]
      exact hrun1.append (runs_linkCode hvi (prog a) a s1)
    refine .insn hvi htmp.ge hrun ?_
    have htgt : readOpr t.region.vregsInfo (setRd s1 (prog a) (a + 4)) (.vgpr .I32 tmp) =
        nextIp (prog a) a s.cpu := by
      rw [readOpr_setRd hvi htmp.ge, hval, readOpr_gprop_xreg hvi s (rs1_lt _), nextIp, hf]
    have hexec : exec env t.region.vregsInfo (.mkGBrind (.vgpr .I32 tmp))
        (setRd s1 (prog a) (a + 4)) =
        ([], .gbrind (nextIp (prog a) a s.cpu), setRd s1 (prog a) (a + 4)) := by
      rw [← htgt]
      rfl
    rw [execList_single_leave hexec (by simp)]
    exact ⟨[], [], [], _, _, .refl _ _, rfl, rfl, rfl, rfl, rfl⟩
  | brcc hf ht hf' =>
    rename_i cc bt bf
    have hcode : insnCode (family (decode (prog a))) (prog a) a 32 = [] := by
      rw [hf]
      rfl
    have happ : [Inst.mkBrcc cc (gprop (rs1 (prog a))) (gprop (rs2 (prog a)))] =
        insnCode (family (decode (prog a))) (prog a) a 32 ++
          [.mkBrcc cc (gprop (rs1 (prog a))) (gprop (rs2 (prog a)))] := by
      rw [hcode, List.nil_append]
    rw [happ]
    refine .insn hvi le_rfl (by rw [hcode]; exact .nil s) ?_
    have hexec : exec env t.region.vregsInfo
        (.mkBrcc cc (gprop (rs1 (prog a))) (gprop (rs2 (prog a)))) s =
        ([], .br (if cc.holds (xreg s.cpu (rs1 (prog a))) (xreg s.cpu (rs2 (prog a)))
          then 0 else 1), s) := by
      simp [exec, Inst.legal, Inst.mkBrcc, isReadable_gprop, Op.eval, writeOuts,
        readOpr_gprop_xreg hvi s (rs1_lt _), readOpr_gprop_xreg hvi s (rs2_lt _)]
    have hnext : nextIp (prog a) a s.cpu = if cc.holds (xreg s.cpu (rs1 (prog a)))
        (xreg s.cpu (rs2 (prog a))) then a + immB (prog a) else a + 4 := by
      rw [nextIp, hf]
    rw [execList_single_leave hexec (by simp)]
    refine ⟨[], [], [], _, _, .refl _ _, rfl, ?_⟩
    rw [hnext]
    cases hc : cc.holds (xreg s.cpu (rs1 (prog a))) (xreg s.cpu (rs2 (prog a))) with
    | true => exact ⟨rfl, rfl, ht, rfl⟩
    | false => exact ⟨rfl, rfl, hf', rfl⟩
  | cut hjump => exact absurd rfl hk

/-- The instructions that the code of `k` instructions from `a` on executes in the state `s`. -/
inductive Executes (prog : BitVec 32 → BitVec 32) (env : HelperEnv) (t : Translator) :
    ℕ → BitVec 32 → List Inst → List ℕ → QState → List Fetch → Prop
  | step {k : ℕ} {a : BitVec 32} {tmp : ℕ} {code : List Inst} {succs : List ℕ} {s s' : QState}
      {ev : List Event} {fs : List Fetch} (hend : (family (decode (prog a))).ends = false)
      (h32 : 32 ≤ tmp) (hrun : Runs env t.region.vregsInfo
        (insnCode (family (decode (prog a))) (prog a) a tmp) s ev s')
      (hrest : Executes prog env t k (a + 4) code succs s' fs) :
      Executes prog env t (k + 1) a (insnCode (family (decode (prog a))) (prog a) a tmp ++ code)
        succs s (fetch prog a s :: fs)
  | leave {k : ℕ} {a : BitVec 32} {tmp : ℕ} {code : List Inst} {succs : List ℕ} {s : QState}
      (h32 : 32 ≤ tmp)
      (hfl : (execList env t.region.vregsInfo
          (insnCode (family (decode (prog a))) (prog a) a tmp) s).2.1 = .trap ∨
        (execList env t.region.vregsInfo
          (insnCode (family (decode (prog a))) (prog a) a tmp) s).2.1 = .stuck)
      (hleave : ∀ rest, execList env t.region.vregsInfo
          (insnCode (family (decode (prog a))) (prog a) a tmp ++ rest) s =
        execList env t.region.vregsInfo
          (insnCode (family (decode (prog a))) (prog a) a tmp) s) :
      Executes prog env t (k + 1) a (insnCode (family (decode (prog a))) (prog a) a tmp ++ code)
        succs s [fetch prog a s]
  | last {k : ℕ} {a : BitVec 32} {code : List Inst} {succs : List ℕ} {s : QState} (hk : k ≠ 0)
      (hc : Covers prog t k a code succs) (hend : (family (decode (prog a))).ends = true) :
      Executes prog env t k a code succs s [fetch prog a s]
  | cut {a : BitVec 32} {code : List Inst} {succs : List ℕ} {s : QState}
      (hjump : Jump t a code succs) : Executes prog env t 0 a code succs s []

lemma Covers.executes (hc : Covers prog t k a code succs) (env : HelperEnv) (s : QState) :
    ∃ fs, Executes prog env t k a code succs s fs := by
  induction hc generalizing s with
  | step hend htmp hrest ih =>
    rename_i k a tmp code succs
    rcases insn_runs_or_leaves prog env t a s tmp with ⟨ev, s', hrun⟩ | ⟨hfl, hleave⟩
    · obtain ⟨fs, h⟩ := ih s'
      exact ⟨_, .step hend htmp.ge hrun h⟩
    · exact ⟨_, .leave htmp.ge hfl hleave⟩
  | call hf => exact ⟨_, .last (by decide) (.call hf) (by rw [hf]; rfl)⟩
  | jal hf hjump => exact ⟨_, .last (by decide) (.jal hf hjump) (by rw [hf]; rfl)⟩
  | jalr hf htmp => exact ⟨_, .last (by decide) (.jalr hf htmp) (by rw [hf]; rfl)⟩
  | brcc hf ht hf' => exact ⟨_, .last (by decide) (.brcc hf ht hf') (by rw [hf]; rfl)⟩
  | cut hjump => exact ⟨_, .cut hjump⟩

lemma Executes.byInsns (h : Executes prog env t k a code succs s fs)
    (hvi : t.region.vregsInfo.globInfo = stateInfo) :
    ByInsns prog env t a s fs
      (let y := execList env t.region.vregsInfo code s; (y.1, Qir.leave succs y.2.1, y.2.2)) := by
  induction h with
  | step hend h32 hrun hrest ih =>
    refine .insn hvi h32 hrun ?_
    rw [nextIp_of_not_ends hend]
    exact ih
  | leave h32 hfl hleave =>
    rw [hleave]
    exact .breaks hvi h32 hfl
  | last hk hc hend => exact hc.byInsns_last hend hk hvi _
  | cut hjump => exact hjump.byInsns _

/-- The instructions of a block lie one behind the other. -/
lemma Executes.mem (h : Executes prog env t k a code succs s fs) :
    ∀ f ∈ fs, ∃ i < k, f.ip = a + BitVec.ofNat 32 (4 * i) ∧ f.raw = prog f.ip := by
  induction h with
  | step hend h32 hrun hrest ih =>
    intro f hf
    rcases List.mem_cons.mp hf with rfl | hf
    · exact ⟨0, by omega, by simp [fetch], rfl⟩
    · obtain ⟨i, hi, hip, hraw⟩ := ih f hf
      refine ⟨i + 1, by omega, ?_, hraw⟩
      rw [hip, BitVec.add_assoc]
      congr 1
      apply BitVec.eq_of_toNat_eq
      simp
      omega
  | leave h32 hfl hleave =>
    intro f hf
    rw [List.mem_singleton.mp hf]
    exact ⟨0, by omega, by simp [fetch], rfl⟩
  | last hk hc hend =>
    intro f hf
    rw [List.mem_singleton.mp hf]
    exact ⟨0, by omega, by simp [fetch], rfl⟩
  | cut hjump => simp

/-- The instructions that a block executes from the one at `a`; a block that only leaves the region
has none. -/
def BlockExecutes (prog : BitVec 32 → BitVec 32) (env : HelperEnv) (t : Translator) (b : ℕ)
    (a : BitVec 32) (s : QState) (fs : List Fetch) : Prop :=
  (∃ k code succs, t.find a = some b ∧ t.region.blist[b]? = some { ilist := code, succs := succs } ∧
    Covers prog t k a code succs ∧ Executes prog env t k a code succs s fs) ∨
  ((∀ a', t.find a' ≠ some b) ∧ t.region.blist[b]? = some { ilist := [.mkGBr a] } ∧ fs = [])

lemma BlockExecutes.entryAt (h : BlockExecutes prog env t b a s fs) : EntryAt t b a := by
  rcases h with ⟨-, -, -, hfind, -⟩ | ⟨hfind, hblk, -⟩
  · exact Or.inl hfind
  · exact Or.inr ⟨hfind, hblk⟩

lemma BlockExecutes.byInsns (h : BlockExecutes prog env t b a s fs)
    (hvi : t.region.vregsInfo.globInfo = stateInfo) :
    ByInsns prog env t a s fs (execBlock env t.region b s) := by
  rcases h with ⟨k, code, succs, -, hblk, -, hexec⟩ | ⟨-, hblk, rfl⟩
  · simp only [execBlock, hblk]
    exact hexec.byInsns hvi
  · simp only [execBlock, hblk]
    exact Jump.gbr.byInsns s

lemma Translated.blockExecutes {ranges : List (BitVec 32 × BitVec 32)}
    (ht : Translated prog ranges t) (hfit : t.region.vregsInfo.numAll ≤ 2 ^ 16)
    (hentry : EntryAt t b a) (env : HelperEnv) (s : QState) :
    ∃ fs, BlockExecutes prog env t b a s fs := by
  rcases hentry with hfind | ⟨hfind, hblk⟩
  · obtain ⟨-, code, succs, hblk, hcov⟩ := ht.covered hfit _ _ hfind
    obtain ⟨fs, h⟩ := hcov.executes env s
    exact ⟨fs, Or.inl ⟨_, code, succs, hfind, hblk, hcov, h⟩⟩
  · exact ⟨[], Or.inr ⟨hfind, hblk, rfl⟩⟩

/-! ### Runs -/

end Rv32jit.Translate
