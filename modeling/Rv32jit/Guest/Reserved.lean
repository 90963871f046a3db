/-
# What translated code leaves alone

The code of an instruction writes `x1` to `x31`, the instruction pointer and its temporaries.  So
`x0` stays zero, and the trap code stays as it is until a helper raises a trap, which only the
helpers of `ecall` and `ebreak` do; at that moment the instruction pointer is the address of the
instruction.
-/
import Rv32jit.Guest.Precise

namespace Rv32jit.CPUState

/-- The two CPU states agree on `x0` and on all that lies behind the instruction pointer. -/
def EqReserved (cpu cpu' : ByteMem) : Prop := ∀ x, x < gprOffs 1 ∨ trapnoOffs ≤ x → cpu' x = cpu x

namespace EqReserved

variable {cpu cpu' cpu'' : ByteMem}

lemma refl (cpu : ByteMem) : EqReserved cpu cpu := fun _ _ => rfl

lemma trans (h : EqReserved cpu cpu') (h' : EqReserved cpu' cpu'') : EqReserved cpu cpu'' :=
  fun x hx => (h' x hx).trans (h x hx)

lemma gpr_zero (h : EqReserved cpu cpu') : gpr cpu' 0 = gpr cpu 0 :=
  ByteMem.load_congr fun x _ hx => h x (Or.inl (by simp only [gprOffs] at *; omega))

lemma trapno (h : EqReserved cpu cpu') : trapno cpu' = trapno cpu :=
  ByteMem.load_congr fun x hx _ => h x (Or.inr hx)

lemma store (cpu : ByteMem) {o n : ℕ} (v : BitVec 32) (h1 : gprOffs 1 ≤ o)
    (h2 : o + n ≤ trapnoOffs) : EqReserved cpu (cpu.store o n v) := by
  intro x hx
  exact ByteMem.store_apply_of_notMem v (by omega)

lemma setIp (cpu : ByteMem) (v : BitVec 32) : EqReserved cpu (setIp cpu v) :=
  store cpu v (by decide) (by decide)

end EqReserved

/-- The homes of the global registers lie between `x0` and the trap code. -/
lemma stateInfo_home {g : Qir.StateReg} (h : g ∈ stateInfo.regs) :
    gprOffs 1 ≤ g.stateOffs ∧ g.stateOffs + 4 ≤ trapnoOffs := by
  rw [stateInfo] at h
  rcases List.mem_append.mp h with h | h
  · obtain ⟨k, hk, rfl⟩ := List.mem_map.mp h
    have := List.mem_range.mp hk
    simp only [gprOffs, trapnoOffs]
    omega
  · rw [List.mem_singleton.mp h]
    decide

lemma gpr_setTrapno_zero (cpu : ByteMem) (t : TrapCode) : gpr (setTrapno cpu t) 0 = gpr cpu 0 :=
  gpr_setTrapno cpu (by decide) t

lemma ip_setTrapno (cpu : ByteMem) (t : TrapCode) : ip (setTrapno cpu t) = ip cpu :=
  ByteMem.load_store_disjoint _ _ (by simp only [ipOffs, trapnoOffs]; omega)

lemma trapno_setGpr (cpu : ByteMem) {i : ℕ} (h : i < 32) (v : BitVec 32) :
    trapno (setGpr cpu i v) = trapno cpu :=
  ByteMem.load_store_disjoint _ _ (by simp only [gprOffs, trapnoOffs]; omega)

lemma trapno_setTrapno (cpu : ByteMem) (t : TrapCode) : trapno (setTrapno cpu t) = t.toBits :=
  load_store_word cpu _ _

end Rv32jit.CPUState

namespace Rv32jit.Translate

open Qir Insn CPUState Interp

variable {prog : BitVec 32 → BitVec 32} {env : HelperEnv} {vi vi' : VRegsInfo} {t : Translator}
  {raw a a' : BitVec 32} {k tmp : ℕ} {code : List Inst} {succs : List ℕ} {ins : Inst}
  {s s' : QState} {ev : List Event} {f : Family} {fs : List Fetch} {stub : RuntimeStubId}
  {other : RuntimeStubId → BitVec 32 → ByteMem → ByteMem → HelperRes}
  {clobber : RuntimeStubId → (ℕ → BitVec 32) → ByteMem → ByteMem → ℕ → BitVec 32}

/-! ### One instruction of the intermediate representation -/

lemma eqReserved_writeOpr (hvi : vi.globInfo = stateInfo) {o : VOperand} (hty : o.getType = .I32)
    (ho : GuestOpr vi' o ∨ o = .slot true .I32 ipOffs) (s : QState) (v : BitVec 32) :
    EqReserved s.cpu (writeOpr vi s o v).cpu := by
  rcases ho with ho | rfl
  · cases o with
    | const => exact .refl _
    | vgpr ty r =>
      obtain rfl : ty = .I32 := hty
      simp only [writeOpr]
      cases hg : vi.getGlobalInfo r with
      | none => exact .refl _
      | some g =>
        rw [VRegsInfo.getGlobalInfo, hvi] at hg
        obtain ⟨h1, h2⟩ := stateInfo_home (List.mem_of_getElem? hg)
        exact .store _ _ h1 h2
    | _ => exact ho.elim
  · exact .store _ _ (by decide) (by decide)

lemma eqReserved_writeOuts (hvi : vi.globInfo = stateInfo) {os : List VOperand}
    (hos : ∀ o ∈ os, o.getType = .I32 ∧ (GuestOpr vi' o ∨ o = .slot true .I32 ipOffs))
    (s : QState) (vs : List (BitVec 32)) : EqReserved s.cpu (writeOuts vi s os vs).cpu := by
  induction os generalizing s vs with
  | nil => exact .refl _
  | cons o os ih =>
    cases vs with
    | nil => exact .refl _
    | cons v vs =>
      obtain ⟨hty, ho⟩ := hos o (by simp)
      exact (eqReserved_writeOpr hvi hty ho s v).trans
        (ih (fun o ho => hos o (List.mem_cons_of_mem _ ho)) _ vs)

/-- An instruction that goes on to the next one; of the helpers, one that does nothing. -/
lemma eqReserved_exec (hvi : vi.globInfo = stateInfo) (hg : GuestInst vi' ins)
    (hstub : ∀ stub, ins.op = .hcall stub → ∃ op, family op = .fence stub ∨
      ∃ trap, family op = .call stub trap)
    (hn : (exec (helperEnv other clobber) vi ins s).2.1 = .next) :
    EqReserved s.cpu (exec (helperEnv other clobber) vi ins s).2.2.cpu := by
  by_cases hl : ins.legal = true
  · by_cases hop : ∃ stub, ins.op = .hcall stub
    · obtain ⟨stub, hop⟩ := hop
      obtain ⟨op, hf | ⟨trap, hf⟩⟩ := hstub stub hop
      · simp only [exec, hl, if_true, hop, helper_fence other clobber hf]
        exact .setIp _ _
      · simp [exec, hl, hop, helper_call other clobber hf] at hn
    · have hos : ∀ o ∈ ins.o, o.getType = .I32 ∧ (GuestOpr vi' o ∨ o = .slot true .I32 ipOffs) :=
        fun o ho => (hg.output o ho).imp_right fun h => h.imp_right And.right
      rw [exec_eq_eval (fun stub h => hop ⟨stub, h⟩) hl]
      exact eqReserved_writeOuts hvi hos
        { s with mem := (ins.op.eval (ins.i.map (readOpr vi s)) s.mem).mem } _
  · rw [exec_illegal (by simpa using hl)]
    exact .refl _

lemma eqReserved_of_runs (hvi : vi.globInfo = stateInfo)
    (hcode : ∀ ins ∈ code, GuestInst vi' ins ∧ ∀ stub, ins.op = .hcall stub →
      ∃ op, family op = .fence stub ∨ ∃ trap, family op = .call stub trap)
    (h : Runs (helperEnv other clobber) vi code s ev s') : EqReserved s.cpu s'.cpu := by
  induction code generalizing s ev with
  | nil =>
    obtain rfl := h.unique (.nil s)
    exact .refl _
  | cons ins code ih =>
    obtain ⟨hn, ev', -, hrest⟩ := h.cons_inv
    obtain ⟨hg, hstub⟩ := hcode ins (by simp)
    exact (eqReserved_exec hvi hg hstub hn).trans
      (ih (fun i hi => hcode i (List.mem_cons_of_mem _ hi)) hrest)

/-! ### One guest instruction -/

/-- The helpers that the code of an instruction calls. -/
lemma hcall_insnCode (hins : ins ∈ insnCode f raw a tmp) (hop : ins.op = .hcall stub) :
    f = .fence stub ∨ ∃ trap, f = .call stub trap := by
  have hsave : ∀ f : Family, ins ∉ saveCode f a := by
    intro f hins
    rw [saveCode] at hins
    split at hins
    · rw [List.mem_singleton.mp hins] at hop
      cases hop
    · cases hins
  have haddr : ∀ imm, ins ∉ addressCode raw imm tmp := by
    intro imm hins
    rw [addressCode] at hins
    split at hins
    · rw [List.mem_singleton.mp hins] at hop
      rcases op_foldAdd (.vgpr .I32 tmp) (gprop (rs1 raw)) (vconst imm) with h | h <;>
        rw [h] at hop <;> cases hop
    · cases hins
  have hbody := (List.mem_append.mp hins).resolve_left (hsave f)
  have hquiet := (op_insnCode f raw a tmp ins hins).2
  rw [hop] at hquiet
  cases f with
  | load | store =>
    rcases List.mem_append.mp hbody with h | h
    · exact absurd h (haddr _)
    · rw [List.mem_singleton.mp h] at hop
      cases hop
  | fence stub' =>
    rw [List.mem_singleton.mp hbody] at hop
    cases hop
    exact Or.inl rfl
  | call stub' trap =>
    rw [List.mem_singleton.mp hbody] at hop
    cases hop
    exact Or.inr ⟨trap, rfl⟩
  | _ => cases hquiet (by simp) (by simp) (by simp) (by simp)

/-- The code of an instruction, among registers of which its temporary is one. -/
lemma exists_guest_insnCode (f : Family) (raw a : BitVec 32) (h32 : 32 ≤ tmp) :
    ∃ vi', ∀ ins ∈ insnCode f raw a tmp, GuestInst vi' ins := by
  obtain ⟨vi', hvi, hloc⟩ : ∃ vi' : VRegsInfo, vi'.globInfo = stateInfo ∧
      vi'.locInfo = List.replicate (tmp - 31) .I32 := ⟨⟨_, _⟩, rfl, rfl⟩
  refine ⟨vi', guest_insnCode hvi f raw a fun _ => ⟨by rw [IP]; omega, ?_⟩⟩
  rw [VRegsInfo.vregType, getGlobalInfo_temp hvi h32, VRegsInfo.getLocalType, VRegsInfo.isGlobal,
    hvi, length_stateInfo, if_neg (by simpa using h32), hloc, List.getElem?_replicate,
    if_pos (by omega)]

lemma eqReserved_insnCode (hvi : vi.globInfo = stateInfo) (h32 : 32 ≤ tmp)
    (h : Runs (helperEnv other clobber) vi (insnCode (family (decode raw)) raw a tmp) s ev s') :
    EqReserved s.cpu s'.cpu := by
  obtain ⟨vi', hg⟩ := exists_guest_insnCode (family (decode raw)) raw a h32
  exact eqReserved_of_runs hvi (fun ins hins => ⟨hg ins hins, fun stub hop =>
    ⟨decode raw, hcall_insnCode hins hop⟩⟩) h

/-! ### Traps -/

lemma flow_ne_trap (op : Qir.Op) (vals : List (BitVec 32)) (m : ByteMem) :
    (op.eval vals m).flow ≠ .trap := by
  unfold Qir.Op.eval
  split <;> exact Qir.Flow.noConfusion

/-- Only a helper raises a trap. -/
lemma hcall_of_trap (h : (execList env vi code s).2.1 = .trap) :
    ∃ ins ∈ code, ∃ stub, ins.op = .hcall stub ∧
      ∃ arg cpu mem, (env.helper stub arg cpu mem).trap = true := by
  induction code generalizing s with
  | nil => cases h
  | cons ins code ih =>
    by_cases hn : (exec env vi ins s).2.1 = .next
    · rw [execList_cons_next hn] at h
      obtain ⟨i, hi, h⟩ := ih h
      exact ⟨i, List.mem_cons_of_mem _ hi, h⟩
    · rw [execList_cons_leave hn] at h
      refine ⟨ins, by simp, ?_⟩
      by_cases hl : ins.legal = true
      · by_cases hop : ∃ stub, ins.op = .hcall stub
        · obtain ⟨stub, hop⟩ := hop
          refine ⟨stub, hop, (ins.i.map (readOpr vi s)).headD 0, s.cpu, s.mem, ?_⟩
          by_contra hne
          simp only [exec, hl, if_true, hop] at h
          rw [if_neg hne] at h
          cases h
        · rw [exec_eq_eval (fun stub h => hop ⟨stub, h⟩) hl] at h
          exact absurd h (flow_ne_trap _ _ _)
      · rw [exec_illegal (by simpa using hl)] at h
        cases h

/-- The code of an instruction that traps is that of `ecall` or `ebreak`; the instruction pointer
is then the address of the instruction. -/
lemma trap_insnCode
    (h : (execList (helperEnv other clobber) vi
      (insnCode (family (decode raw)) raw a tmp) s).2.1 = .trap) :
    ∃ stub trap, family (decode raw) = .call stub trap ∧
      (execList (helperEnv other clobber) vi
        (insnCode (family (decode raw)) raw a tmp) s).2.2.cpu =
          setTrapno (setIp s.cpu a) trap ∧
      (execList (helperEnv other clobber) vi
        (insnCode (family (decode raw)) raw a tmp) s).2.2.mem = s.mem := by
  obtain ⟨ins, hins, stub, hop, arg, cpu, mem, htrap⟩ := hcall_of_trap h
  rcases hcall_insnCode hins hop with hf | ⟨trap, hf⟩
  · rw [helper_fence other clobber hf] at htrap
    cases htrap
  · refine ⟨stub, trap, hf, ?_⟩
    obtain ⟨preg, hexec⟩ := exec_mkHcall (helperEnv other clobber) vi stub raw
      (saved (family (decode raw)) a s)
    rw [helper_call other clobber hf] at hexec
    have hs : saved (family (decode raw)) a s = { s with cpu := setIp s.cpu a } := by
      rw [hf]
      rfl
    rw [insnCode, runs_saveCode, hf, bodyCode, execList_cons_leave (by
      rw [← hf, hexec]; exact Qir.Flow.noConfusion), ← hf, hexec, hs]
    simp only [ip_setIp, setIp_setIp, and_self]

end Rv32jit.Translate
