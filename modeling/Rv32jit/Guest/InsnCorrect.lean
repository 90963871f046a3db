/-
# Single instructions agree

The code of an instruction that does not leave its block does what the interpreter's handler
does.  The states of the two engines agree on the memory and on the CPU state but for the
instruction pointer, which each engine stores only where it has to.

One kind of load is left out: with `x0` as its destination and zero as its offset the
translator makes the base register the destination.
-/
import Rv32jit.Guest.InsnCode

namespace Rv32jit.Translate

open Qir Insn CPUState Interp

/-- The states of the two engines between two instructions. -/
structure Rel (h : Hart) (s : QState) : Prop where
  cpu : EqOffIp h.cpu s.cpu
  mem : s.mem = h.mem
  x0 : gpr h.cpu 0 = 0

/-- A load to `x0` whose address is a register as it is. -/
def isX0Load (f : Family) (raw : BitVec 32) : Bool :=
  match f with
  | .load _ _ => rd raw == 0 && immI raw == 0
  | _ => false

/-- An access of the guest to its memory. -/
def isMemAccess : Access → Bool
  | .load _ _ _ | .store _ _ _ => true
  | .hcall _ _ | .branch _ => false

/-- The guest memory accesses of a trace. -/
def memAccesses (ev : List Event) : List Access := (ev.map Event.access).filter isMemAccess

variable {env : HelperEnv} {vi : VRegsInfo} {h : Hart} {s : QState} {raw ip : BitVec 32} {tmp : ℕ}

/-! ### Operands -/

lemma getGlobalInfo_gpr (hvi : vi.globInfo = stateInfo) {i : ℕ} (h0 : i ≠ 0) (hi : i < 32) :
    vi.getGlobalInfo (i - 1) = some ⟨gprOffs i, .I32⟩ := by
  rw [VRegsInfo.getGlobalInfo, hvi, stateInfo_gpr h0 hi]

lemma getGlobalInfo_temp (hvi : vi.globInfo = stateInfo) (h32 : 32 ≤ tmp) :
    vi.getGlobalInfo tmp = none := by
  rw [VRegsInfo.getGlobalInfo, hvi]
  exact List.getElem?_eq_none h32

/-- A source register has the value of the guest's. -/
lemma readOpr_gprop (hvi : vi.globInfo = stateInfo) (hr : Rel h s) {i : ℕ} (hi : i < 32)
    (type : VType) :
    readOpr vi s (gprop i type) = ByteMem.lowBytes type.toSize (gpr h.cpu i) := by
  rw [gprop]
  split
  · rename_i h0
    rw [h0, hr.x0]
    rfl
  · rename_i h0
    rw [← hr.cpu.gpr hi, gpr, ByteMem.lowBytes_load]
    simp only [vgpr, readOpr, getGlobalInfo_gpr hvi h0 hi]
    congr 1
    cases type <;> rfl

lemma readOpr_gprop_I32 (hvi : vi.globInfo = stateInfo) (hr : Rel h s) {i : ℕ} (hi : i < 32) :
    readOpr vi s (gprop i) = gpr h.cpu i :=
  (readOpr_gprop hvi hr hi .I32).trans (ByteMem.lowBytes_of_le (by decide) _)

lemma readOpr_vconst (s : QState) (c : BitVec 32) : readOpr vi s (vconst c) = c :=
  readOpr_const_I32 s c

lemma readOpr_src (hvi : vi.globInfo = stateInfo) (hr : Rel h s) (src : Src) (raw : BitVec 32) :
    readOpr vi s (src.opr raw) = src.val raw h.cpu := by
  cases src with
  | imm | shamt => exact readOpr_vconst s _
  | reg => exact readOpr_gprop_I32 hvi hr (rs2_lt raw)

lemma isReadable_gprop (i : ℕ) (type : VType) : (gprop i type).isReadable = true := by
  rw [gprop]
  split <;> rfl

lemma isReadable_src (src : Src) (raw : BitVec 32) : (src.opr raw).isReadable = true := by
  cases src <;> first | rfl | exact isReadable_gprop _ _

lemma gprop_const {i : ℕ} {t : VType} {c : BitVec 32} (h : gprop i = .const t c) : t = .I32 := by
  rw [gprop] at h
  split at h <;> cases h
  rfl

lemma src_const {src : Src} {raw : BitVec 32} {t : VType} {c : BitVec 32}
    (h : src.opr raw = .const t c) : t = .I32 := by
  cases src with
  | imm | shamt => cases h; rfl
  | reg => exact gprop_const h

lemma writeOpr_vgpr (hvi : vi.globInfo = stateInfo) (s : QState) {i : ℕ} (h0 : i ≠ 0)
    (hi : i < 32) (v : BitVec 32) :
    writeOpr vi s (vgpr i) v = { s with cpu := setGpr s.cpu i v } := by
  simp only [vgpr, writeOpr, getGlobalInfo_gpr hvi h0 hi]
  rfl

/-- Writing a temporary touches neither the CPU state nor the memory. -/
lemma writeOpr_temp (hvi : vi.globInfo = stateInfo) (s : QState) (h32 : 32 ≤ tmp)
    (v : BitVec 32) :
    (writeOpr vi s (.vgpr .I32 tmp) v).cpu = s.cpu ∧
      (writeOpr vi s (.vgpr .I32 tmp) v).mem = s.mem ∧
      readOpr vi (writeOpr vi s (.vgpr .I32 tmp) v) (.vgpr .I32 tmp) = v := by
  simp only [writeOpr, readOpr, getGlobalInfo_temp hvi h32, Function.update_self, true_and]
  rw [ByteMem.lowBytes_setLow le_rfl, ByteMem.lowBytes_of_le (by decide)]

/-! ### The relation -/

namespace Rel

lemma of_cpu (hr : Rel h s) {s' : QState} (hcpu : s'.cpu = s.cpu) (hmem : s'.mem = s.mem) :
    Rel h s' :=
  ⟨by rw [hcpu]; exact hr.cpu, hmem.trans hr.mem, hr.x0⟩

lemma setIp_right (hr : Rel h s) (v : BitVec 32) :
    Rel h { s with cpu := setIp s.cpu v } :=
  ⟨hr.cpu.setIp_right v, hr.mem, hr.x0⟩

lemma setIp_left (hr : Rel h s) (v : BitVec 32) : Rel { h with cpu := setIp h.cpu v } s :=
  ⟨hr.cpu.setIp_left v, hr.mem, by rw [gpr_setIp _ (by norm_num), hr.x0]⟩

lemma gip (hr : Rel h s) (v : BitVec 32) : Rel { h with gip := v } s := ⟨hr.cpu, hr.mem, hr.x0⟩

end Rel

/-- The state after an assignment to the destination of a word. -/
def setRd (s : QState) (raw v : BitVec 32) : QState :=
  if rd raw = 0 then s else { s with cpu := setGpr s.cpu (rd raw) v }

/-- The interpreter assigns to the destination, whatever it is, and then zero to `x0`. -/
lemma Rel.setRd (hr : Rel h s) (raw v : BitVec 32) :
    Rel ((h.setGpr (rd raw) v).setGpr 0 0) (setRd s raw v) := by
  have hcpu : ((h.setGpr (rd raw) v).setGpr 0 0).cpu =
      if rd raw = 0 then h.cpu else setGpr h.cpu (rd raw) v := setGpr_setGpr_zero hr.x0 _ _
  rw [Translate.setRd]
  split
  · rename_i h0
    rw [if_pos h0] at hcpu
    exact ⟨by rw [hcpu]; exact hr.cpu, hr.mem, by rw [hcpu]; exact hr.x0⟩
  · rename_i h0
    rw [if_neg h0] at hcpu
    refine ⟨by rw [hcpu]; exact hr.cpu.setGpr _ _, hr.mem, ?_⟩
    rw [hcpu, gpr_setGpr_of_ne _ (Ne.symm h0), hr.x0]

/-! ### Pieces of code -/

lemma runs_toRd (hvi : vi.globInfo = stateInfo) {mk : VOperand → Inst} {v : BitVec 32}
    (hmk : ∀ d, d.isWritable = true → exec env vi (mk d) s = ([], .next, writeOpr vi s d v)) :
    Runs env vi (toRd raw mk) s [] (setRd s raw v) := by
  rw [toRd, setRd]
  by_cases h0 : rd raw = 0
  · rw [if_neg (not_not.mpr h0), if_pos h0]
    exact .nil s
  · rw [if_pos h0, if_neg h0, ← writeOpr_vgpr hvi s h0 (rd_lt raw)]
    exact .single (hmk _ rfl)

/-- The state after the instruction pointer is stored. -/
def saved (f : Family) (ip : BitVec 32) (s : QState) : QState :=
  if f.saves then { s with cpu := setIp s.cpu ip } else s

lemma runs_saveCode (f : Family) (ip : BitVec 32) (s : QState) :
    Runs env vi (saveCode f ip) s [] (saved f ip s) := by
  rw [saveCode, saved]
  split
  · refine .single ?_
    rw [exec_mkMov rfl rfl, readOpr_vconst]
    rfl
  · exact .nil s

variable (env raw) in
lemma runs_addressCode (hvi : vi.globInfo = stateInfo) (h32 : 32 ≤ tmp) (imm : BitVec 32)
    (s : QState) :
    ∃ s', Runs env vi (addressCode raw imm tmp) s [] s' ∧ s'.cpu = s.cpu ∧ s'.mem = s.mem ∧
      readOpr vi s' (addressOpr raw imm tmp) = readOpr vi s (gprop (rs1 raw)) + imm := by
  rw [addressCode, addressOpr]
  by_cases h0 : imm = 0
  · rw [if_neg (not_not.mpr h0), if_neg (not_not.mpr h0), h0]
    exact ⟨s, .nil s, rfl, rfl, by simp⟩
  · rw [if_pos h0, if_pos h0]
    obtain ⟨h1, h2, h3⟩ := writeOpr_temp hvi s h32 (readOpr vi s (gprop (rs1 raw)) + imm)
    refine ⟨_, .single ?_, h1, h2, h3⟩
    rw [exec_foldAdd rfl (isReadable_gprop _ _) rfl (fun _ _ => gprop_const)
      (fun t c h => by cases h; rfl), readOpr_vconst]

lemma exec_mkVMLoad {sz : VType} {sgn : VSign} {d a : VOperand} (hd : d.isWritable = true)
    (ha : a.isReadable = true) (s : QState) :
    exec env vi (.mkVMLoad sz sgn d a) s =
      ([⟨.load (readOpr vi s a) sz (s.mem.load (readOpr vi s a).toNat sz.toSize), s.cpu⟩], .next,
        writeOpr vi s d (sgn.extend sz (s.mem.load (readOpr vi s a).toNat sz.toSize))) := by
  simp [exec, Inst.legal, Inst.mkVMLoad, hd, ha, Op.eval, writeOuts]

lemma exec_mkVMStore {sz : VType} {sgn : VSign} {a v : VOperand} (ha : a.isReadable = true)
    (hv : v.isReadable = true) (s : QState) :
    exec env vi (.mkVMStore sz sgn a v) s =
      ([⟨.store (readOpr vi s a) sz (ByteMem.lowBytes sz.toSize (readOpr vi s v)), s.cpu⟩], .next,
        { s with mem := s.mem.store (readOpr vi s a).toNat sz.toSize (readOpr vi s v) }) := by
  simp [exec, Inst.legal, Inst.mkVMStore, ha, hv, Op.eval, writeOuts]

lemma exec_binop {q : Binop} {d a b : VOperand} (hd : d.isWritable = true)
    (ha : a.isReadable = true) (hb : b.isReadable = true) (s : QState) :
    exec env vi (q.inst d a b) s =
      ([], .next, writeOpr vi s d (q.value (readOpr vi s a) (readOpr vi s b))) := by
  have hcall : ∀ stub, (q.inst d a b).op ≠ .hcall stub := by
    intro stub he
    have := q.nOut
    rw [show q.op = .hcall stub from he] at this
    cases this
  rw [exec_eq_eval hcall (by simp [Inst.legal, Binop.inst, hd, ha, hb])]
  simp [Binop.inst, q.eval, writeOuts]

/-- The folder keeps the meaning of an operation on 32-bit operands. -/
lemma exec_applyFolder {q : Binop} {d a b : VOperand} (hd : d.isWritable = true)
    (ha : a.isReadable = true) (hb : b.isReadable = true) (hca : ∀ t c, a = .const t c → t = .I32)
    (hcb : ∀ t c, b = .const t c → t = .I32) (s : QState) :
    exec env vi (applyFolder (q.inst d a b)) s =
      ([], .next, writeOpr vi s d (q.value (readOpr vi s a) (readOpr vi s b))) := by
  obtain ⟨op, ho, hi⟩ := q
  by_cases hop : op = .add
  · subst hop
    exact exec_foldAdd hd ha hb hca hcb s
  · rw [applyFolder_of_ne hop]
    exact exec_binop hd ha hb s

/-! ### Whole instructions -/

lemma Rel.gpr (hr : Rel h s) {i : ℕ} (hi : i < 32) : gpr s.cpu i = h.gpr i := hr.cpu.gpr hi

/-- The state of the interpreter's handler when its body starts. -/
def savedHart (f : Family) (h : Hart) : Hart :=
  if f.saves then { h with cpu := setIp h.cpu h.gip } else h

lemma gip_savedHart (f : Family) (h : Hart) : (savedHart f h).gip = h.gip := by
  rw [savedHart]
  split <;> rfl

lemma Rel.saved (hr : Rel h s) (f : Family) : Rel (savedHart f h) (saved f h.gip s) := by
  rw [savedHart, Translate.saved]
  split
  · exact (hr.setIp_left h.gip).setIp_right h.gip
  · exact hr

/-- What an instruction that stays in its block has done: the interpreter went on to the next
address, and the code leaves the trace `ev` and reaches a state that is related to the
interpreter's. -/
structure Agrees (env : HelperEnv) (vi : VRegsInfo) (code : List Inst) (s : QState)
    (ip : BitVec 32) (r : Res) (ev : List Event) : Prop where
  trapped : r.trapped = false
  gip : r.hart.gip = ip + 4
  acc : memAccesses ev = r.acc
  runs : ∃ s', Runs env vi code s ev s' ∧ Rel r.hart s'

lemma Agrees.of_quiet {code : List Inst} {h' : Hart} {s' : QState}
    (hrun : Runs env vi code s [] s') (hr : Rel h' s') (hip : h'.gip = ip) :
    Agrees env vi code s ip { hart := { h' with gip := h'.gip + 4 } } [] :=
  ⟨rfl, by rw [hip], rfl, s', hrun, hr.gip _⟩

lemma Agrees.saved {f : Family} {code : List Inst} {r : Res} {ev : List Event}
    (h : Agrees env vi code (saved f ip s) ip r ev) :
    Agrees env vi (saveCode f ip ++ code) s ip r ev := by
  obtain ⟨s', hrun, hrel⟩ := h.runs
  exact ⟨h.trapped, h.gip, h.acc, s', (runs_saveCode f ip s).append hrun, hrel⟩

lemma agrees_lui (hvi : vi.globInfo = stateInfo) (hr : Rel h s) (hip : h.gip = ip)
    (tmp : ℕ) :
    Agrees env vi (bodyCode .lui raw ip tmp) s ip
      { hart := { (implLui raw h).hart.setGpr 0 0 with
          gip := (implLui raw h).hart.gip + 4 } } [] := by
  refine .of_quiet ?_ (hr.setRd raw (immU raw)) hip
  simp only [bodyCode]
  refine runs_toRd hvi fun d hd => ?_
  rw [exec_mkMov hd rfl, readOpr_vconst]

lemma agrees_auipc (hvi : vi.globInfo = stateInfo) (hr : Rel h s) (hip : h.gip = ip)
    (tmp : ℕ) :
    Agrees env vi (bodyCode .auipc raw ip tmp) s ip
      { hart := { (implAuipc raw h).hart.setGpr 0 0 with
          gip := (implAuipc raw h).hart.gip + 4 } } [] := by
  subst hip
  refine .of_quiet ?_ (hr.setRd raw (immU raw + h.gip)) rfl
  simp only [bodyCode]
  refine runs_toRd hvi fun d hd => ?_
  rw [exec_mkMov hd rfl, readOpr_vconst]

lemma agrees_arith (hvi : vi.globInfo = stateInfo) (hr : Rel h s) (hip : h.gip = ip)
    (tmp : ℕ) (q : Binop) (src : Src) :
    Agrees env vi (bodyCode (.arith q src) raw ip tmp) s ip
      { hart := { (implFamily (.arith q src) raw h).hart.setGpr 0 0 with
          gip := (implFamily (.arith q src) raw h).hart.gip + 4 } } [] := by
  refine .of_quiet ?_
    (hr.setRd raw (q.value (CPUState.gpr h.cpu (rs1 raw)) (src.val raw h.cpu))) hip
  simp only [bodyCode]
  refine runs_toRd hvi fun d hd => ?_
  rw [exec_applyFolder hd (isReadable_gprop _ _) (isReadable_src src raw)
    (fun _ _ => gprop_const) (fun _ _ => src_const), readOpr_gprop_I32 hvi hr (rs1_lt raw),
    readOpr_src hvi hr]

lemma agrees_load (hvi : vi.globInfo = stateInfo) (h32 : 32 ≤ tmp) {sz : VType} {sgn : VSign}
    (hx0 : isX0Load (.load sz sgn) raw = false) (hr : Rel h s) (hip : h.gip = ip) :
    ∃ ev, Agrees env vi (loadCode raw sz sgn tmp) s ip
      { acc := (implLoad raw h sz sgn).acc
        hart := { (implLoad raw h sz sgn).hart.setGpr 0 0 with
          gip := (implLoad raw h sz sgn).hart.gip + 4 } } ev := by
  obtain ⟨s1, hrun, hcpu, hmem, haddr⟩ := runs_addressCode env raw hvi h32
    (immI raw) s
  rw [readOpr_gprop_I32 hvi hr (rs1_lt raw)] at haddr
  have hr1 := hr.of_cpu hcpu hmem
  have hread : (addressOpr raw (immI raw) tmp).isReadable = true := by
    rw [addressOpr]
    split
    · rfl
    · exact isReadable_gprop _ _
  set v := sgn.extend sz (h.mem.load (gpr h.cpu (rs1 raw) + immI raw).toNat sz.toSize) with hv
  -- the load, into the destination or, for `x0`, into the temporary
  obtain ⟨s', hexec, hrel⟩ : ∃ s', exec env vi (.mkVMLoad sz sgn
      (if rd raw ≠ 0 then vgpr (rd raw) else addressOpr raw (immI raw) tmp)
      (addressOpr raw (immI raw) tmp)) s1 =
        ([⟨.load (gpr h.cpu (rs1 raw) + immI raw) sz
          (h.mem.load (gpr h.cpu (rs1 raw) + immI raw).toNat sz.toSize), s1.cpu⟩], .next, s') ∧
      Rel ((h.setGpr (rd raw) v).setGpr 0 0) s' := by
    by_cases h0 : rd raw = 0
    · have himm : immI raw ≠ 0 := by
        simpa [isX0Load, h0] using hx0
      have htmp : addressOpr raw (immI raw) tmp = .vgpr .I32 tmp := by
        rw [addressOpr, if_pos himm]
      rw [if_neg (not_not.mpr h0), exec_mkVMLoad (by rw [htmp]; rfl) hread, haddr, hr1.mem]
      refine ⟨_, rfl, ?_⟩
      obtain ⟨h1, h2, -⟩ := writeOpr_temp hvi s1 h32 v
      have hrd := hr1.setRd raw v
      rw [setRd, if_pos h0] at hrd
      rw [htmp]
      exact hrd.of_cpu h1 h2
    · rw [if_pos h0, exec_mkVMLoad rfl hread, haddr, hr1.mem]
      refine ⟨_, rfl, ?_⟩
      rw [writeOpr_vgpr hvi s1 h0 (rd_lt raw)]
      have hrd := hr1.setRd raw v
      rwa [setRd, if_neg h0] at hrd
  exact ⟨_, rfl, by rw [← hip]; rfl, rfl, s', hrun.append (.single hexec), hrel.gip _⟩

lemma agrees_store (hvi : vi.globInfo = stateInfo) (h32 : 32 ≤ tmp) {sz : VType}
    (hr : Rel h s) (hip : h.gip = ip) :
    ∃ ev, Agrees env vi (storeCode raw sz tmp) s ip
      { acc := (implStore raw h sz).acc
        hart := { (implStore raw h sz).hart with
          gip := (implStore raw h sz).hart.gip + 4 } } ev := by
  obtain ⟨s1, hrun, hcpu, hmem, haddr⟩ := runs_addressCode env raw hvi h32
    (immS raw) s
  rw [readOpr_gprop_I32 hvi hr (rs1_lt raw)] at haddr
  have hr1 := hr.of_cpu hcpu hmem
  have hread : (addressOpr raw (immS raw) tmp).isReadable = true := by
    rw [addressOpr]
    split
    · rfl
    · exact isReadable_gprop _ _
  refine ⟨_, rfl, by rw [← hip]; rfl, ?_, _, hrun.append (.single (exec_mkVMStore hread
    (isReadable_gprop _ _) s1)), ?_⟩
  rotate_left
  · rw [haddr, readOpr_gprop hvi hr1 (rs2_lt raw), hr1.mem]
    refine ⟨hr1.cpu, ?_, hr1.x0⟩
    simp only [implStore, ByteMem.store_lowBytes]
    rfl
  · rw [haddr, readOpr_gprop hvi hr1 (rs2_lt raw), ByteMem.lowBytes_lowBytes]
    simp only [min_self]
    rfl

section
variable (other : RuntimeStubId → BitVec 32 → ByteMem → ByteMem → HelperRes)
  (clobber : RuntimeStubId → (ℕ → BitVec 32) → ByteMem → ByteMem → ℕ → BitVec 32)

variable (env vi) in
/-- A call of a helper, by the helper's result. -/
lemma exec_mkHcall (stub : RuntimeStubId) (raw : BitVec 32) (s : QState) :
    let r := env.helper stub raw s.cpu s.mem
    ∃ preg, exec env vi (.mkHcall stub (vconst raw)) s =
      ([⟨.hcall stub raw, s.cpu⟩], if r.trap then .trap else .next,
        { s with cpu := r.cpu, mem := r.mem, preg := preg }) := by
  refine ⟨fun p => if Qcg.ArchTraits.GPR_CALL_CLOBBER.test p then
    env.clobber stub s.preg s.cpu s.mem p else s.preg p, ?_⟩
  simp only [exec, Inst.legal, Inst.mkHcall, vconst, List.all_cons, List.all_nil,
    VOperand.isReadable, Bool.and_true, if_true, List.map_cons, List.map_nil, List.headD_cons,
    readOpr_const_I32]

/-- The stub of an instruction that does nothing. -/
lemma helper_fence {op : Insn.Op} {stub : RuntimeStubId} (hf : family op = .fence stub)
    (raw : BitVec 32) (cpu mem : ByteMem) :
    (helperEnv other clobber).helper stub raw cpu mem =
      ⟨setIp cpu (CPUState.ip cpu + 4), mem, false⟩ := by
  cases op <;> cases hf <;> rfl

/-- The stub of an instruction that raises a trap. -/
lemma helper_call {op : Insn.Op} {stub : RuntimeStubId} {trap : TrapCode}
    (hf : family op = .call stub trap) (raw : BitVec 32) (cpu mem : ByteMem) :
    (helperEnv other clobber).helper stub raw cpu mem =
      ⟨setTrapno (setIp (setIp cpu (CPUState.ip cpu)) (CPUState.ip cpu)) trap, mem, true⟩ := by
  cases op <;> cases hf <;> rfl

/-- The code of an instruction that does not leave its block agrees with the handler. -/
theorem insnCode_agrees (raw : BitVec 32) {op : Insn.Op} (hend : (family op).ends = false)
    (hx0 : isX0Load (family op) raw = false) (hvi : vi.globInfo = stateInfo) (h32 : 32 ≤ tmp)
    (hr : Rel h s) (hip : h.gip = ip) :
    ∃ ev, Agrees (helperEnv other clobber) vi (insnCode (family op) raw ip tmp) s ip
      (Interp.handler op raw h) ev := by
  rw [handler_family, handlerFamily]
  subst hip
  have hr1 := hr.saved (family op)
  have hip := gip_savedHart (family op) h
  suffices hbody : ∃ ev, Agrees (helperEnv other clobber) vi (bodyCode (family op) raw h.gip tmp)
      (saved (family op) h.gip s) h.gip (handlerFamily (family op) raw h) ev by
    obtain ⟨ev, hev⟩ := hbody
    exact ⟨ev, hev.saved⟩
  rw [handlerFamily, ← savedHart]
  cases hf : family op with
  | illegal | jal | jalr | brcc | call =>
    rw [hf] at hend
    cases hend
  | lui => exact ⟨[], agrees_lui hvi (hf ▸ hr1) (hf ▸ hip) tmp⟩
  | auipc => exact ⟨[], agrees_auipc hvi (hf ▸ hr1) (hf ▸ hip) tmp⟩
  | arith q src => exact ⟨[], agrees_arith hvi (hf ▸ hr1) (hf ▸ hip) tmp q src⟩
  | load sz sgn => exact agrees_load hvi h32 (hf ▸ hx0) (hf ▸ hr1) (hf ▸ hip)
  | store sz => exact agrees_store hvi h32 (hf ▸ hr1) (hf ▸ hip)
  | fence stub =>
    obtain ⟨preg, hexec⟩ := exec_mkHcall (helperEnv other clobber) vi stub raw s
    rw [helper_fence other clobber hf] at hexec
    exact ⟨_, rfl, rfl, rfl, _, .single hexec, hr.cpu.setIp_right _, hr.mem, hr.x0⟩

/-- A call that raises a trap leaves the block with the CPU state of the interpreter's trap. -/
theorem insnCode_traps (raw : BitVec 32) (vi : VRegsInfo) (tmp : ℕ) {op : Insn.Op} {stub : RuntimeStubId} {trap : TrapCode}
    (hf : family op = .call stub trap) (hr : Rel h s) (hip : h.gip = ip) (rest : List Inst) :
    (Interp.handler op raw h).trapped = true ∧ (Interp.handler op raw h).acc = [] ∧
      ∃ ev s', execList (helperEnv other clobber) vi (insnCode (family op) raw ip tmp ++ rest) s =
          (ev, .trap, s') ∧ memAccesses ev = [] ∧ s'.cpu = (Interp.handler op raw h).hart.cpu ∧
        s'.mem = (Interp.handler op raw h).hart.mem := by
  subst hip
  have htrap : Interp.handler op raw h =
      raiseTrap trap { h with cpu := setIp h.cpu h.gip } := by
    rw [handler_family, handlerFamily, hf]
    rfl
  rw [htrap]
  refine ⟨rfl, rfl, ?_⟩
  obtain ⟨preg, hexec⟩ := exec_mkHcall (helperEnv other clobber) vi stub raw
    (saved (family op) h.gip s)
  rw [helper_call other clobber hf] at hexec
  have hs : saved (family op) h.gip s = { s with cpu := setIp s.cpu h.gip } := by
    rw [hf]
    rfl
  rw [insnCode, List.append_assoc, runs_saveCode, hf, bodyCode, List.singleton_append,
    execList_cons_leave (by rw [← hf, hexec]; exact Qir.Flow.noConfusion), ← hf, hexec]
  refine ⟨_, _, rfl, rfl, ?_, ?_⟩
  · simp only [hs, ip_setIp, raiseTrap]
    rw [hr.cpu.setIp_eq, setIp_setIp]
  · rw [hs]
    exact hr.mem

end

end Rv32jit.Translate
