/-
# The meaning of a region

One machine runs a region at every stage of its compilation.  It has the local virtual
registers, the physical registers, the spill frame, the CPU state and the guest memory.  A
global virtual register has no cell of its own: it *is* its home in the CPU state.  A register
written at a narrow type keeps its upper bytes, as on the host.

An execution yields a trace.  Each event of the trace carries the CPU state at the moment of
the access, so that two traces can be compared as seen by a memory fault or by a helper.
-/
import Rv32jit.Lib.ByteMem
import Rv32jit.Codegen.ArchTraits

namespace Rv32jit.Qir

/-! ### States and events -/

/-- What a region runs on: virtual registers, the CPU state and guest memory. -/
structure QState where
  /-- The local virtual registers. -/
  vreg : ℕ → BitVec 32
  /-- The physical registers. -/
  preg : ℕ → BitVec 32
  frame : ByteMem
  /-- The CPU state, by byte offset. -/
  cpu : ByteMem
  /-- The guest memory, by distance from `mmu::base`. -/
  mem : ByteMem

/-- An access to guest memory, or a call of a stub. -/
inductive Access
  | load (addr : BitVec 32) (sz : VType) (val : BitVec 32)
  | store (addr : BitVec 32) (sz : VType) (val : BitVec 32)
  | hcall (stub : RuntimeStubId) (arg : BitVec 32)
  | branch (b : ℕ)
deriving DecidableEq

/-- An access together with the CPU state at that moment. -/
structure Event where
  access : Access
  cpu : ByteMem

/-- What a runtime helper does to the CPU state and the memory, and whether it raises a trap
instead of returning. -/
structure HelperRes where
  cpu : ByteMem
  mem : ByteMem
  trap : Bool

/-- The helpers, given the argument, the CPU state and the memory, and what they leave in the
physical registers, given these registers, the CPU state and the memory. -/
structure HelperEnv where
  helper : RuntimeStubId → BitVec 32 → ByteMem → ByteMem → HelperRes
  clobber : RuntimeStubId → (ℕ → BitVec 32) → ByteMem → ByteMem → ℕ → BitVec 32

/-- How an instruction passes control on. -/
inductive Flow
  | next
  | br (k : ℕ)
  | gbr (ip : BitVec 32)
  | gbrind (ip : BitVec 32)
  | trap
  | stuck
deriving DecidableEq

/-! ### Operations on values -/

/-- The comparison as a truth value. -/
def CondCode.holds (cc : CondCode) (a b : BitVec 32) : Bool :=
  match cc with
  | .EQ => a == b
  | .NE => a != b
  | .LE => a.sle b
  | .LT => a.slt b
  | .GE => b.sle a
  | .GT => b.slt a
  | .LEU => a.ule b
  | .LTU => a.ult b
  | .GEU => b.ule a
  | .GTU => b.ult a

/-- A loaded value of type `sz`, extended to 32 bits. -/
def VSign.extend (sgn : VSign) (sz : VType) (v : BitVec 32) : BitVec 32 :=
  match sgn with
  | .U => ByteMem.lowBytes sz.toSize v
  | .S => (v.setWidth (8 * sz.toSize)).signExtend 32

/-- The effect of an operation, given the values of its inputs. -/
structure OpRes where
  acc : List Access := []
  flow : Flow := .next
  mem : ByteMem
  outs : List (BitVec 32) := []

/-- The meaning of every operation but `hcall`. -/
def Op.eval (op : Op) (vals : List (BitVec 32)) (m : ByteMem) : OpRes :=
  match op, vals with
  | .br, [] => { flow := .br 0, mem := m }
  | .brcc cc, [a, b] => { flow := .br (if cc.holds a b then 0 else 1), mem := m }
  | .gbr tpc, [] => { flow := .gbr tpc, mem := m }
  | .gbrind, [t] => { flow := .gbrind t, mem := m }
  | .vmload sz sgn, [a] =>
      let v : BitVec 32 := m.load a.toNat sz.toSize
      { acc := [.load a sz v], mem := m, outs := [sgn.extend sz v] }
  | .vmstore sz _, [a, v] =>
      { acc := [.store a sz (ByteMem.lowBytes sz.toSize v)], mem := m.store a.toNat sz.toSize v }
  | .setcc cc, [a, b] => { mem := m, outs := [if cc.holds a b then 1 else 0] }
  | .mov, [a] => { mem := m, outs := [a] }
  | .add, [a, b] => { mem := m, outs := [a + b] }
  | .sub, [a, b] => { mem := m, outs := [a - b] }
  | .and, [a, b] => { mem := m, outs := [a &&& b] }
  | .or, [a, b] => { mem := m, outs := [a ||| b] }
  | .xor, [a, b] => { mem := m, outs := [a ^^^ b] }
  | .sra, [a, b] => { mem := m, outs := [a.sshiftRight (b.toNat % 32)] }
  | .srl, [a, b] => { mem := m, outs := [a >>> (b.toNat % 32)] }
  | .sll, [a, b] => { mem := m, outs := [a <<< (b.toNat % 32)] }
  | _, _ => { flow := .stuck, mem := m }

/-- Only the operations with side effects touch the memory or call out. -/
lemma Op.eval_acc {op : Op} {vals : List (BitVec 32)} {m : ByteMem} (h : op.sideeff = false) :
    (op.eval vals m).acc = [] := by
  unfold Op.eval
  split <;> simp_all [Op.sideeff]

/-- An operation that is not stuck has a result for each output. -/
lemma Op.eval_outs {op : Op} {vals : List (BitVec 32)} {m : ByteMem}
    (h : (op.eval vals m).flow ≠ .stuck) : (op.eval vals m).outs.length = op.nOut := by
  unfold Op.eval at h ⊢
  split <;> simp_all [Op.nOut]

/-- An operation that is no terminator stays in its block. -/
lemma Op.eval_flow {op : Op} (vals : List (BitVec 32)) (m : ByteMem)
    (h : op.isTerminator = false) :
    (op.eval vals m).flow = .next ∨ (op.eval vals m).flow = .stuck := by
  cases op <;> rcases vals with _ | ⟨a, _ | ⟨b, _ | ⟨c, l⟩⟩⟩ <;>
    first | exact Or.inl rfl | exact Or.inr rfl | cases h

/-- A terminator does not pass control on to the next instruction. -/
lemma Op.eval_flow_terminator {op : Op} {vals : List (BitVec 32)} {m : ByteMem}
    (h : op.isTerminator = true) : (op.eval vals m).flow ≠ .next := by
  cases op <;> rcases vals with _ | ⟨a, _ | ⟨b, _ | ⟨c, l⟩⟩⟩ <;>
    first | exact Flow.noConfusion | cases h

/-! ### Operands -/

section
variable (vi : VRegsInfo)

/-- The value of an operand, zero-extended from its type. -/
def readOpr (s : QState) : VOperand → BitVec 32
  | .const t c => ByteMem.lowBytes t.toSize c
  | .vgpr t r =>
      match vi.getGlobalInfo r with
      | some g => s.cpu.load g.stateOffs t.toSize
      | none => ByteMem.lowBytes t.toSize (s.vreg r)
  | .pgpr t p => ByteMem.lowBytes t.toSize (s.preg p)
  | .slot true t o => s.cpu.load o t.toSize
  | .slot false t o => s.frame.load o t.toSize
  | .bad => 0

/-- Writes an operand at its type. -/
def writeOpr (s : QState) (opr : VOperand) (v : BitVec 32) : QState :=
  match opr with
  | .vgpr t r =>
      match vi.getGlobalInfo r with
      | some g => { s with cpu := s.cpu.store g.stateOffs t.toSize v }
      | none =>
          { s with vreg := Function.update s.vreg r (ByteMem.setLow t.toSize (s.vreg r) v) }
  | .pgpr t p => { s with preg := Function.update s.preg p (ByteMem.setLow t.toSize (s.preg p) v) }
  | .slot true t o => { s with cpu := s.cpu.store o t.toSize v }
  | .slot false t o => { s with frame := s.frame.store o t.toSize v }
  | .const _ _ | .bad => s

/-- Writes the outputs of an instruction. -/
def writeOuts (s : QState) : List VOperand → List (BitVec 32) → QState
  | o :: os, v :: vs => writeOuts (writeOpr vi s o v) os vs
  | _, _ => s

/-- Writing a register leaves the value of every other one, if neither is accessed at a type
wider than its own. -/
lemma readOpr_writeOpr_of_ne {v w : ℕ} {t u : VType} (hne : w ≠ v)
    (ht : ∀ g, vi.getGlobalInfo v = some g → t.toSize ≤ g.type.toSize)
    (hu : ∀ g, vi.getGlobalInfo w = some g → u.toSize ≤ g.type.toSize) (s : QState)
    (x : BitVec 32) :
    readOpr vi (writeOpr vi s (.vgpr t v) x) (.vgpr u w) = readOpr vi s (.vgpr u w) := by
  cases hv : vi.getGlobalInfo v with
  | none =>
    cases hw : vi.getGlobalInfo w <;> simp [readOpr, writeOpr, hv, hw, hne]
  | some g =>
    cases hw : vi.getGlobalInfo w with
    | none => simp [readOpr, writeOpr, hv, hw]
    | some k =>
      simp only [readOpr, writeOpr, hv, hw]
      have hap : k.Apart g := VRegsInfo.homes_apart hw hv hne
      have hg := ht g hv
      have hk := hu k hw
      refine ByteMem.load_store_disjoint _ _ ?_
      rcases hap with h | h
      · exact Or.inl (by omega)
      · exact Or.inr (by omega)

/-- Reading a register at a narrower type. -/
lemma readOpr_vgpr_narrow {t t' : VType} (h : t'.toSize ≤ t.toSize) (s : QState) (v : ℕ) :
    readOpr vi s (.vgpr t' v) = ByteMem.lowBytes t'.toSize (readOpr vi s (.vgpr t v)) := by
  cases hg : vi.getGlobalInfo v with
  | some g => simp [readOpr, hg, ByteMem.lowBytes_load, h]
  | none => simp [readOpr, hg, h]

end

/-- An operand that can be read. -/
def VOperand.isReadable : VOperand → Bool
  | .bad => false
  | _ => true

/-- An operand that can be written: a register or a slot. -/
def VOperand.isWritable : VOperand → Bool
  | .const _ _ | .bad => false
  | _ => true

/-- Every input can be read and every output written. -/
def Inst.legal (ins : Inst) : Bool :=
  ins.i.all VOperand.isReadable && ins.o.all VOperand.isWritable

/-! ### Execution -/

section
variable (env : HelperEnv) (vi : VRegsInfo)

/-- One instruction. -/
def exec (ins : Inst) (s : QState) : List Event × Flow × QState :=
  if ins.legal then
    match ins.op with
    | .hcall stub =>
        let arg := (ins.i.map (readOpr vi s)).headD 0
        let r := env.helper stub arg s.cpu s.mem
        ([⟨.hcall stub arg, s.cpu⟩], if r.trap then .trap else .next,
          { s with
            cpu := r.cpu
            mem := r.mem
            preg := fun p =>
              if Qcg.ArchTraits.GPR_CALL_CLOBBER.test p then env.clobber stub s.preg s.cpu s.mem p
              else s.preg p })
    | op =>
        let r := op.eval (ins.i.map (readOpr vi s)) s.mem
        (r.acc.map (⟨·, s.cpu⟩), r.flow, writeOuts vi { s with mem := r.mem } ins.o r.outs)
  else ([], .stuck, s)

/-- Instructions in turn, up to the first that leaves the list; control that runs off the end
is stuck. -/
def execList : List Inst → QState → List Event × Flow × QState
  | [], s => ([], .stuck, s)
  | ins :: rest, s =>
      match exec env vi ins s with
      | (ev, .next, s') =>
          let r := execList rest s'
          (ev ++ r.1, r.2)
      | r => r

variable {env vi}

/-- The unfolding of `exec` for all operations but `hcall`. -/
lemma exec_eq_eval {ins : Inst} (hop : ∀ stub, ins.op ≠ .hcall stub) (hl : ins.legal = true)
    (s : QState) :
    exec env vi ins s =
      (((ins.op.eval (ins.i.map (readOpr vi s)) s.mem).acc.map (⟨·, s.cpu⟩)),
        (ins.op.eval (ins.i.map (readOpr vi s)) s.mem).flow,
        writeOuts vi { s with mem := (ins.op.eval (ins.i.map (readOpr vi s)) s.mem).mem } ins.o
          (ins.op.eval (ins.i.map (readOpr vi s)) s.mem).outs) := by
  simp only [exec, hl, if_true]

lemma exec_illegal {ins : Inst} (hl : ins.legal = false) (s : QState) :
    exec env vi ins s = ([], .stuck, s) := by
  simp [exec, hl]

/-- A move whose operands can be read and written. -/
lemma exec_mkMov {d o : VOperand} (hd : d.isWritable = true) (ho : o.isReadable = true)
    (s : QState) : exec env vi (.mkMov d o) s = ([], .next, writeOpr vi s d (readOpr vi s o)) := by
  simp [exec, Inst.legal, Inst.mkMov, hd, ho, Op.eval, writeOuts]

/-- An instruction that passes control on to the rest of its list. -/
lemma execList_cons_next {ins : Inst} {s : QState} (h : (exec env vi ins s).2.1 = .next)
    (rest : List Inst) :
    execList env vi (ins :: rest) s =
      ((exec env vi ins s).1 ++ (execList env vi rest (exec env vi ins s).2.2).1,
        (execList env vi rest (exec env vi ins s).2.2).2) := by
  simp only [execList]
  generalize exec env vi ins s = x at h
  obtain ⟨ev, fl, s'⟩ := x
  simp only at h
  subst h
  rfl

/-- An instruction that leaves its list. -/
lemma execList_cons_leave {ins : Inst} {s : QState} (h : (exec env vi ins s).2.1 ≠ .next)
    (rest : List Inst) : execList env vi (ins :: rest) s = exec env vi ins s := by
  simp only [execList]
  generalize exec env vi ins s = x at h
  obtain ⟨ev, fl, s'⟩ := x
  cases fl <;> first | rfl | exact absurd rfl h

lemma execList_cons_of_next {ins : Inst} {s s' : QState} (h : exec env vi ins s = ([], .next, s'))
    (rest : List Inst) : execList env vi (ins :: rest) s = execList env vi rest s' := by
  rw [execList_cons_next (by rw [h]), h]
  rfl

end

/-- Where a run of a region stands. -/
inductive Outcome
  | at (b : ℕ)
  | gbr (ip : BitVec 32)
  | gbrind (ip : BitVec 32)
  | trap
  | stuck
deriving DecidableEq

/-- Passing on control at the end of a block. -/
def leave (succs : List ℕ) : Flow → Outcome
  | .br k => match succs[k]? with
    | some b => .at b
    | none => .stuck
  | .gbr ip => .gbr ip
  | .gbrind ip => .gbrind ip
  | .trap => .trap
  | .next | .stuck => .stuck

/-- Runs block `b` and says where control goes. -/
def execBlock (env : HelperEnv) (r : Region) (b : ℕ) (s : QState) :
    List Event × Outcome × QState :=
  match r.blist[b]? with
  | none => ([], .stuck, s)
  | some blk =>
      let x := execList env r.vregsInfo blk.ilist s
      (x.1, leave blk.succs x.2.1, x.2.2)

/-- Runs at most `n` blocks of a region from the start of block `b`. -/
def run (env : HelperEnv) (r : Region) : ℕ → ℕ → QState → List Event × Outcome × QState
  | 0, b, s => ([], .at b, s)
  | n + 1, b, s =>
      match execBlock env r b s with
      | (ev, .at b', s') =>
          let x := run env r n b' s'
          (ev ++ ⟨.branch b', s'.cpu⟩ :: x.1, x.2)
      | x => x

/-! ### Two codes for one region -/

/-- The two states hold the same CPU state and the same memory. -/
structure SameState (s s' : QState) : Prop where
  cpu : s'.cpu = s.cpu
  mem : s'.mem = s.mem

/-- From states related by `R` the two executions leave the same trace and pass on control in
the same way; unless they get stuck, their states are related by `R` again. -/
def SameRun {O : Type} (R : QState → QState → Prop) (stuck : O)
    (x x' : List Event × O × QState) : Prop :=
  x'.1 = x.1 ∧ x'.2.1 = x.2.1 ∧ (x.2.1 ≠ stuck → R x.2.2 x'.2.2)

lemma SameRun.mono {O : Type} {R S : QState → QState → Prop} {stuck : O}
    {x x' : List Event × O × QState} (h : SameRun R stuck x x') (hRS : ∀ s s', R s s' → S s s') :
    SameRun S stuck x x' :=
  ⟨h.1, h.2.1, fun hn => hRS _ _ (h.2.2 hn)⟩

lemma SameRun.trans {O : Type} {R S T : QState → QState → Prop} {stuck : O}
    {x x' x'' : List Event × O × QState} (h : SameRun R stuck x x') (h' : SameRun S stuck x' x'')
    (hT : ∀ s s' s'', R s s' → S s' s'' → T s s'') : SameRun T stuck x x'' :=
  ⟨h'.1.trans h.1, h'.2.1.trans h.2.1,
    fun hn => hT _ _ _ (h.2.2 hn) (h'.2.2 (by rwa [h.2.1]))⟩

/-- The code `δ` does what the instruction `ins` did: from states related by `R`, control that
goes on goes on in states related by `R'`, and control that leaves does so in states related by
`E`. -/
def Simulates (env : HelperEnv) (vi vi' : VRegsInfo) (R R' E : QState → QState → Prop)
    (ins : Inst) (δ : List Inst) : Prop :=
  ∀ s s', R s s' →
    ((exec env vi ins s).2.1 = .next → ∃ s'', R' (exec env vi ins s).2.2 s'' ∧
      ∀ rest, execList env vi' (δ ++ rest) s' =
        ((exec env vi ins s).1 ++ (execList env vi' rest s'').1, (execList env vi' rest s'').2)) ∧
    ((exec env vi ins s).2.1 ≠ .next → ∃ s'', (∀ rest, execList env vi' (δ ++ rest) s' =
        ((exec env vi ins s).1, (exec env vi ins s).2.1, s'')) ∧
      ((exec env vi ins s).2.1 ≠ .stuck → E (exec env vi ins s).2.2 s''))

/-- A list of instructions, the first of which is simulated. -/
lemma SameRun.cons {env : HelperEnv} {vi vi' : VRegsInfo} {R R' E : QState → QState → Prop}
    {ins : Inst} {δ rest rest' : List Inst} (h : Simulates env vi vi' R R' E ins δ)
    (hrest : ∀ s s', R' s s' →
      SameRun E .stuck (execList env vi rest s) (execList env vi' rest' s'))
    {s s' : QState} (hs : R s s') :
    SameRun E .stuck (execList env vi (ins :: rest) s) (execList env vi' (δ ++ rest') s') := by
  obtain ⟨hnext, hleave⟩ := h s s' hs
  by_cases hn : (exec env vi ins s).2.1 = .next
  · obtain ⟨s'', hs'', hrun⟩ := hnext hn
    rw [hrun rest', execList_cons_next hn]
    obtain ⟨e1, e2, e3⟩ := hrest _ _ hs''
    exact ⟨by rw [e1], e2, e3⟩
  · obtain ⟨s'', hrun, hsame⟩ := hleave hn
    rw [hrun rest', execList_cons_leave hn]
    exact ⟨rfl, rfl, hsame⟩

/-- Running `δ` from `s` has no effect but to lead to `s'`. -/
def Quiet (env : HelperEnv) (vi : VRegsInfo) (δ : List Inst) (s s' : QState) : Prop :=
  ∀ rest, execList env vi (δ ++ rest) s = execList env vi rest s'

section
variable {env : HelperEnv} {vi vi' : VRegsInfo}

lemma Quiet.nil (s : QState) : Quiet env vi [] s s := fun _ => rfl

lemma Quiet.append {δ ε : List Inst} {s t u : QState} (h1 : Quiet env vi δ s t)
    (h2 : Quiet env vi ε t u) : Quiet env vi (δ ++ ε) s u := by
  intro rest
  rw [List.append_assoc, h1, h2]

lemma Quiet.mov {d o : VOperand} (hd : d.isWritable = true) (ho : o.isReadable = true)
    (s : QState) : Quiet env vi [.mkMov d o] s (writeOpr vi s d (readOpr vi s o)) :=
  execList_cons_of_next (exec_mkMov hd ho s)

/-- One instruction `ins'` does what `ins` did, once its preparation `δ` has been run. -/
lemma Simulates.of_quiet {R R' E : QState → QState → Prop} {ins ins' : Inst} {δ : List Inst}
    (h : ∀ s s', R s s' → ∃ s1, Quiet env vi' δ s' s1 ∧
      (exec env vi' ins' s1).1 = (exec env vi ins s).1 ∧
      (exec env vi' ins' s1).2.1 = (exec env vi ins s).2.1 ∧
      ((exec env vi ins s).2.1 = .next → R' (exec env vi ins s).2.2 (exec env vi' ins' s1).2.2) ∧
      ((exec env vi ins s).2.1 ≠ .next → (exec env vi ins s).2.1 ≠ .stuck →
        E (exec env vi ins s).2.2 (exec env vi' ins' s1).2.2)) :
    Simulates env vi vi' R R' E ins (δ ++ [ins']) := by
  intro s s' hs
  obtain ⟨s1, hq, hev, hfl, hnext, hleave⟩ := h s s' hs
  refine ⟨fun hn => ⟨(exec env vi' ins' s1).2.2, hnext hn, fun rest => ?_⟩, fun hn =>
    ⟨(exec env vi' ins' s1).2.2, fun rest => ?_, hleave hn⟩⟩
  · rw [List.append_assoc, hq, ← hev]
    exact execList_cons_next (by rw [hfl, hn]) rest
  · rw [List.append_assoc, hq, ← hev, ← hfl]
    exact execList_cons_leave (by rw [hfl]; exact hn) rest

end

/-- Blocks that run alike make regions that run alike. -/
lemma run_of_blocks {env : HelperEnv} {r r' : Region} {R : QState → QState → Prop}
    (hcpu : ∀ s s', R s s' → s'.cpu = s.cpu)
    (h : ∀ b s s', R s s' → SameRun R .stuck (execBlock env r b s) (execBlock env r' b s'))
    (n b : ℕ) {s s' : QState} (hs : R s s') :
    SameRun R .stuck (run env r n b s) (run env r' n b s') := by
  induction n generalizing b s s' with
  | zero => exact ⟨rfl, rfl, fun _ => hs⟩
  | succ n ih =>
    have hb := h b s s' hs
    simp only [run]
    generalize execBlock env r b s = x at hb
    generalize execBlock env r' b s' = x' at hb
    obtain ⟨ev, out, t⟩ := x
    obtain ⟨ev', out', t'⟩ := x'
    obtain ⟨h1, h2, h3⟩ := hb
    simp only at h1 h2 h3
    subst h1 h2
    cases out' with
    | «at» b' =>
      have ht := h3 Outcome.noConfusion
      obtain ⟨i1, i2, i3⟩ := ih b' ht
      exact ⟨by simp only [i1, hcpu _ _ ht], i2, i3⟩
    | _ => exact ⟨rfl, rfl, h3⟩

/-! ### Straight-line code -/

/-- Running `code` from `s` leaves the trace `ev` and passes control on in the state `s'`. -/
def Runs (env : HelperEnv) (vi : VRegsInfo) (code : List Inst) (s : QState) (ev : List Event)
    (s' : QState) : Prop :=
  ∀ rest, execList env vi (code ++ rest) s =
    (ev ++ (execList env vi rest s').1, (execList env vi rest s').2)

section
variable {env : HelperEnv} {vi : VRegsInfo}

lemma Runs.nil (s : QState) : Runs env vi [] s [] s := fun _ => rfl

lemma Runs.append {c d : List Inst} {s t u : QState} {ev fv : List Event}
    (h : Runs env vi c s ev t) (h' : Runs env vi d t fv u) :
    Runs env vi (c ++ d) s (ev ++ fv) u := by
  intro rest
  rw [List.append_assoc, h, h', List.append_assoc]

lemma Runs.single {ins : Inst} {s s' : QState} {ev : List Event}
    (h : exec env vi ins s = (ev, .next, s')) : Runs env vi [ins] s ev s' := by
  intro rest
  rw [List.singleton_append, execList_cons_next (by rw [h]), h]

/-- Code determines where it leads. -/
lemma Runs.unique {code : List Inst} {s s' s'' : QState} {ev ev' : List Event}
    (h : Runs env vi code s ev s') (h' : Runs env vi code s ev' s'') : s' = s'' :=
  congrArg (fun x => x.2.2) ((h [.mkGBr 0]).symm.trans (h' [.mkGBr 0]))

lemma Runs.cons {ins : Inst} {d : List Inst} {s t u : QState} {fv : List Event}
    (h : exec env vi ins s = ([], .next, t)) (h' : Runs env vi d t fv u) :
    Runs env vi (ins :: d) s fv u :=
  Runs.append (Runs.single h) h'

/-- Code that runs to its end passes through its first instruction. -/
lemma Runs.cons_inv {ins : Inst} {d : List Inst} {s s' : QState} {ev : List Event}
    (h : Runs env vi (ins :: d) s ev s') :
    (exec env vi ins s).2.1 = .next ∧ ∃ fv, ev = (exec env vi ins s).1 ++ fv ∧
      Runs env vi d (exec env vi ins s).2.2 fv s' := by
  have hn : (exec env vi ins s).2.1 = .next := by
    by_contra hne
    -- the rest of the code would not matter
    have h1 := h []
    have h2 := h [.mkBr]
    rw [List.cons_append, execList_cons_leave hne] at h1 h2
    rw [h1] at h2
    exact Flow.noConfusion (congrArg (fun x => x.2.1) h2)
  have hev : ev = (exec env vi ins s).1 ++ (execList env vi d (exec env vi ins s).2.2).1 := by
    have h1 := h []
    rw [List.append_nil, execList_cons_next hn] at h1
    simpa [execList] using congrArg Prod.fst h1.symm
  refine ⟨hn, _, hev, fun rest => ?_⟩
  have h2 := h rest
  rw [List.cons_append, execList_cons_next hn, hev, List.append_assoc] at h2
  obtain ⟨h3, h4⟩ := Prod.ext_iff.mp h2
  exact Prod.ext (List.append_cancel_left h3) h4

end

/-! ### A small machine for examples -/

/-- One 32-bit global register with its home at offset 0, and one local register. -/
def sampleVRegs : VRegsInfo where
  globInfo := { regs := [⟨0, .I32⟩], apart := List.pairwise_singleton _ _ }
  locInfo := [.I32]

/-- A region of one block without locals. -/
def sampleRegion (l : List Inst) : Region :=
  { blist := [{ ilist := l ++ [.mkGBr 0] }], vregsInfo := sampleVRegs }

/-- A machine whose helpers do nothing. -/
def idleEnv : HelperEnv where
  helper _ _ cpu mem := ⟨cpu, mem, false⟩
  clobber _ preg _ _ := preg

/-- All bytes of the CPU state are 7, everything else is 0. -/
def sampleState : QState where
  vreg _ := 0
  preg _ := 0
  frame _ := 0
  cpu _ := 7
  mem _ := 0

end Rv32jit.Qir
