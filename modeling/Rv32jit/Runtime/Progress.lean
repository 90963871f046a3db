/-
# Where the machine stops

From every state that a run reaches the machine can go on, but for four: a block whose code is
stuck, which only a load to `x0` from the constant address zero makes it; a trap that is no call; an
address without a block whose words are not compiled, or have no room in the pools; and an indirect
branch to address 0 that meets the empty entry of its cache.
-/
import Rv32jit.Guest.HostCode
import Rv32jit.Runtime.Refines

namespace Rv32jit.Qcg

open Qir

variable {env : HelperEnv} {vi : VRegsInfo} {ins : Inst} {s : QState}

/-! ### Instructions of the right types -/

/-- With an operand for each of its inputs an operation is not stuck. -/
lemma eval_ne_stuck {op : Op} {vals : List (BitVec 32)} (m : ByteMem) (h : vals.length = op.nIn)
    (hop : ∀ stub, op ≠ .hcall stub) : (op.eval vals m).flow ≠ .stuck := by
  cases op with
  | hcall stub => exact absurd rfl (hop stub)
  | _ =>
    rcases vals with _ | ⟨a, _ | ⟨b, _ | ⟨c, l⟩⟩⟩ <;>
      first | exact Qir.Flow.noConfusion | cases h

lemma Value.isReadable {t : VType} {x : VOperand} (h : Value t x) : x.isReadable = true := by
  cases x <;> first | rfl | exact h.elim

lemma Plain.legal (h : Plain ins) : ins.legal = true := by
  rw [Inst.legal, Bool.and_eq_true, List.all_eq_true, List.all_eq_true]
  cases h with
  | mov ht hd hx =>
    refine ⟨fun x hx' => ?_, fun x hx' => ?_⟩
    · rw [List.mem_singleton.mp hx']
      exact hx.isReadable
    · rw [List.mem_singleton.mp hx']
      rcases hd with ⟨v, rfl⟩ | ⟨offs, rfl⟩ <;> rfl
  | op _ _ hin hout =>
    refine ⟨fun x hx => ?_, fun x hx => ?_⟩
    · obtain ⟨k, hk⟩ := List.mem_iff_getElem?.mp hx
      exact (hin k x hk).isReadable
    · obtain ⟨v, rfl⟩ := hout x hx
      rfl

lemma Plain.ne_stuck (h : Plain ins) (s : QState) : (exec env vi ins s).2.1 ≠ .stuck := by
  by_cases hop : ∃ stub, ins.op = .hcall stub
  · obtain ⟨stub, hop⟩ := hop
    simp only [exec, h.legal, if_true, hop]
    split <;> exact Qir.Flow.noConfusion
  · have hop : ∀ stub, ins.op ≠ .hcall stub := fun stub h => hop ⟨stub, h⟩
    rw [exec_eq_eval hop h.legal]
    exact eval_ne_stuck s.mem (by rw [List.length_map, ins.hi]) hop

end Rv32jit.Qcg

namespace Rv32jit.Runtime

open Qir Qcg Insn CPUState Translate Interp TCache Jit Machine

variable {vi : VRegsInfo} {code : List Inst} {blk : Block} {s s' : QState} {rc : RegionCode}
  {b ptr slot : ℕ} {a gip : BitVec 32} {m m' : Machine} {H : List Executed} {fs : List Fetch}
  {j : Jit}
  {other : RuntimeStubId → BitVec 32 → ByteMem → ByteMem → HelperRes}
  {clobber : RuntimeStubId → (ℕ → BitVec 32) → ByteMem → ByteMem → ℕ → BitVec 32}

/-! ### Blocks -/

/-- The instruction at the end of a block leaves it, with one of its successors if with any. -/
lemma exec_last {last : Inst} (hp : Plain last) (hl : last.op.leaves = true) (s : QState) :
    (Qir.exec (helperEnv other clobber) vi last s).2.1 ≠ .next ∧
      ∀ k, (Qir.exec (helperEnv other clobber) vi last s).2.1 = .br k → k < last.op.nSuccs := by
  by_cases hop : ∃ stub, last.op = .hcall stub
  · obtain ⟨stub, hop⟩ := hop
    -- the helpers of the calls raise a trap
    have htrap : ∀ raw cpu mem,
        ((helperEnv other clobber).helper stub raw cpu mem).trap = true := by
      intro raw cpu mem
      rw [hop] at hl
      cases stub <;> first | rfl | cases hl
    simp only [Qir.exec, hp.legal, if_true, hop, htrap]
    exact ⟨Qir.Flow.noConfusion, fun k hk => by cases hk⟩
  · have hop : ∀ stub, last.op ≠ .hcall stub := fun stub h => hop ⟨stub, h⟩
    have hterm : last.op.isTerminator = true := by
      cases hlo : last.op with
      | hcall stub => exact absurd hlo (hop stub)
      | _ =>
        rw [hlo] at hl
        exact hl
    rw [exec_eq_eval hop hp.legal]
    refine ⟨Op.eval_flow_terminator hterm, fun k hk => ?_⟩
    generalize last.i.map (readOpr vi s) = vals at hk
    cases hlo : last.op with
    | br =>
      rw [hlo] at hk
      rcases vals with _ | ⟨a, l⟩
      · cases hk
        exact Nat.zero_lt_one
      · cases hk
    | brcc cc =>
      rw [hlo] at hk
      rcases vals with _ | ⟨a, _ | ⟨b, _ | ⟨c, l⟩⟩⟩ <;> cases hk
      simp only [Op.nSuccs]
      split <;> decide
    | _ =>
      rw [hlo] at hk
      rcases vals with _ | ⟨a, _ | ⟨b, _ | ⟨c, l⟩⟩⟩ <;> cases hk

/-- The code of a block does not get stuck. -/
lemma leave_ne_stuck {body : List Inst} {last : Inst} (hp : ∀ ins ∈ body ++ [last], Plain ins)
    (hbody : ∀ ins ∈ body, ins.op.leaves = false) (hlast : last.op.leaves = true)
    {succs : List ℕ} (hsucc : succs.length = last.op.nSuccs) (s : QState) :
    leave succs (execList (helperEnv other clobber) vi (body ++ [last]) s).2.1 ≠ .stuck := by
  induction body generalizing s with
  | nil =>
    have hns : (Qir.exec (helperEnv other clobber) vi last s).2.1 ≠ .stuck :=
      (hp last (by simp)).ne_stuck s
    obtain ⟨hnext, hbr⟩ : (Qir.exec (helperEnv other clobber) vi last s).2.1 ≠ .next ∧ _ :=
      exec_last (hp last (by simp)) hlast s
    rw [List.nil_append, execList_cons_leave hnext]
    generalize (Qir.exec (helperEnv other clobber) vi last s).2.1 = fl at hnext hbr hns
    cases fl with
    | next => exact absurd rfl hnext
    | stuck => exact absurd rfl hns
    | br k =>
      rw [leave, List.getElem?_eq_getElem (by rw [hsucc]; exact hbr k rfl)]
      exact Outcome.noConfusion
    | _ => exact Outcome.noConfusion
  | cons ins body ih =>
    have hrest := ih (fun i hi => hp i (List.mem_cons_of_mem _ hi))
      (fun i hi => hbody i (List.mem_cons_of_mem _ hi))
    rw [List.cons_append]
    by_cases hn : (Qir.exec (helperEnv other clobber) vi ins s).2.1 = .next
    · rw [execList_cons_next hn]
      exact hrest _
    · rw [execList_cons_leave hn]
      have hterm : ins.op.isTerminator = false := by
        have := hbody ins List.mem_cons_self
        cases hop : ins.op with
        | hcall stub => rfl
        | _ =>
          rw [hop] at this
          exact this
      have hns : (Qir.exec (helperEnv other clobber) vi ins s).2.1 ≠ .stuck :=
        (hp ins (by simp)).ne_stuck s
      have htrap := ((exec_flow (helperEnv other clobber) vi hterm s).resolve_left hn).resolve_right
        hns
      rw [htrap]
      exact Outcome.noConfusion

/-- A block of a compiled region is stuck only if a word of the region is a load to `x0` from the
constant address zero. -/
lemma RegionCode.ne_stuck (rc : RegionCode) (hno : hasConstLoad rc.prog [rc.range] = false)
    (hentry : EntryAt rc.t b a) (s : QState) :
    (execBlock (helperEnv other clobber) rc.r b s).2.1 ≠ .stuck := by
  obtain ⟨-, hout, -⟩ := rc.spec.same (helperEnv other clobber) b s s ⟨rfl, rfl⟩
  have hnodup : ([rc.range].map Prod.fst).Nodup := List.nodup_singleton _
  rw [hout]
  obtain ⟨blk, hblk⟩ : ∃ blk, rc.t.region.blist[b]? = some blk := by
    rcases hentry with hfind | ⟨-, hblk⟩
    · obtain ⟨-, _, _, hblk, -⟩ := rc.spec.covered rc.spec.fits _ _ hfind
      exact ⟨_, hblk⟩
    · exact ⟨_, hblk⟩
  have hmem := List.mem_of_getElem? hblk
  have hplain := (allInsts_translate detects_plain hnodup rc.translated).mpr hno
  obtain ⟨body, last, hterm⟩ := (wellFormed_translate hnodup rc.translated).terminated blk hmem
  simp only [execBlock, hblk, hterm.ilist]
  refine leave_ne_stuck (fun ins hins => hplain blk hmem ins ?_) hterm.stays hterm.leaves
    hterm.succs s
  rw [hterm.ilist]
  exact hins

/-! ### The machine -/

/-- At the head of the loop a slot is held only if no trap is pending. -/
lemma held_of_step (h : Machine.Step (helperEnv other clobber) m fs m') {ip₀ : BitVec 32}
    {H : List Fetch} (hok : Ok ip₀ H m) (hctl : m'.ctl = .loop (some slot)) :
    trapno m'.s.cpu = TrapCode.NONE.toBits := by
  cases h with
  | escapeLink hsl hj hs =>
    rw [hs.cpu, (EqReserved.setIp _ _).trapno]
    exact hok.here.1
  | block hcode hfs hexec hnext =>
    obtain rfl := hctl
    rename_i out
    cases out <;> cases hnext
  | _ => cases hctl

end Rv32jit.Runtime
