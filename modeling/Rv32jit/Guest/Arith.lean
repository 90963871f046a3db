/-
# Straight-line computation

The code of a sequence of register instructions, from any address: it leaves the registers that
the interpreter leaves.
-/
import Rv32jit.Lib.FoldM
import Rv32jit.Guest.InsnCorrect

namespace Rv32jit.Translate

open Qir Insn CPUState

/-- The opcodes that compute a register from registers and immediates. -/
def isAlu : Insn.Op → Bool
  | .lui | .auipc
  | .addi | .slti | .sltiu | .xori | .ori | .andi
  | .slli | .srai | .srli
  | .sub | .add | .sll | .slt | .sltu | .xor | .sra | .srl | .or | .and => true
  | _ => false

/-- The translator's handlers for a sequence of words in turn. -/
def translateWords (ws : List (BitVec 32)) (t : Translator) : Option Translator :=
  ws.foldlM (fun t raw => Translator.handler (decode raw) raw t) t

variable {vi : VRegsInfo} {h : Interp.Hart} {s : QState} {ip : BitVec 32} {op : Insn.Op}

lemma family_of_isAlu (hop : isAlu op = true) :
    family op = .lui ∨ family op = .auipc ∨ ∃ q src, family op = .arith q src := by
  cases op <;> first
    | exact Or.inl rfl
    | exact Or.inr (Or.inl rfl)
    | exact Or.inr (Or.inr ⟨_, _, rfl⟩)
    | cases hop

/-- The code of a register instruction agrees with the handler, and accesses nothing. -/
lemma insnCode_agrees_alu (hop : isAlu op = true) (raw : BitVec 32) (tmp : ℕ)
    (hvi : vi.globInfo = stateInfo) (hr : Rel h s) (hip : h.gip = ip) (env : HelperEnv) :
    Agrees env vi (insnCode (family op) raw ip tmp) s ip (Interp.handler op raw h) [] := by
  rw [Interp.handler_family]
  rcases family_of_isAlu hop with hf | hf | ⟨q, src, hf⟩ <;> rw [hf]
  · exact agrees_lui hvi hr hip tmp
  · exact agrees_auipc hvi hr hip tmp
  · exact agrees_arith hvi hr hip tmp q src

lemma insnVRegs_alu (hop : isAlu op = true) (raw : BitVec 32) (vi : VRegsInfo) :
    insnVRegs (family op) raw vi = vi := by
  rcases family_of_isAlu hop with hf | hf | ⟨q, src, hf⟩ <;> rw [hf] <;> rfl

lemma ends_of_isAlu (hop : isAlu op = true) : (family op).ends = false := by
  rcases family_of_isAlu hop with hf | hf | ⟨q, src, hf⟩ <;> rw [hf] <;> rfl

lemma acc_of_isAlu (hop : isAlu op = true) (raw : BitVec 32) (h : Interp.Hart) :
    (Interp.handler op raw h).acc = [] ∧ (Interp.handler op raw h).hart.mem = h.mem := by
  rw [Interp.handler_family]
  rcases family_of_isAlu hop with hf | hf | ⟨q, src, hf⟩ <;> rw [hf] <;> exact ⟨rfl, rfl⟩

/-- For every sequence of register instructions, wherever it starts: the translator completes,
and in every state the code that it has emitted has no effect but to give each register the
value that the interpreter gives it. -/
theorem translateWords_agrees (ws : List (BitVec 32)) (hws : ∀ raw ∈ ws, isAlu (decode raw) = true)
    (t : Translator) (hvi : t.region.vregsInfo.globInfo = stateInfo) :
    ∃ t' code, translateWords ws t = some t' ∧ t.Emits code t' ∧
      t'.region.vregsInfo = t.region.vregsInfo ∧
      ∀ (env : HelperEnv) (h : Interp.Hart) (s : QState), Rel h s → h.gip = t.insn_ip →
        (Interp.steps ws h).trapped = false ∧ (Interp.steps ws h).acc = [] ∧
          (Interp.steps ws h).hart.mem = h.mem ∧
          ∃ s', Runs env t'.region.vregsInfo code s [] s' ∧ s'.mem = s.mem ∧
            gpr s'.cpu 0 = 0 ∧ ∀ i < 32, gpr s'.cpu i = (Interp.steps ws h).hart.gpr i := by
  suffices hmain : ∃ t' code, translateWords ws t = some t' ∧ t.Emits code t' ∧
      t'.region.vregsInfo = t.region.vregsInfo ∧
      ∀ (env : HelperEnv) (h : Interp.Hart) (s : QState), Rel h s → h.gip = t.insn_ip →
        (Interp.steps ws h).trapped = false ∧ (Interp.steps ws h).acc = [] ∧
          (Interp.steps ws h).hart.mem = h.mem ∧
          ∃ s', Runs env t.region.vregsInfo code s [] s' ∧ Rel (Interp.steps ws h).hart s' by
    obtain ⟨t', code, h1, h2, h3, hrun⟩ := hmain
    refine ⟨t', code, h1, h2, h3, fun env h s hr hip => ?_⟩
    obtain ⟨e1, e2, e3, s', e4, e5⟩ := hrun env h s hr hip
    refine ⟨e1, e2, e3, s', by rwa [h3], e5.mem.trans (e3.trans hr.mem.symm), ?_,
      fun i hi => e5.gpr hi⟩
    exact (e5.gpr (by norm_num)).trans e5.x0
  induction ws generalizing t with
  | nil => exact ⟨t, [], rfl, .refl t, rfl, fun env h s hr _ => ⟨rfl, rfl, rfl, s, .nil s, hr⟩⟩
  | cons raw ws ih =>
    have halu := hws raw (by simp)
    obtain ⟨t1, ht1, he1, hip1, -, -, hv1⟩ := Translator.handler_emits (ends_of_isAlu halu) raw t
    rw [insnVRegs_alu halu] at hv1
    obtain ⟨t', code, h1, h2, h3, hrun⟩ := ih (fun w hw => hws w (List.mem_cons_of_mem _ hw)) t1
      (by rw [hv1, hvi])
    refine ⟨t', _, FoldM.foldlM_cons_eq_some.mpr ⟨t1, ht1, h1⟩, he1.trans h2, h3.trans hv1,
      fun env h s hr hip => ?_⟩
    obtain ⟨htr, hgip, -, s1, hrun1, hr1⟩ := insnCode_agrees_alu halu raw t.nextTemp hvi
      hr hip env
    obtain ⟨hacc, hmem⟩ := acc_of_isAlu halu raw h
    obtain ⟨e1, e2, e3, s', e4, e5⟩ := hrun env _ s1 hr1 (by rw [hgip, hip1])
    simp only [Interp.steps, Interp.step, htr, Bool.false_eq_true, if_false, hacc, e2]
    rw [hv1] at e4
    exact ⟨e1, rfl, e3.trans hmem, s', hrun1.append e4, e5⟩

/-- The translator at the start of a range at address 4. -/
def rangeStart : Translator := { Translator.insertRange .init 4 with insn_ip := 4 }

/-- `addi x1, x0, 5` and `sub x1, x2, x1`. -/
theorem translateWords_agrees_addi_sub :
    rangeStart.region.blist[rangeStart.bb]? = some {} ∧
      ∃ t' code, translateWords [0x00500093#32, 0x401100B3#32] rangeStart = some t' ∧
        rangeStart.Emits code t' ∧ t'.region.vregsInfo = rangeStart.region.vregsInfo ∧
        ∀ (env : HelperEnv) (h : Interp.Hart) (s : QState), Rel h s → h.gip = 4 →
          (Interp.steps [0x00500093#32, 0x401100B3#32] h).trapped = false ∧
            (Interp.steps [0x00500093#32, 0x401100B3#32] h).acc = [] ∧
            (Interp.steps [0x00500093#32, 0x401100B3#32] h).hart.mem = h.mem ∧
            ∃ s', Runs env t'.region.vregsInfo code s [] s' ∧ s'.mem = s.mem ∧ gpr s'.cpu 0 = 0 ∧
              ∀ i < 32, gpr s'.cpu i =
                (Interp.steps [0x00500093#32, 0x401100B3#32] h).hart.gpr i := by
  refine ⟨rfl, translateWords_agrees _ (fun raw hraw => ?_) rangeStart rfl⟩
  simp only [List.mem_cons, List.not_mem_nil, or_false] at hraw
  rcases hraw with rfl | rfl <;> decide

end Rv32jit.Translate
