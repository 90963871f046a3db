/-
# A hart with an operating system

A program runs on a hart, and a system of any kind answers its calls and ends it.  What can be seen
of a run are the instructions and what the system does for the calls, in their order.
-/
import Rv32jit.Lib.Rv32i

namespace Rv32i

/-- A system with the states `σ` that is seen to do some `τ`: what it answers to a call of the hart
in a state, with the memory that it leaves, and the statuses with which it ends a program. -/
structure Kernel (σ τ : Type) where
  Answers : State → σ → List τ → Word → (Word → BitVec 8) → σ → Prop
  Exits : State → Trap → Word → Prop

/-- A hart, and the state of the system. -/
structure Process (σ : Type) where
  hart : Hart
  system : σ

namespace Process

variable {σ τ : Type}

/-- A step of a process: an instruction of the hart, with its address and its word, or a call. -/
inductive Step (Spells : Instr → Word → Prop) (K : Kernel σ τ) :
    Process σ → List ((Word × Word) ⊕ τ) → Process σ → Prop
  | hart {s : State} {y : Hart} {l : List (Word × Word)} {k : σ}
      (h : Rv32i.Step Spells ⟨s, none⟩ l y) : Step Spells K ⟨⟨s, none⟩, k⟩ (l.map .inl) ⟨y, k⟩
  | call {s : State} {t : List τ} {v : Word} {mem : Word → BitVec 8} {k k' : σ}
      (h : K.Answers s k t v mem k') :
      Step Spells K ⟨⟨s, some .call⟩, k⟩ (t.map .inr)
        ⟨⟨{ (s.set 10 v).next with mem := mem }, none⟩, k'⟩

/-- The runs of a process under a kernel, up to the end or to some moment before it. -/
inductive Run (Spells : Instr → Word → Prop) (K : Kernel σ τ) (p : Process σ) :
    List ((Word × Word) ⊕ τ) → Process σ → Prop
  | nil : Run Spells K p [] p
  | step {p' p'' : Process σ} {l l' : List ((Word × Word) ⊕ τ)} (hrun : Run Spells K p l p')
      (hstep : Step Spells K p' l' p'') : Run Spells K p (l ++ l') p''

/-- The process ends with a status. -/
def Exits (K : Kernel σ τ) (p : Process σ) (v : Word) : Prop :=
  ∃ t, p.hart.stopped = some t ∧ K.Exits p.hart.state t v

variable {Spells : Instr → Word → Prop} {K : Kernel σ τ} {p p' p'' : Process σ}
  {l l' : List ((Word × Word) ⊕ τ)}

lemma Run.trans (h : Run Spells K p l p') (h' : Run Spells K p' l' p'') :
    Run Spells K p (l ++ l') p'' := by
  induction h' with
  | nil =>
    rw [List.append_nil]
    exact h
  | step _ hstep ih =>
    rw [← List.append_assoc]
    exact ih.step hstep

/-- What a process does is a step of its hart alone, for which any system may answer the calls. -/
lemma Step.forget (h : Step Spells K p l p') :
    Rv32i.Step Spells p.hart (l.filterMap Sum.getLeft?) p'.hart := by
  cases h with
  | hart h =>
    have hl : ∀ l : List (Word × Word), (l.map (.inl : _ → _ ⊕ τ)).filterMap Sum.getLeft? = l := by
      intro l
      simp [List.filterMap_map, Function.comp_def]
    rw [hl]
    exact h
  | @call s t v mem k k' h =>
    have hl : (t.map (.inr : _ → (Word × Word) ⊕ τ)).filterMap Sum.getLeft? = [] := by
      simp [List.filterMap_map, Function.comp_def]
    rw [hl]
    exact .call v mem

lemma Step.aligned (h : Step Spells K p l p') (hpc : p.hart.state.pc.toNat % 4 = 0) :
    p'.hart.state.pc.toNat % 4 = 0 :=
  h.forget.aligned hpc

end Process

end Rv32i
