/-
# Code with operands of the right types

The emitter has instructions for operands of 32 bits only, but for moves and for what a store
stores.  The selection of operands keeps the types: a temporary has the type of what it replaces.
-/
import Rv32jit.Codegen.SelectTemps

namespace Rv32jit.Qcg

open Qir

/-- A constant or a virtual register of the type. -/
def Value (t : VType) : VOperand → Prop
  | .const t' _ | .vgpr t' _ => t' = t
  | .pgpr _ _ | .slot _ _ _ | .bad => False

/-- What an access transfers has a size, and a store does not extend. -/
def Access : Op → Prop
  | .vmload sz _ => sz ≠ .UNDEF
  | .vmstore sz sgn => sz ≠ .UNDEF ∧ sgn = .U
  | _ => True

/-- The type of an input. -/
def inType : Op → ℕ → VType
  | .vmstore sz _, 1 => sz
  | _, _ => .I32

/-- An instruction on virtual registers whose operands are of the types that the emitter handles;
only a move may write to a slot. -/
inductive Plain : Inst → Prop
  | mov {t : VType} {d x : VOperand} (ht : t ≠ .UNDEF)
      (hd : (∃ v, d = .vgpr t v) ∨ ∃ offs, d = .slot true t offs) (hx : Value t x) :
      Plain (.mkMov d x)
  | op {ins : Inst} (hne : ins.op ≠ .mov) (hacc : Access ins.op)
      (hin : ∀ (k : ℕ) (x : VOperand), ins.i[k]? = some x → Value (inType ins.op k) x)
      (hout : ∀ x ∈ ins.o, ∃ v, x = .vgpr .I32 v) : Plain ins

section
variable {ins : Inst} {t : VType}

lemma inType_ne (h : Access ins.op) (k : ℕ) : inType ins.op k ≠ .UNDEF := by
  unfold inType
  split
  · rename_i hop
    rw [hop] at h
    exact h.1
  · decide

lemma Plain.of_ne (hp : Plain ins) (hne : ins.op ≠ .mov) : Access ins.op ∧
    (∀ (k : ℕ) (x : VOperand), ins.i[k]? = some x → Value (inType ins.op k) x) ∧
    ∀ x ∈ ins.o, ∃ v, x = .vgpr .I32 v := by
  cases hp with
  | mov => exact absurd rfl hne
  | op _ hacc hin hout => exact ⟨hacc, hin, hout⟩

/-- A register takes the place of an input. -/
lemma Plain.setI {k v : ℕ} (hp : Plain ins) (hne : ins.op ≠ .mov) :
    Plain (ins.setI k (.vgpr (inType ins.op k) v)) := by
  obtain ⟨hacc, hin, hout⟩ := hp.of_ne hne
  refine .op hne hacc (fun j x hx => ?_) hout
  simp only [Inst.setI_i, List.getElem?_set] at hx
  split at hx
  · rename_i hkj
    subst hkj
    split at hx
    · cases hx
      exact rfl
    · cases hx
  · exact hin j x hx

/-- A load to a constant. -/
def ConstLoad (ins : Inst) : Prop :=
  ∃ sz sgn t c, ins.op = .vmload sz sgn ∧ ins.o = [.const t c]

lemma Plain.not_constLoad (h : Plain ins) : ¬ ConstLoad ins := by
  rintro ⟨sz, sgn, t, c, hop, ho⟩
  obtain ⟨-, -, hout⟩ := h.of_ne (by rw [hop]; exact Op.noConfusion)
  obtain ⟨v, hv⟩ := hout (.const t c) (by rw [ho]; exact List.mem_singleton_self _)
  cases hv

end

namespace QSel

variable {vi vi' : VRegsInfo} {ins : Inst} {c : InstCt} {st st' : SelState} {l l' : List Inst}

/-- The code in front of the instruction and the instruction as rewritten so far. -/
structure AllPlain (op : Op) (st : SelState) : Prop where
  op : st.ins.op = op
  code : ∀ m ∈ st.code, Plain m
  ins : Plain st.ins

/-- The operations with a tied input are on 32 bits. -/
lemma inType_tied (hn : ins.op.nOut = 1) (k : ℕ) : inType ins.op k = .I32 := by
  unfold inType
  split
  · rename_i hop
    rw [hop] at hn
    cases hn
  · rfl

lemma AllPlain.lowerConst {op : Op} (h : AllPlain op st) (hne : op ≠ .mov) (i : ℕ) :
    AllPlain op (QSel.lowerConst c i st) := by
  rcases lowerConst_cases c i st with ⟨he, -⟩ | ⟨t, val, hc, he⟩ <;> rw [he]
  · exact h
  have hmov : st.ins.op ≠ .mov := by rwa [h.op]
  -- the constant has the type of the input
  obtain ⟨hacc, hin, -⟩ := h.ins.of_ne hmov
  obtain rfl : t = inType st.ins.op i := by
    refine hin i (.const t val) ?_
    rw [List.getD_eq_getElem?_getD] at hc
    cases hx : st.ins.i[i]? with
    | none =>
      rw [hx] at hc
      cases hc
    | some x =>
      rw [hx] at hc
      exact congrArg some hc
  refine ⟨h.op, fun m hm => ?_, h.ins.setI hmov⟩
  rcases List.mem_append.mp hm with hm | hm
  · exact h.code m hm
  · rw [List.mem_singleton.mp hm]
    exact .mov (inType_ne hacc i) (.inl ⟨_, rfl⟩) rfl

lemma AllPlain.satisfyAliases (hp : Plain ins) (hne : ins.op ≠ .mov) (hc : opCt ins.op = some c)
    (hst : (List.range ins.op.nIn).foldlM (fun st i => satisfyAlias c i st) ⟨vi, [], ins⟩ =
      some st) : AllPlain ins.op st := by
  rcases satisfyAliases_cases hc hst with ⟨rfl, -⟩ | ⟨⟨hn, hn2, hidx, -, -⟩, hal, hzero⟩
  · exact ⟨rfl, by simp, hp⟩
  · obtain ⟨o, ho⟩ : ∃ o, ins.o = [o] := List.length_eq_one_iff.mp (by rw [ins.ho, hn])
    obtain ⟨a, b, hi⟩ : ∃ a b, ins.i = [a, b] := List.length_eq_two.mp (by rw [ins.hi, hn2])
    obtain ⟨t, d, rfl, hst⟩ := satisfyAlias_zero hn hn2 hal hidx ho hi hzero
    obtain ⟨-, hin, hout⟩ := hp.of_ne hne
    obtain ⟨ht, ha⟩ : t = .I32 ∧ Value .I32 a := by
      obtain ⟨v, hv⟩ := hout (.vgpr t d) (by rw [ho]; exact List.mem_singleton_self _)
      refine ⟨(VOperand.vgpr.inj hv).1, ?_⟩
      have := hin 0 a (by rw [hi]; rfl)
      rwa [inType_tied hn] at this
    subst ht
    have hset : ∀ {ins' : Inst} (k v : ℕ), Plain ins' → ins'.op = ins.op →
        Plain (ins'.setI k (.vgpr .I32 v)) := by
      intro ins' k v h hop
      have := h.setI (k := k) (v := v) (by rwa [hop])
      rwa [hop, inType_tied hn] at this
    have hmov : ∀ (v : ℕ) {x : VOperand}, Value .I32 x → Plain (.mkMov (.vgpr .I32 v) x) :=
      fun v _ hx => .mov (by decide) (.inl ⟨v, rfl⟩) hx
    rcases hst with ⟨-, rfl⟩ | ⟨-, -, rfl⟩ | ⟨-, -, rfl⟩
    · exact ⟨rfl, by simp, hp⟩
    · refine ⟨rfl, fun m hm => ?_, hset 0 d hp rfl⟩
      rw [List.mem_singleton.mp hm]
      exact hmov d ha
    · refine ⟨rfl, fun m hm => ?_, hset 0 d (hset 1 _ hp rfl) rfl⟩
      rcases List.mem_pair.mp hm with rfl | rfl
      · exact hmov _ rfl
      · exact hmov d ha

end QSel

end Rv32jit.Qcg
