/-
# What the allocator hands to the emitter

The allocator puts moves between the instructions and rewrites their operands.  Its moves are ones
that the emitter can encode, and a rewritten instruction has its operands where the constraints of
its operation want them.  So code that was selected for the machine meets, once it is allocated, all
that the emitter asserts.
-/
import Rv32jit.Codegen.EmitCorrect
import Rv32jit.Codegen.Plain
import Rv32jit.Codegen.RegAllocRun

namespace Rv32jit.Qcg

open Qir ArchTraits
open X86.Asm hiding SP CX

/-! ### Moves -/

/-- A move between two registers, or between a register and a slot. -/
def Shuffle (m : Inst) : Prop :=
  ∃ (n : Size) (o r : VOperand), m = .mkMov o r ∧ Operand n o ∧ o.isWritable = true ∧
    Operand n r ∧ (o.isSlot = false ∨ r.isSlot = false)

lemma Shuffle.constrained {m : Inst} (h : Shuffle m) (is_leaf : Bool) : Constrained is_leaf m := by
  obtain ⟨n, o, r, rfl, ho, hw, hr, hs⟩ := h
  exact .mov ho hw hr hs

lemma Shuffle.op {m : Inst} (h : Shuffle m) : m.op = .mov := by
  obtain ⟨n, o, r, rfl, -⟩ := h
  rfl

/-- All registers have a size. -/
def Sized (vi : VRegsInfo) : Prop := ∀ v t, vi.vregType v = some t → t ≠ .UNDEF

namespace QRegAlloc

variable {vi : VRegsInfo} {N W : ℕ → Prop} {ra ra' ra'' : QRegAlloc} {desire avoid : RegMask}
  {v p : ℕ}

/-- The code has grown by moves. -/
def Shuffles (ra ra' : QRegAlloc) : Prop :=
  ∃ ms, ra'.code = ra.code ++ ms ∧ ∀ m ∈ ms, Shuffle m

namespace Shuffles

lemma of_code (h : ra'.code = ra.code) : Shuffles ra ra' :=
  ⟨[], by rw [h, List.append_nil], fun m hm => by cases hm⟩

lemma refl (ra : QRegAlloc) : Shuffles ra ra := of_code rfl

lemma trans (h : Shuffles ra ra') (h' : Shuffles ra' ra'') : Shuffles ra ra'' := by
  obtain ⟨ms, hms, hall⟩ := h
  obtain ⟨ms', hms', hall'⟩ := h'
  refine ⟨ms ++ ms', by rw [hms', hms, List.append_assoc], fun m hm => ?_⟩
  rcases List.mem_append.mp hm with hm | hm
  · exact hall m hm
  · exact hall' m hm

lemma of_emit {m : Inst} (hm : Shuffle m) (h : ra'.code = ra.code ++ [m]) : Shuffles ra ra' := by
  refine ⟨[m], h, fun i hi => ?_⟩
  rw [List.mem_singleton.mp hi]
  exact hm

end Shuffles

/-! ### Spilling and filling -/

/-- A register that is in use has a size. -/
lemma Inv.size (hi : Inv vi N ra) (hs : Sized vi) (hl : (ra.vregs v).loc ≠ .DEAD) :
    ∃ n, vtypeSize (ra.vregs v).type = some n := by
  have hty := hs v _ (hi.type v (hi.lt_of_loc hl))
  cases ht : (ra.vregs v).type with
  | UNDEF => exact absurd ht hty
  | I8 => exact ⟨.b, rfl⟩
  | I16 => exact ⟨.w, rfl⟩
  | I32 => exact ⟨.d, rfl⟩

lemma Inv.pool_of_reg (hi : Inv vi N ra) (hl : (ra.vregs v).loc = .REG) :
    Pool (ra.vregs v).p := hi.pool _ _ (hi.owns hl)

/-- The slot of a register that has one. -/
lemma Inv.operand_slotOf {n : Size} (hi : Inv vi N ra) (hn : vtypeSize (ra.vregs v).type = some n)
    (hslot : (ra.vregs v).isGlobal = false → (ra.vregs v).spillOffs ≠ NO_SPILL) :
    Operand n (slotOf (ra.vregs v)) := by
  refine ⟨hn, ?_⟩
  rw [slotOf]
  cases hg : (ra.vregs v).isGlobal with
  | true => trivial
  | false =>
    obtain ⟨hend, -⟩ := hi.frameSlot v hg (hslot hg)
    rw [(toSize_of_vtypeSize hn).1] at hend
    exact hend.trans hi.frameEnd

lemma shuffle_spill {n : Size} {t : RTrack} (hslot : Operand n (slotOf t))
    (hn : vtypeSize t.type = some n) (hp : Pool t.p) :
    Shuffle (.mkMov (slotOf t) (.pgpr t.type t.p)) :=
  ⟨n, _, _, rfl, hslot, rfl, ⟨hn, hp⟩, .inr rfl⟩

lemma shuffles_syncSpill (hs : Sized vi) (hi : Inv vi N ra) (h : ra.syncSpill v = some ra') :
    Shuffles ra ra' := by
  rw [syncSpill] at h
  split at h
  · cases h
    exact .refl ra
  split at h
  · cases h
    exact .refl ra
  · rename_i hl
    obtain ⟨ra₁, h₁, h⟩ := Option.bind_eq_some_iff.mp h
    cases h
    obtain ⟨n, hn⟩ := hi.size hs (v := v) (by simp [hl])
    have hp := hi.pool_of_reg hl
    simp only [emitSpill] at h₁
    split at h₁
    · obtain ⟨ra₂, h₂, h₁⟩ := Option.bind_eq_some_iff.mp h₁
      cases h₁
      obtain ⟨-, hg, o, -, -, hend, rfl⟩ := allocFrameSlot_eq_some h₂
      -- the slot is new
      rw [(toSize_of_vtypeSize hn).1] at hend
      have hslot : Operand n (slotOf { ra.vregs v with spillOffs := o }) := by
        refine ⟨hn, ?_⟩
        simp only [slotOf, hg]
        exact hend
      refine .of_emit (shuffle_spill hslot hn hp) ?_
      simp
    · rename_i hc
      cases h₁
      refine .of_emit (shuffle_spill (hi.operand_slotOf hn fun hg => ?_) hn hp) (by simp)
      simpa [hg] using hc
  · cases h

lemma shuffles_spill (hs : Sized vi) (hi : Inv vi N ra) (h : ra.spill v = some ra') :
    Shuffles ra ra' := by
  obtain ⟨ra₁, h₁, h⟩ := Option.bind_eq_some_iff.mp h
  cases h
  exact (shuffles_syncSpill hs hi h₁).trans (.of_code (code_release _ _))

lemma shuffles_spillPreg (hs : Sized vi) (hi : Inv vi N ra) (h : ra.spillPreg p = some ra') :
    Shuffles ra ra' := by
  rw [spillPreg] at h
  split at h
  · cases h
    exact .refl ra
  · exact shuffles_spill hs hi h

lemma shuffles_allocPReg (hs : Sized vi) (hi : Inv vi N ra)
    (h : ra.allocPReg desire avoid = some (p, ra')) : Shuffles ra ra' := by
  rw [allocPReg] at h
  split at h
  · cases h
    exact .refl ra
  split at h
  · obtain ⟨ra₁, h₁, h⟩ := Option.bind_eq_some_iff.mp h
    cases h
    exact shuffles_spillPreg hs hi h₁
  · cases h

lemma shuffles_fill (hs : Sized vi) (hi : Inv vi N ra) (ha : AvoidsFixed avoid)
    (h : ra.fill v desire avoid = some ra') : Shuffles ra ra' := by
  rw [fill] at h
  split at h
  · rename_i hl
    obtain ⟨⟨p, ra₁⟩, h₁, h⟩ := Option.bind_eq_some_iff.mp h
    obtain ⟨hstep, hspec⟩ := step_allocPReg idleEnv (fun _ => False) (fun _ => False) hi h₁
    obtain ⟨hi₁, -⟩ := hstep hi
    have hv : ra₁.vregs v = ra.vregs v := hspec.other v (by simp [hl])
    obtain ⟨n, hn⟩ := hi₁.size hs (v := v) (by simp [hv, hl])
    refine (shuffles_allocPReg hs hi h₁).trans ?_
    simp only [emitFill] at h
    split at h
    · cases h
    · rename_i hno
      cases h
      simp only [vregs_setP2v, vregs_setTrack, if_true] at hno
      have hmov : Shuffle (.mkMov (.pgpr (ra₁.vregs v).type p) (slotOf (ra₁.vregs v))) :=
        ⟨n, _, _, rfl, ⟨hn, hspec.lt, ha.not_fixed hspec.avoid⟩, rfl,
          hi₁.operand_slotOf hn fun _ => hno, .inl rfl⟩
      exact .of_emit hmov (by simp [slotOf])
  · cases h
    exact .refl ra
  · cases h

/-! ### The loops -/

lemma shuffles_syncGlobals (hs : Sized vi) (hi : Inv vi N ra) (h : ra.syncGlobals = some ra') :
    Shuffles ra ra' := by
  refine (FoldM.keeps (P := fun u => Inv vi N u ∧ Shuffles ra u) h ⟨hi, .refl ra⟩ ?_).2
  rintro v - u u' hu ⟨hiu, hsh⟩
  split at hu
  · obtain ⟨hstep, -⟩ := step_syncSpill idleEnv vi N (fun _ => False) (fun _ => False) hu
    exact ⟨(hstep hiu).1, hsh.trans (shuffles_syncSpill hs hiu hu)⟩
  · cases hu
    exact ⟨hiu, hsh⟩

lemma shuffles_blockBoundary (hs : Sized vi) (hi : Inv vi N ra) (h : ra.blockBoundary = some ra') :
    Shuffles ra ra' := by
  refine (FoldM.keeps (P := fun u => Inv vi N u ∧ Shuffles ra u) h ⟨hi, .refl ra⟩ ?_).2
  rintro v - u u' hu ⟨hiu, hsh⟩
  split at hu
  · rename_i hg
    obtain ⟨hstep, -⟩ :=
      step_spill idleEnv vi N (fun _ => False) (fun _ => False) (hiu.alive v hg) hu
    exact ⟨(hstep hiu).1, hsh.trans (shuffles_spill hs hiu hu)⟩
  · cases hu
    exact ⟨hiu, hsh⟩

lemma shuffles_regionBoundary (hs : Sized vi) (hi : Inv vi N ra)
    (h : ra.regionBoundary = some ra') : Shuffles ra ra' := by
  have key := FoldM.keeps (P := fun u => Inv vi N u ∧ u.nVregs = ra.nVregs ∧ Shuffles ra u) h
    ⟨hi, rfl, .refl ra⟩ ?_
  · exact key.2.2
  rintro v hv u u' hu ⟨hiu, hn, hsh⟩
  split at hu
  · rename_i hg
    obtain ⟨hstep, hspec⟩ :=
      step_spill idleEnv vi N (fun _ => False) (fun _ => False) (hiu.alive v hg) hu
    exact ⟨(hstep hiu).1, hspec.nVregs.trans hn, hsh.trans (shuffles_spill hs hiu hu)⟩
  · cases hu
    exact ⟨hiu.release (hn ▸ List.mem_range.mp hv), by simpa using hn,
      hsh.trans (.of_code (code_release _ _))⟩

lemma shuffles_callOp (hs : Sized vi) (hi : Inv vi N ra) (h : ra.callOp = some ra') :
    Shuffles ra ra' := by
  obtain ⟨ra₁, h₁, h⟩ := Option.bind_eq_some_iff.mp h
  have key := FoldM.keeps (P := fun u => Inv vi N u ∧ Shuffles ra u) h₁ ⟨hi, .refl ra⟩ ?_
  · split at h
    · exact key.2.trans (shuffles_blockBoundary hs key.1 h)
    · cases h
  rintro p - u u' hu ⟨hiu, hsh⟩
  split at hu
  · obtain ⟨hstep, -⟩ := step_spillPreg idleEnv (fun _ => False) (fun _ => False) hiu hu
    exact ⟨(hstep hiu).1, hsh.trans (shuffles_spillPreg hs hiu hu)⟩
  · cases hu
    exact ⟨hiu, hsh⟩

/-! ### The operands -/

variable {c : InstCt} {i : ℕ} {st st' : OpState} {t : VType}

/-- An input that is a register ends up in one that its constraint admits. -/
lemma allocInput_fits (hs : Sized vi) (hi : Inv vi N st.ra) (ha : AvoidsFixed st.avoid)
    (hop : st.ins.i[i]? = some (.vgpr t v)) (hg : GoodInput vi N W (.vgpr t v))
    (h : allocInput c i st = some st') : Shuffles st.ra st'.ra ∧
      ∃ p, st'.ins.i[i]? = some (.pgpr t p) ∧ Pool p ∧
        (ctOf c (st.ins.o.length + i)).cr.test p = true := by
  have hlt : i < st.ins.i.length := (List.getElem?_eq_some_iff.mp hop).1
  simp only [allocInput, hop] at h
  obtain ⟨ra₁, h₁, h⟩ := Option.bind_eq_some_iff.mp h
  obtain ⟨hstep, -, hloc⟩ := step_fill idleEnv W hi ha
    (fun hgl => hg.1 (by rwa [← hi.isGlobal])) h₁
  obtain ⟨hi₁, -⟩ := hstep hi
  have hsh := shuffles_fill hs hi ha h₁
  split at h
  · rename_i htest
    cases h
    exact ⟨hsh, _, by simp [hlt], hi₁.pool_of_reg hloc, htest⟩
  · -- the register is copied into one that is admissible
    rename_i htest
    obtain ⟨⟨p, ra₂⟩, h₂, h⟩ := Option.bind_eq_some_iff.mp h
    cases h
    obtain ⟨hstep₂, hspec⟩ := step_allocPReg idleEnv W (fun _ => False) hi₁ h₂
    obtain ⟨hi₂, -⟩ := hstep₂ hi₁
    have hv : ra₂.vregs v = ra₁.vregs v := hspec.other v fun hx => htest (hx.2 ▸ hspec.desire)
    have hloc₂ : (ra₂.vregs v).loc = .REG := by rw [hv, hloc]
    obtain ⟨n, hn⟩ := hi₂.size hs (v := v) (by simp [hloc₂])
    have hp : Pool p := ⟨hspec.lt, ha.not_fixed hspec.avoid⟩
    have hmov : Shuffle (.mkMov (.pgpr (ra₂.vregs v).type p)
        (.pgpr (ra₂.vregs v).type (ra₂.vregs v).p)) :=
      ⟨n, _, _, rfl, ⟨hn, hp⟩, rfl, ⟨hn, hi₂.pool_of_reg hloc₂⟩, .inl rfl⟩
    exact ⟨(hsh.trans (shuffles_allocPReg hs hi₁ h₂)).trans (.of_emit hmov rfl), p,
      by simp [hlt], hp, hspec.desire⟩

/-- What holds of the inputs in front of every round of the loop over them. -/
structure InputsFit (vi : VRegsInfo) (N W : ℕ → Prop) (c : InstCt) (ra : QRegAlloc)
    (o : List VOperand) (st : OpState) : Prop where
  inv : Inv vi N st.ra
  avoid : AvoidsFixed st.avoid
  code : Shuffles ra st.ra
  outs : st.ins.o = o
  input : ∀ (j : ℕ) (x : VOperand), st.ins.i[j]? = some x → GoodInput vi N W x ∨
    ∃ t p, x = .pgpr t p ∧ Pool p ∧ (ctOf c (o.length + j)).cr.test p = true

lemma InputsFit.allocInput {o : List VOperand} (hs : Sized vi) (hf : InputsFit vi N W c ra o st)
    (h : QRegAlloc.allocInput c i st = some st') : InputsFit vi N W c ra o st' := by
  by_cases hop : ∃ t v, st.ins.i[i]? = some (.vgpr t v)
  · obtain ⟨t, v, hop⟩ := hop
    have hg : GoodInput vi N W (.vgpr t v) := by
      rcases hf.input i _ hop with hg | ⟨_, _, he, -⟩
      · exact hg
      · cases he
    obtain ⟨hsh, p, hp, hpool, htest⟩ := allocInput_fits hs hf.inv hf.avoid hop hg h
    obtain ⟨_, -, hframe, ha, hother, hstep⟩ := allocInput_vgpr idleEnv hf.inv hf.avoid hop hg h
    refine ⟨(hstep hf.inv).1, ha, hf.code.trans hsh, hframe.o.trans hf.outs, fun j x hx => ?_⟩
    by_cases hj : j = i
    · subst hj
      rw [hp] at hx
      cases hx
      rw [hf.outs] at htest
      exact .inr ⟨t, p, rfl, hpool, htest⟩
    · rw [hother j hj] at hx
      exact hf.input j x hx
  · push Not at hop
    rw [allocInput_other hop h]
    exact hf

/-- A tied output is in the register that it is tied to, any other one in a fresh register. -/
lemma allocOutput_fits (st : OpState) (hs : Sized vi) (hi : Inv vi N st.ra)
    (ha : AvoidsFixed st.avoid) (ho : st.ins.o = [.vgpr t v])
    (hl : (ctOf c 0).hasAlias = true → (st.ra.vregs v).loc = .REG)
    (h : allocOutput c 0 st = some st') : Shuffles st.ra st'.ra ∧ st'.ins.op = st.ins.op ∧
      st'.ins.i = st.ins.i ∧ ∃ p, st'.ins.o = [.pgpr t p] ∧ Pool p ∧
        ((ctOf c 0).hasAlias = true → p = (st.ra.vregs v).p) := by
  simp only [allocOutput, ho, List.getElem?_cons_zero] at h
  split at h
  · rename_i halias
    cases h
    exact ⟨.of_code rfl, rfl, rfl, _, by simp [ho], hi.pool_of_reg (hl halias), fun _ => rfl⟩
  · rename_i halias
    obtain ⟨⟨p, ra₂⟩, h₂, h⟩ := Option.bind_eq_some_iff.mp h
    cases h
    obtain ⟨-, hspec⟩ := step_allocPReg idleEnv (fun _ => False) (fun _ => False) hi h₂
    refine ⟨(shuffles_allocPReg hs hi h₂).trans (.of_code ?_), rfl, rfl, p, by simp [ho],
      ⟨hspec.lt, ha.not_fixed hspec.avoid⟩, fun hx => absurd hx halias⟩
    simp only [code_setTrack, code_setP2v]
    split <;> rfl

/-- Where the operands of a rewritten instruction are.  A register that is tied to the output is
the output. -/
structure Operands (c : InstCt) (ins ins' : Inst) : Prop where
  op : ins'.op = ins.op
  input : ∀ (k : ℕ) (t : VType) (v : ℕ), ins.i[k]? = some (.vgpr t v) →
    ∃ p, ins'.i[k]? = some (.pgpr t p) ∧ Pool p ∧ (ctOf c (ins.op.nOut + k)).cr.test p = true
  other : ∀ k : ℕ, (∀ t v, ins.i[k]? ≠ some (.vgpr t v)) → ins'.i[k]? = ins.i[k]?
  output : ∀ t v, ins.o = [.vgpr t v] → ∃ p, ins'.o = [.pgpr t p] ∧ Pool p ∧
    ((ctOf c 0).hasAlias = true → ∃ t', ins'.i[0]? = some (.pgpr t' p))
  kept : (∀ t v, .vgpr t v ∉ ins.o) → ins'.o = ins.o

/-- The inputs of an instruction are in registers, and its outputs are not handled yet. -/
structure InputsPlaced (c : InstCt) (ins : Inst) (st : OpState) : Prop where
  op : st.ins.op = ins.op
  outs : st.ins.o = ins.o
  avoid : AvoidsFixed st.avoid
  input : ∀ (k : ℕ) (t : VType) (v : ℕ), ins.i[k]? = some (.vgpr t v) →
    ∃ p, InputDone c k t v p st ∧ Pool p ∧ (ctOf c (ins.op.nOut + k)).cr.test p = true
  other : ∀ k : ℕ, (∀ t v, ins.i[k]? ≠ some (.vgpr t v)) → st.ins.i[k]? = ins.i[k]?

/-- The loop over the inputs. -/
lemma inputsPlaced {ins : Inst} (hs : Sized vi) (hi : Inv vi N ra) (hg : GoodInst vi N W ins)
    (hc : opCt ins.op = some c)
    (hin : c.orderIn.foldlM (fun st i => allocInput c i st) ⟨ra, GPR_FIXED, ins⟩ = some st) :
    InputsFit vi N W c ra ins.o st ∧ InputsPlaced c ins st := by
  have hperm := (order_perm hc).2
  obtain ⟨hdone, hframe, ha, hother, -⟩ := allocInputs idleEnv ins
    (hperm.nodup_iff.mpr List.nodup_range) hi (fun p hp => hp) (fun i _ => rfl) hg.input hin
  have hstart : InputsFit vi N W c ra ins.o ⟨ra, GPR_FIXED, ins⟩ :=
    ⟨hi, fun _ hp => hp, .refl ra, rfl, fun j x hx => .inl (hg.input x (List.mem_of_getElem? hx))⟩
  have hfit : InputsFit vi N W c ra ins.o st :=
    FoldM.keeps hin hstart fun _ _ u u' hu hfu => hfu.allocInput hs hu
  refine ⟨hfit, hframe.op, hframe.o, ha, fun k t v hk => ?_,
    fun k hk => hother k fun t v hv => absurd hv (hk t v)⟩
  have hlt : k ∈ c.orderIn := by
    rw [hperm.mem_iff, List.mem_range, ← ins.hi]
    exact (List.getElem?_eq_some_iff.mp hk).1
  obtain ⟨p, hp⟩ := hdone k hlt t v hk
  refine ⟨p, hp, ?_⟩
  rcases hfit.input k _ hp.operand with hbad | ⟨_, _, he, hpool, htest⟩
  · exact hbad.elim
  · cases he
    rw [ins.ho] at htest
    exact ⟨hpool, htest⟩

namespace InputsPlaced

variable {ins ins' : Inst}

/-- The register of a tied output is that of the first input, whatever else is spilled. -/
lemma tied (h : InputsPlaced c ins st) (hg : GoodInst vi N W ins) (hc : opCt ins.op = some c)
    (ho : ins.o = [.vgpr t v]) (hkeep : Keeps st.avoid st.ra ra')
    (halias : (ctOf c 0).hasAlias = true) :
    ∃ t', st.ins.i[0]? = some (.pgpr t' (ra'.vregs v).p) ∧ (ra'.vregs v).loc = .REG := by
  have hn : 0 < ins.op.nOut := by
    rw [← ins.ho, ho]
    exact Nat.one_pos
  obtain ⟨hn1, hn0, hal, hidx, hall⟩ := tied_output hc hn halias
  obtain ⟨t1, t2, w, hw, hw'⟩ := (hg.sel c hc 0 hn0).1 (by simpa [hn1] using hal)
  rw [hn1, Nat.add_zero, hidx, ho] at hw'
  obtain ⟨-, rfl⟩ := VOperand.vgpr.inj (Option.some.inj hw')
  obtain ⟨p, hdn, -⟩ := h.input 0 t2 v hw
  obtain ⟨hl, hp⟩ := hdn.inPlace (by rw [h.outs, ins.ho, hn1, Nat.add_zero, hall])
  obtain ⟨hl', hp'⟩ := hkeep.reg v hl (by rw [hp]; exact hdn.avoided)
  rw [hp', hp]
  exact ⟨t2, hdn.operand, hl'⟩

/-- The inputs of the rewritten instruction are where they were before its output. -/
lemma operands (h : InputsPlaced c ins st) (hop : ins'.op = ins.op) (hi : ins'.i = st.ins.i)
    (hout : ∀ t v, ins.o = [.vgpr t v] → ∃ p, ins'.o = [.pgpr t p] ∧ Pool p ∧
      ((ctOf c 0).hasAlias = true → ∃ t', st.ins.i[0]? = some (.pgpr t' p)))
    (hkept : (∀ t v, .vgpr t v ∉ ins.o) → ins'.o = ins.o) : Operands c ins ins' where
  op := hop
  input k t v hk := by
    obtain ⟨p, hp, hfits⟩ := h.input k t v hk
    exact ⟨p, by rw [hi]; exact hp.operand, hfits⟩
  other k hk := by rw [hi, h.other k hk]
  output t v ho := by
    rw [hi]
    exact hout t v ho
  kept := hkept

end InputsPlaced

/-- The operands of an instruction, and the moves in front of it. -/
lemma allocOp_operands {ins ins' : Inst} (hs : Sized vi) (hi : Inv vi N ra)
    (hg : GoodInst vi N W ins) (hc : opCt ins.op = some c) (h : ra.allocOp ins = some (ra', ins')) :
    Shuffles ra ra' ∧ Operands c ins ins' := by
  simp only [allocOp, hc, Option.bind_eq_bind, Option.bind_some] at h
  obtain ⟨st, hin, h⟩ := Option.bind_eq_some_iff.mp h
  obtain ⟨ra₁, hsync, h⟩ : ∃ ra₁, (if ins.op.sideeff = true then st.ra.syncGlobals
      else some st.ra) = some ra₁ ∧ _ := by
    split at h
    · rename_i hse
      obtain ⟨ra₁, h₁, h₂⟩ := Option.bind_eq_some_iff.mp h
      exact ⟨ra₁, by rw [if_pos hse, h₁], h₂⟩
    · rename_i hse
      exact ⟨st.ra, by rw [if_neg hse], h⟩
  obtain ⟨st', hout, h⟩ := Option.bind_eq_some_iff.mp h
  cases h
  -- the inputs
  obtain ⟨hfit, hplaced⟩ := inputsPlaced hs hi hg hc hin
  -- the globals
  have hmid : Inv vi N ra₁ ∧ Shuffles ra ra₁ ∧ Keeps st.avoid st.ra ra₁ := by
    split at hsync
    · obtain ⟨hstep, hkeep, -⟩ :=
        syncGlobals_spec idleEnv W (fun _ => False) st.avoid hfit.inv hsync
      exact ⟨(hstep hfit.inv).1, hfit.code.trans (shuffles_syncGlobals hs hfit.inv hsync), hkeep⟩
    · cases hsync
      exact ⟨hfit.inv, hfit.code, .refl _ _⟩
  obtain ⟨hi₁, hsh, hkeep⟩ := hmid
  -- the outputs
  rcases orderOut_cases hc with ⟨hn, horder⟩ | ⟨hn, horder⟩
  · rw [horder, FoldM.foldlM_nil_eq_some] at hout
    subst hout
    have ho : ins.o = [] := List.length_eq_zero_iff.mp (by rw [ins.ho, hn])
    refine ⟨hsh, hplaced.operands hplaced.op rfl (fun t v hov => ?_) fun _ => hplaced.outs⟩
    rw [ho] at hov
    cases hov
  · rw [horder] at hout
    obtain ⟨st₁, hone, hnil⟩ := FoldM.foldlM_cons_eq_some.mp hout
    rw [FoldM.foldlM_nil_eq_some] at hnil
    subst hnil
    obtain ⟨x, ho⟩ : ∃ x, ins.o = [x] := List.length_eq_one_iff.mp (by rw [ins.ho, hn])
    by_cases hx : ∃ t v, x = .vgpr t v
    · obtain ⟨t, v, rfl⟩ := hx
      have htied := hplaced.tied hg hc ho hkeep
      obtain ⟨hsh', hop', hi', p, hp, hpool, hpeq⟩ :=
        allocOutput_fits { st with ra := ra₁ } hs hi₁ hplaced.avoid (hplaced.outs.trans ho)
          (fun halias => by
            obtain ⟨_, -, hl⟩ := htied halias
            exact hl) hone
      refine ⟨hsh.trans hsh', hplaced.operands (hop'.trans hplaced.op) hi' (fun t' v' hov => ?_)
        fun hno => absurd (by rw [ho]; exact List.mem_singleton_self _) (hno t v)⟩
      rw [ho] at hov
      cases hov
      refine ⟨p, hp, hpool, fun halias => ?_⟩
      obtain ⟨t', hq, -⟩ := htied halias
      exact ⟨t', by rw [hpeq halias]; exact hq⟩
    · have hst : st₁ = { st with ra := ra₁ } := by
        rw [allocOutput] at hone
        simp only [hplaced.outs, ho, List.getElem?_cons_zero] at hone
        cases x with
        | vgpr t v => exact absurd ⟨t, v, rfl⟩ hx
        | _ => simpa [eq_comm] using hone
      subst hst
      refine ⟨hsh, hplaced.operands hplaced.op rfl (fun t v hov => ?_) fun _ => hplaced.outs⟩
      rw [ho] at hov
      exact absurd ⟨t, v, (List.cons.inj hov).1⟩ hx

end QRegAlloc

/-! ### The constraints of the emitter -/

lemma vtypeSize_of_ne {t : VType} (h : t ≠ .UNDEF) : ∃ n, vtypeSize t = some n := by
  cases t with
  | UNDEF => exact absurd rfl h
  | I8 => exact ⟨.b, rfl⟩
  | I16 => exact ⟨.w, rfl⟩
  | I32 => exact ⟨.d, rfl⟩

section
variable {c : InstCt} {ins ins' : Inst} {is_leaf : Bool}

/-- An input of the rewritten instruction is a constant that its constraint admits, or a register
that it admits. -/
def Input (ct : RAOpCt) (t : VType) (x : VOperand) : Prop :=
  (∃ val : BitVec 32, x = .const t val ∧ matchGpConst val.toNat ct.ci = true) ∨
    ∃ p, x = .pgpr t p ∧ Pool p ∧ ct.cr.test p = true

namespace Input

variable {ct : RAOpCt} {t : VType} {n : Size} {x : VOperand}

lemma operand (h : Input ct t x) (hn : vtypeSize t = some n) : Operand n x := by
  rcases h with ⟨val, rfl, -⟩ | ⟨p, rfl, hp, -⟩
  · exact ⟨hn, trivial⟩
  · exact ⟨hn, hp⟩

lemma isSlot (h : Input ct t x) : x.isSlot = false := by
  rcases h with ⟨val, rfl, -⟩ | ⟨p, rfl, -⟩ <;> rfl

/-- Where no constants are admitted, the input is a register. -/
lemma reg (h : Input ct t x) (hno : ct.ci = .NO) :
    ∃ p, x = .pgpr t p ∧ Pool p ∧ ct.cr.test p = true := by
  rcases h with ⟨val, rfl, hval⟩ | hp
  · rw [hno] at hval
    cases hval
  · exact hp

end Input

lemma test_single {p q : ℕ} (hp : p < 32) (h : ((RegMask.mk 0).set p).test q = true) : q = p := by
  rw [RegMask.test_set hp] at h
  simpa [RegMask.test] using h

namespace QRegAlloc.Operands

lemma operandAt (ho : Operands c ins ins') (hsel : Selected ins) (hc : opCt ins.op = some c)
    {k : ℕ} (hk : k < ins.op.nIn) {t : VType}
    (hin : ∀ x : VOperand, ins.i[k]? = some x → Value t x) :
    ∃ x, ins'.i[k]? = some x ∧ Input (ctOf c (ins.op.nOut + k)) t x := by
  have hlt : k < ins.i.length := by rwa [ins.hi]
  obtain ⟨x, hx⟩ : ∃ x, ins.i[k]? = some x := ⟨_, List.getElem?_eq_getElem hlt⟩
  have hval := hin x hx
  cases x with
  | const t' val =>
    obtain rfl : t' = t := hval
    refine ⟨_, (ho.other k fun t v hv => ?_).trans hx, .inl ⟨val, rfl, (hsel c hc k hk).2 _ _ hx⟩⟩
    rw [hx] at hv
    cases hv
  | vgpr t' v =>
    obtain rfl : t' = t := hval
    obtain ⟨p, hp, hfit⟩ := ho.input k _ v hx
    exact ⟨_, hp, .inr ⟨p, rfl, hfit⟩⟩
  | _ => exact hval.elim

lemma inputs_one (ho : Operands c ins ins') (hsel : Selected ins) (hc : opCt ins.op = some c)
    (hn : ins.op.nIn = 1) {t : VType} (hin : ∀ x : VOperand, ins.i[0]? = some x → Value t x) :
    ∃ x, ins'.i = [x] ∧ Input (ctOf c ins.op.nOut) t x := by
  obtain ⟨x, hx, hfit⟩ := ho.operandAt hsel hc (by omega) hin
  obtain ⟨y, hy⟩ : ∃ y, ins'.i = [y] :=
    List.length_eq_one_iff.mp (by rw [ins'.hi, ho.op, hn])
  rw [hy] at hx
  cases hx
  exact ⟨_, hy, hfit⟩

lemma inputs_two (ho : Operands c ins ins') (hsel : Selected ins) (hc : opCt ins.op = some c)
    (hn : ins.op.nIn = 2) {t t' : VType} (hin : ∀ x : VOperand, ins.i[0]? = some x → Value t x)
    (hin' : ∀ x : VOperand, ins.i[1]? = some x → Value t' x) :
    ∃ x y, ins'.i = [x, y] ∧ Input (ctOf c ins.op.nOut) t x ∧
      Input (ctOf c (ins.op.nOut + 1)) t' y := by
  obtain ⟨x, hx, hfit⟩ := ho.operandAt hsel hc (by omega) hin
  obtain ⟨y, hy, hfit'⟩ := ho.operandAt hsel hc (by omega) hin'
  obtain ⟨a, b, hab⟩ : ∃ a b, ins'.i = [a, b] :=
    List.length_eq_two.mp (by rw [ins'.hi, ho.op, hn])
  rw [hab] at hx hy
  cases hx
  cases hy
  exact ⟨_, _, hab, hfit, hfit'⟩

lemma output_reg (ho : Operands c ins ins') (hn : ins.op.nOut = 1)
    (hout : ∀ x ∈ ins.o, ∃ v, x = .vgpr .I32 v) : ∃ p, ins'.o = [.pgpr .I32 p] ∧ Pool p ∧
      ((ctOf c 0).hasAlias = true → ∃ t, ins'.i[0]? = some (.pgpr t p)) := by
  obtain ⟨x, hx⟩ : ∃ x, ins.o = [x] := List.length_eq_one_iff.mp (by rw [ins.ho, hn])
  obtain ⟨v, rfl⟩ := hout x (by rw [hx]; exact List.mem_singleton_self x)
  exact ho.output _ v hx

/-- The operations on two inputs whose output is the first. -/
lemma tied (ho : Operands c ins ins') (hsel : Selected ins) (hc : opCt ins.op = some c)
    (hn : ins.op.nOut = 1) (hn' : ins.op.nIn = 2) (hal : (ctOf c 0).hasAlias = true)
    (hin : ∀ (k : ℕ) (x : VOperand), ins.i[k]? = some x → Value .I32 x)
    (hout : ∀ x ∈ ins.o, ∃ v, x = .vgpr .I32 v) :
    ∃ d b, ins'.o = [.pgpr .I32 d] ∧ ins'.i = [.pgpr .I32 d, b] ∧ Pool d ∧
      Input (ctOf c 2) .I32 b := by
  obtain ⟨d, hd, hpool, htied⟩ := ho.output_reg hn hout
  obtain ⟨a, b, hab, ha, hb⟩ := ho.inputs_two hsel hc hn' (hin 0) (hin 1)
  obtain ⟨t, ht⟩ := htied hal
  rw [hab, List.getElem?_cons_zero, Option.some.injEq] at ht
  subst ht
  obtain ⟨val, he, -⟩ | ⟨p, he, -⟩ := ha
  · cases he
  · cases he
    exact ⟨d, b, hd, hab, hpool, by rwa [hn] at hb⟩

section
variable (mk : VOperand → VOperand → VOperand → Inst)

lemma binop (hmk : mk ∈ [Inst.mkAdd, .mkSub, .mkAnd, .mkOr, .mkXor])
    (heq : ∀ d b, (mk d d b).op = ins.op ∧ (mk d d b).o = [d] ∧ (mk d d b).i = [d, b])
    (ho : Operands c ins ins') (hsel : Selected ins) (hc : opCt ins.op = some c)
    (hn : ins.op.nOut = 1) (hn' : ins.op.nIn = 2) (hal : (ctOf c 0).hasAlias = true)
    (hin : ∀ (k : ℕ) (x : VOperand), ins.i[k]? = some x → Value .I32 x)
    (hout : ∀ x ∈ ins.o, ∃ v, x = .vgpr .I32 v) : Constrained is_leaf ins' := by
  obtain ⟨d, b, hd, hab, hpool, hb⟩ := ho.tied hsel hc hn hn' hal hin hout
  obtain ⟨h1, h2, h3⟩ := heq (.pgpr .I32 d) b
  rw [show ins' = mk (.pgpr .I32 d) (.pgpr .I32 d) b from
    Inst.ext' (ho.op.trans h1.symm) (hd.trans h2.symm) (hab.trans h3.symm)]
  exact .binop hmk hpool (hb.operand rfl)

lemma shift (hmk : mk ∈ [Inst.mkSra, .mkSrl, .mkSll])
    (heq : ∀ d b, (mk d d b).op = ins.op ∧ (mk d d b).o = [d] ∧ (mk d d b).i = [d, b])
    (ho : Operands c ins ins') (hsel : Selected ins) (hc : opCt ins.op = some c)
    (hn : ins.op.nOut = 1) (hn' : ins.op.nIn = 2) (hal : (ctOf c 0).hasAlias = true)
    (hcx : (ctOf c 2).cr = RACtGPR.CX)
    (hin : ∀ (k : ℕ) (x : VOperand), ins.i[k]? = some x → Value .I32 x)
    (hout : ∀ x ∈ ins.o, ∃ v, x = .vgpr .I32 v) : Constrained is_leaf ins' := by
  obtain ⟨d, b, hd, hab, hpool, hb⟩ := ho.tied hsel hc hn hn' hal hin hout
  obtain ⟨h1, h2, h3⟩ := heq (.pgpr .I32 d) b
  rw [show ins' = mk (.pgpr .I32 d) (.pgpr .I32 d) b from
    Inst.ext' (ho.op.trans h1.symm) (hd.trans h2.symm) (hab.trans h3.symm)]
  refine .shift hmk hpool (hb.operand rfl) ?_
  rcases hb with ⟨val, rfl, -⟩ | ⟨p, rfl, -, htest⟩
  · exact .inl rfl
  · rw [hcx] at htest
    exact .inr (congrArg some (test_single (by decide) htest))

end

/-- With its operands in place an instruction meets the constraints of the emitter. -/
lemma constrained (ho : Operands c ins ins') (hsel : Selected ins) (hc : opCt ins.op = some c)
    (hp : Plain ins) : Constrained is_leaf ins' := by
  cases hp with
  | @mov t d x ht hd hx =>
    obtain ⟨n, hn⟩ := vtypeSize_of_ne ht
    obtain ⟨y, hy, hfit⟩ := ho.inputs_one hsel hc rfl (t := t) fun z hz => by
      cases hz
      exact hx
    rcases hd with ⟨v, rfl⟩ | ⟨offs, rfl⟩
    · obtain ⟨p, hp, hpool, -⟩ := ho.output t v rfl
      rw [show ins' = .mkMov (.pgpr t p) y from Inst.ext' ho.op hp hy]
      exact .mov ⟨hn, hpool⟩ rfl (hfit.operand hn) (.inl rfl)
    · have hkept := ho.kept fun t v hm => by cases List.mem_singleton.mp hm
      rw [show ins' = .mkMov (.slot true t offs) y from Inst.ext' ho.op hkept hy]
      exact .mov ⟨hn, trivial⟩ rfl (hfit.operand hn) (.inr hfit.isSlot)
  | op hne hacc hin hout =>
    obtain ⟨op, o, i, hlo, hli⟩ := ins
    have hop := ho.op
    have hnil : ∀ {o : List VOperand}, o.length = 0 → o = [] :=
      fun h => List.length_eq_zero_iff.mp h
    cases op
    case mov => exact absurd rfl hne
    case hcall | br | gbr => cases hc
    case brcc cc =>
      cases hc
      obtain ⟨a, b, hab, ha, hb⟩ := ho.inputs_two hsel rfl rfl (hin 0) (hin 1)
      obtain ⟨p, rfl, hpool, -⟩ := ha.reg rfl
      rw [show ins' = .mkBrcc cc (.pgpr .I32 p) b from
        Inst.ext' hop (hnil (by rw [ins'.ho, hop]; rfl)) hab]
      exact .brcc ⟨rfl, hpool⟩ (hb.operand rfl) (.inl rfl) (.inl rfl)
    case gbrind =>
      cases hc
      obtain ⟨a, ha', ha⟩ := ho.inputs_one hsel rfl rfl (hin 0)
      obtain ⟨p, rfl, -, htest⟩ := ha.reg rfl
      obtain rfl : p = RSI := test_single (by decide) htest
      rw [show ins' = .mkGBrind (.pgpr .I32 RSI) from
        Inst.ext' hop (hnil (by rw [ins'.ho, hop]; rfl)) ha']
      exact .gbrind
    case vmload sz sgn =>
      cases hc
      obtain ⟨d, hd, hpool, -⟩ := ho.output_reg rfl hout
      obtain ⟨a, ha', ha⟩ := ho.inputs_one hsel rfl rfl (hin 0)
      rw [show ins' = .mkVMLoad sz sgn (.pgpr .I32 d) a from Inst.ext' hop hd ha']
      exact .vmload hacc hpool (ha.operand rfl) ha.isSlot
    case vmstore sz sgn =>
      cases hc
      obtain ⟨hsz, rfl⟩ := hacc
      obtain ⟨n, hn⟩ := vtypeSize_of_ne hsz
      obtain ⟨a, b, hab, ha, hb⟩ := ho.inputs_two hsel rfl rfl (hin 0) (hin 1)
      rw [show ins' = .mkVMStore sz .U a b from
        Inst.ext' hop (hnil (by rw [ins'.ho, hop]; rfl)) hab]
      exact .vmstore hn (ha.operand rfl) ha.isSlot (hb.operand hn) hb.isSlot
    case setcc cc =>
      cases hc
      obtain ⟨d, hd, hpool, -⟩ := ho.output_reg rfl hout
      obtain ⟨a, b, hab, ha, hb⟩ := ho.inputs_two hsel rfl rfl (hin 0) (hin 1)
      obtain ⟨p, rfl, hp, -⟩ := ha.reg rfl
      rw [show ins' = .mkSetcc cc (.pgpr .I32 d) (.pgpr .I32 p) b from Inst.ext' hop hd hab]
      exact .setcc hpool hp (hb.operand rfl)
    case add =>
      exact binop .mkAdd (by simp) (fun _ _ => ⟨rfl, rfl, rfl⟩) ho hsel hc rfl rfl
        (by cases hc; rfl) hin hout
    case sub =>
      exact binop .mkSub (by simp) (fun _ _ => ⟨rfl, rfl, rfl⟩) ho hsel hc rfl rfl
        (by cases hc; rfl) hin hout
    case and =>
      exact binop .mkAnd (by simp) (fun _ _ => ⟨rfl, rfl, rfl⟩) ho hsel hc rfl rfl
        (by cases hc; rfl) hin hout
    case or =>
      exact binop .mkOr (by simp) (fun _ _ => ⟨rfl, rfl, rfl⟩) ho hsel hc rfl rfl
        (by cases hc; rfl) hin hout
    case xor =>
      exact binop .mkXor (by simp) (fun _ _ => ⟨rfl, rfl, rfl⟩) ho hsel hc rfl rfl
        (by cases hc; rfl) hin hout
    case sra =>
      exact shift .mkSra (by simp) (fun _ _ => ⟨rfl, rfl, rfl⟩) ho hsel hc rfl rfl
        (by cases hc; rfl) (by cases hc; rfl) hin hout
    case srl =>
      exact shift .mkSrl (by simp) (fun _ _ => ⟨rfl, rfl, rfl⟩) ho hsel hc rfl rfl
        (by cases hc; rfl) (by cases hc; rfl) hin hout
    case sll =>
      exact shift .mkSll (by simp) (fun _ _ => ⟨rfl, rfl, rfl⟩) ho hsel hc rfl rfl
        (by cases hc; rfl) (by cases hc; rfl) hin hout

end QRegAlloc.Operands

/-! ### Instructions -/

/-- The argument of a call is a word. -/
lemma Plain.call {stub : RuntimeStubId} (hp : Plain ins) (hop : ins.op = .hcall stub)
    (harg : ∀ x ∈ ins.i, x.isConst = true) :
    ∃ w : BitVec 32, ins = .mkHcall stub (.const .I32 w) := by
  cases hp with
  | mov => cases hop
  | op hne hacc hin hout =>
    obtain ⟨op, o, i, hlo, hli⟩ := ins
    obtain rfl : op = .hcall stub := hop
    obtain rfl := List.length_eq_zero_iff.mp hlo
    obtain ⟨x, rfl⟩ := List.length_eq_one_iff.mp hli
    have hval := hin 0 x rfl
    have hconst := harg x (List.mem_singleton_self x)
    cases x with
    | const t w =>
      obtain rfl : t = .I32 := hval
      exact ⟨w, rfl⟩
    | _ => cases hconst

namespace QRegAlloc

variable {vi : VRegsInfo} {N W : ℕ → Prop} {ra ra' : QRegAlloc}

/-- In place of an instruction the allocator leaves moves, and the instruction in a form that the
emitter can encode. -/
def Emits (is_leaf : Bool) (ins : Inst) (δ : List Inst) : Prop :=
  ∃ ms ins', δ = ms ++ [ins'] ∧ (∀ m ∈ ms, Shuffle m) ∧ ins'.op = ins.op ∧
    Constrained is_leaf ins'

lemma Shuffles.emits {raV : QRegAlloc} (hsh : Shuffles ra raV) (hop : ins'.op = ins.op)
    (hc : Constrained is_leaf ins') :
    ∃ δ, (raV.emit ins').code = ra.code ++ δ ∧ Emits is_leaf ins δ := by
  obtain ⟨ms, hms, hall⟩ := hsh
  exact ⟨ms ++ [ins'], by rw [code_emit, hms, List.append_assoc], ms, ins', rfl, hall, hop, hc⟩

lemma runInst_emits (hs : Sized vi) (hi : Inv vi N ra) (hg : GoodInst vi N W ins)
    (hp : Plain ins) (hleaf : ins.op.hasCalls = true → is_leaf = false)
    (h : ra.runInst ins = some ra') : ∃ δ, ra'.code = ra.code ++ δ ∧ Emits is_leaf ins δ := by
  obtain ⟨⟨raV, ins'⟩, hv, h⟩ := Option.bind_eq_some_iff.mp h
  cases h
  -- the operations with operands
  have hoperands : ∀ {c raA insA}, opCt ins.op = some c → ra.allocOp ins = some (raA, insA) →
      Shuffles ra raA ∧ Inv vi N raA ∧ insA.op = ins.op ∧ Constrained is_leaf insA := by
    intro c raA insA hc h
    obtain ⟨hsh, hop⟩ := allocOp_operands hs hi hg hc h
    obtain ⟨-, -, hiA, -⟩ := allocOp_spec idleEnv hi hg.sel hg.input hg.output h
    exact ⟨hsh, hiA, hop.op, hop.constrained hg.sel hc hp⟩
  obtain ⟨op, o, i, ho, hlen⟩ := ins
  have hnil : ∀ {l : List VOperand}, l.length = 0 → l = [] :=
    fun h => List.length_eq_zero_iff.mp h
  cases op
  case br =>
    obtain ⟨raB, h1, h2⟩ := Option.bind_eq_some_iff.mp hv
    cases h2
    obtain rfl := hnil ho
    obtain rfl := hnil hlen
    exact (shuffles_blockBoundary hs hi h1).emits rfl .br
  case gbr tpc =>
    obtain ⟨raB, h1, h2⟩ := Option.bind_eq_some_iff.mp hv
    cases h2
    obtain rfl := hnil ho
    obtain rfl := hnil hlen
    exact (shuffles_regionBoundary hs hi h1).emits rfl .gbr
  case hcall stub =>
    obtain ⟨raC, h1, h2⟩ := Option.bind_eq_some_iff.mp hv
    cases h2
    obtain ⟨w, hw⟩ := hp.call rfl (hg.arg rfl)
    rw [hw]
    exact (shuffles_callOp hs hi h1).emits rfl (.hcall (hleaf rfl))
  case brcc cc =>
    obtain ⟨⟨raA, insA⟩, h1, h2⟩ := Option.bind_eq_some_iff.mp hv
    obtain ⟨raB, h3, h4⟩ := Option.bind_eq_some_iff.mp h2
    cases h4
    obtain ⟨hsh, hiA, hop, hcon⟩ := hoperands rfl h1
    exact (hsh.trans (shuffles_blockBoundary hs hiA h3)).emits hop hcon
  case gbrind =>
    obtain ⟨⟨raA, insA⟩, h1, h2⟩ := Option.bind_eq_some_iff.mp hv
    obtain ⟨raB, h3, h4⟩ := Option.bind_eq_some_iff.mp h2
    cases h4
    obtain ⟨hsh, hiA, hop, hcon⟩ := hoperands rfl h1
    exact (hsh.trans (shuffles_regionBoundary hs hiA h3)).emits hop hcon
  all_goals
    obtain ⟨hsh, -, hop, hcon⟩ := hoperands rfl hv
    exact hsh.emits hop hcon

end QRegAlloc

end

end Rv32jit.Qcg
